import LivlyOS.Mm.HeapSafety
import Mathlib.Data.List.Chain

namespace LivlyOS.Mm

open LivlyOS.Lib

theorem Held.unique {block other : HeapBlock} (here : Held mem stop block) (there : Held mem stop other)
    (same : block.addr = other.addr) : block = other := by
  have size : block.size = other.size := here.size.symm.trans (same ▸ there.size)
  have used : block.used.toNat = other.used.toNat := here.used.symm.trans (same ▸ there.used)
  obtain ⟨addr, size, used⟩ := block
  obtain ⟨addr', size', used'⟩ := other
  simp only [HeapBlock.mk.injEq]
  exact ⟨same, by assumption, toNat_bool_inj (by assumption)⟩

theorem headers_unique (tiles : Tiles HeapBlock.addr HeapBlock.limit start blocks stop)
    (tiles' : Tiles HeapBlock.addr HeapBlock.limit start blocks' stop)
    (held : ∀ block ∈ blocks, Held mem high block) (held' : ∀ block ∈ blocks', Held mem high block) :
    blocks = blocks' := by
  have nonempty : ∀ {block : HeapBlock} {low : Nat}, block.addr = low → ¬ block.limit ≤ low := by
    intro block low place
    rw [HeapBlock.limit, sizeofBlock]
    omega
  induction tiles generalizing blocks' with
  | nil =>
    cases tiles' with
    | nil => rfl
    | cons place ordered rest => exact absurd rest.le (nonempty place)
  | @cons block _ _ _ place ordered rest ih =>
    cases tiles' with
    | nil => exact absurd rest.le (nonempty place)
    | @cons other _ _ _ place' ordered' rest' =>
      obtain rfl : block = other :=
        (held block List.mem_cons_self).unique (held' other List.mem_cons_self) (place.trans place'.symm)
      rw [ih rest' (fun part member => held part (List.mem_cons_of_mem _ member))
        fun part member => held' part (List.mem_cons_of_mem _ member)]

theorem Heap.unique (heap : Heap mem start stop blocks) (heap' : Heap mem start stop blocks') : blocks = blocks' :=
  headers_unique heap.tiles heap'.tiles heap.held heap'.held

/-- No two consecutive blocks are free. -/
def NoFreeNeighbours (blocks : List HeapBlock) : Prop :=
  blocks.IsChain fun left right => left.used = true ∨ right.used = true

/-- The blocks behind a free one start with a block in use. -/
theorem NoFreeNeighbours.behind (apart : NoFreeNeighbours (before ++ block :: after)) (free : block.used = false) :
    after.dropWhile (fun next => !next.used) = after := by
  cases after with
  | nil => rfl
  | cons follower after =>
    have meets := (List.isChain_append_cons_cons.mp apart).2.1
    rw [free] at meets
    have used : follower.used = true := meets.resolve_left Bool.false_ne_true
    rw [List.dropWhile_cons_of_neg (by simp [used])]

/-- Taking a free block leaves at most its rest free, in front of a block in use. -/
theorem NoFreeNeighbours.taken (apart : NoFreeNeighbours (before ++ block :: after)) (free : block.used = false)
    (size : Nat) : NoFreeNeighbours (before ++ (block.taken size ++ after)) := by
  obtain ⟨left, right, _⟩ := List.isChain_append.mp apart
  have follows : ∀ {head : HeapBlock}, head.used = true ∨ head.used = block.used →
      NoFreeNeighbours (head :: after) := by
    intro head kind
    cases after with
    | nil => exact List.isChain_singleton _
    | cons follower after =>
      obtain ⟨meets, rest⟩ := List.isChain_cons_cons.mp right
      refine List.isChain_cons_cons.mpr ⟨?_, rest⟩
      rcases kind with used | same
      · exact .inl used
      · exact same ▸ meets
  refine List.isChain_append.mpr ⟨left, ?_, ?_⟩
  · rw [HeapBlock.taken]
    split
    · exact List.isChain_cons_cons.mpr ⟨.inl rfl, follows (.inr free.symm)⟩
    · exact follows (.inl rfl)
  · intro last _ head first
    have used : head.used = true := by
      rw [HeapBlock.taken] at first
      split at first <;> obtain rfl := Option.mem_some_iff.mp first <;> rfl
    exact .inr used

/-- `kfree` of the pointer to a block just taken puts the block back. -/
theorem kfree_taken {st : HeapState} {block : HeapBlock}
    (heap : Heap st.mem st.heapStart stop (before ++ (block.taken size ++ after)))
    (whole : Tiles HeapBlock.addr HeapBlock.limit st.heapStart (before ++ block :: after) stop)
    (free : block.used = false) (apart : NoFreeNeighbours (before ++ block :: after))
    (enough : after.length + 1 < fuel) :
    ∃ mem, kfree fuel (block.addr + sizeofBlock) st = some { st with mem } ∧
      Heap mem st.heapStart stop (before ++ block :: after) := by
  -- what the taken block cut off is free and merged again
  obtain ⟨width, rest, shape, short, cutOff⟩ : ∃ width rest, block.taken size = ⟨block.addr, width, true⟩ :: rest ∧
      rest.length ≤ 1 ∧ ∀ part ∈ rest, part.used = false := by
    rw [HeapBlock.taken]
    split
    · exact ⟨_, _, rfl, Nat.le_refl _, by simp⟩
    · exact ⟨_, _, rfl, Nat.zero_le _, by simp⟩
  have heap : Heap st.mem st.heapStart stop (before ++ ⟨block.addr, width, true⟩ :: (rest ++ after)) := by
    rw [shape] at heap
    exact heap
  have length : (rest ++ after).length < fuel := by
    rw [List.length_append]
    omega
  obtain ⟨mem, size', freed, heap', _⟩ := kfree_spec heap length
  have merged : (rest ++ after).dropWhile (fun next => !next.used) = after := by
    rw [List.dropWhile_append_of_pos fun part member => by simp [cutOff part member]]
    exact apart.behind free
  rw [merged] at heap'
  have same : (⟨block.addr, size', false⟩ : HeapBlock) = block := by
    have ends := heap'.tiles.limit_eq whole
    obtain ⟨addr, size, used⟩ := block
    simp only [HeapBlock.limit] at ends
    simp only [HeapBlock.mk.injEq, true_and]
    exact ⟨by omega, free.symm⟩
  rw [same] at heap'
  exact ⟨mem, freed, heap'⟩

/-- The blocks after some requests in a row, the newest pointer first. -/
inductive Stacked (start : Nat) : List HeapBlock → List (Nat × Nat) → Prop where
  | initial : Stacked start [⟨start, heapSize - sizeofBlock, false⟩] []
  | push (below : Stacked start (before ++ block :: after) live) (fits : block.fits size = true) :
      Stacked start (before ++ (block.taken size ++ after)) ((block.addr + sizeofBlock, size) :: live)

theorem Stacked.apart (stacked : Stacked start blocks live) : NoFreeNeighbours blocks := by
  induction stacked with
  | initial => exact List.isChain_singleton _
  | push below fits ih => exact ih.taken ((HeapBlock.fits_iff _).mp fits).1 _

theorem Stacked.tiles (stacked : Stacked start blocks live) :
    Tiles HeapBlock.addr HeapBlock.limit start blocks (start + heapSize) := by
  induction stacked with
  | initial =>
    have sum : sizeofBlock + (heapSize - sizeofBlock) = heapSize := by decide
    exact (HeapBlock.tiles_singleton _).mpr ⟨rfl, by rw [HeapBlock.limit, Nat.add_assoc, sum]⟩
  | @push before block after live size below fits ih =>
    refine @Tiles.exchange _ _ _ _ _ [block] _ _ _ ih fun low high only => ?_
    obtain ⟨rfl, rfl⟩ := block.tiles_singleton.mp only
    exact block.taken_tiles size

/-- Only the newest live pointer is freed, or NULL. -/
def NewestFirst (use : HeapUse) : HeapCall → Prop
  | .kfree ptr => ptr = 0 ∨ use.live.head?.map Prod.fst = some ptr
  | _ => True

/-- The owners of the heap and the order in which they came. -/
structure HeapUse.Nested (use : HeapUse) (start : Nat) (blocks : List HeapBlock) : Prop where
  owned : use.Owned start blocks
  stacked : Stacked start blocks use.live

/-- Freeing the newest pointer takes the newest request back. -/
theorem Stacked.release {st : HeapState} (stacked : Stacked st.heapStart blocks ((ptr, size) :: older))
    (heap : Heap st.mem st.heapStart (st.heapStart + heapSize) blocks) (enough : heapSize / sizeofBlock < fuel) :
    ∃ mem blocks', kfree fuel ptr st = some { st with mem } ∧
      Heap mem st.heapStart (st.heapStart + heapSize) blocks' ∧ Stacked st.heapStart blocks' older := by
  cases stacked with
  | @push before block after _ _ below fits =>
    obtain ⟨free, large⟩ := (HeapBlock.fits_iff block).mp fits
    obtain ⟨width, rest, shape, _, _⟩ := HeapBlock.taken_eq large
    have bound := heap.length_lt
    have short : after.length + 1 < fuel := by
      rw [shape, List.length_append, List.length_append, List.length_cons] at bound
      omega
    obtain ⟨mem, freed, heap'⟩ := kfree_taken heap below.tiles free below.apart short
    exact ⟨mem, _, freed, heap', below⟩

/-- Every call in reverse order keeps the nesting. -/
theorem HeapUse.Nested.step {use : HeapUse} (state : use.Nested start blocks) (enough : heapSize / sizeofBlock < fuel)
    (newest : NewestFirst use call) (step : HeapStep fuel use call use') : ∃ blocks', use'.Nested start blocks' := by
  obtain ⟨owned, stacked⟩ := state
  obtain ⟨blocks', change, owned'⟩ := owned.step enough step
  cases change with
  | same live stores null => exact ⟨blocks, owned', live ▸ stacked⟩
  | taken fits within => exact ⟨_, owned', stacked.push fits⟩
  | @freed mem before after width block used within =>
    have nonzero : block.addr + sizeofBlock ≠ 0 := by
      rw [sizeofBlock]
      omega
    have newest := newest.resolve_left nonzero
    obtain ⟨heap, live⟩ := use
    cases live with
    | nil => cases newest
    | cons range older =>
      obtain ⟨ptr, size⟩ := range
      obtain rfl : ptr = block.addr + sizeofBlock := Option.some.inj newest
      obtain rfl : heap.heapStart = start := owned.place
      have fresh := (List.nodup_cons.mp owned.nodup).1
      obtain ⟨mem', blocks'', freed, heap', below⟩ := stacked.release owned.heap enough
      cases step with
      | kfree _ ran =>
        cases freed.symm.trans ran
        have kept : ((block.addr + sizeofBlock, size) :: older).filter (fun range => range.1 ≠ block.addr + sizeofBlock) = older := by
          rw [List.filter_cons_of_neg (by simp)]
          refine List.filter_eq_self.mpr fun range member => decide_eq_true fun same => fresh ?_
          exact List.mem_map.mpr ⟨range, member, same⟩
        exact ⟨blocks'', (heap'.unique owned'.heap).symm ▸ owned', kept.symm ▸ below⟩

section Order

variable {pmmBitmapEnd fuel : Nat} {mem : Memory} {calls : List HeapCall} {use : HeapUse}

theorem run_nested (positive : 0 < pmmBitmapEnd) (fits : pmmBitmapEnd + heapSize < 18446744073709551616)
    (enough : heapSize / sizeofBlock < fuel)
    (run : Run (HeapStep fuel) NewestFirst (initialHeap pmmBitmapEnd mem) calls use) :
    ∃ blocks, use.Nested pmmBitmapEnd blocks := by
  refine run.invariant (fun use => ∃ blocks, HeapUse.Nested use pmmBitmapEnd blocks) ?_
    ⟨_, initialHeap_owned positive fits mem, .initial⟩
  rintro use call use' ⟨blocks, state⟩ newest step
  exact state.step enough newest step

/-- `kfree` undoes the `kmalloc` before it in every heap without free neighbours, and
a run that frees in reverse order leaves the initial heap when nothing is live. -/
theorem kfree_restores :
    (∀ {fuel stop ptr : Nat} {blocks : List HeapBlock} {size : UInt64} {st st' : HeapState},
      Heap st.mem st.heapStart stop blocks → NoFreeNeighbours blocks → blocks.length < fuel →
      kmalloc fuel size st = some (ptr, st') → ptr ≠ 0 →
      ∃ mem, kfree fuel ptr st' = some { st with mem } ∧ Heap mem st.heapStart stop blocks) ∧
    ∀ {fuel pmmBitmapEnd : Nat} {mem : Memory} {calls : List HeapCall} {use : HeapUse}, 0 < pmmBitmapEnd →
      pmmBitmapEnd + heapSize < 18446744073709551616 → heapSize / sizeofBlock < fuel →
      Run (HeapStep fuel) NewestFirst (initialHeap pmmBitmapEnd mem) calls use → use.live = [] →
      use.heap.heapStart = pmmBitmapEnd ∧ Heap use.heap.mem pmmBitmapEnd (pmmBitmapEnd + heapSize)
        [⟨pmmBitmapEnd, heapSize - sizeofBlock, false⟩] := by
  constructor
  · intro fuel stop ptr blocks size st st' heap apart enough took nonzero
    rcases kmalloc_spec heap enough size with ⟨nothing, _⟩ | ⟨before, block, after, mem, rfl, fits, took', heap', _⟩
    · cases nothing.symm.trans took
      exact absurd rfl nonzero
    · cases took'.symm.trans took
      rw [List.length_append, List.length_cons] at enough
      exact @kfree_taken _ _ _ _ _ { st with mem } block heap' heap.tiles ((HeapBlock.fits_iff block).mp fits).1
        apart (by omega)
  · intro fuel pmmBitmapEnd mem calls use positive fits enough run none
    obtain ⟨blocks, owned, stacked⟩ := run_nested positive fits enough run
    rw [none] at stacked
    cases stacked
    exact ⟨owned.place, owned.heap⟩

theorem kfree_restores_smallHeap :
    (∃ taken mem, kmalloc 32769 64 smallHeap.heap = some (0x200020, taken) ∧
      kfree 32769 0x200020 taken = some ⟨0x200000, mem⟩ ∧
      Heap mem 0x200000 (0x200000 + heapSize) [⟨0x200000, heapSize - sizeofBlock, false⟩]) ∧
    ∃ use, Run (HeapStep 32769) NewestFirst smallHeap
        [.kmalloc 64, .kmalloc 1000, .kfree 0x200080, .kfree 0x200020] use ∧ use.live = [] ∧
      Heap use.heap.mem 0x200000 (0x200000 + heapSize) [⟨0x200000, heapSize - sizeofBlock, false⟩] := by
  obtain ⟨first, second, third, fourth, took, _, step₁, step₂, step₃, step₄⟩ := smallHeap_reversed
  have run : Run (HeapStep 32769) NewestFirst smallHeap
      [.kmalloc 64, .kmalloc 1000, .kfree 0x200080, .kfree 0x200020] ⟨fourth, []⟩ :=
    .next trivial step₁ <| .next trivial step₂ <| .next (.inr rfl) step₃ <| .next (.inr rfl) step₄ .done
  have heap := kmallocInit_spec (by decide : 0 < 0x200000) (by decide) ⟨fun _ => 0, []⟩
  obtain ⟨mem, freed, back⟩ := kfree_restores.1 heap (List.isChain_singleton _) (by decide) took (by decide)
  exact ⟨⟨first, mem, took, freed, back⟩, _, run, rfl,
    (kfree_restores.2 (by decide) (by decide) (by decide) run rfl).2⟩

end Order

end LivlyOS.Mm
