import LivlyOS.Mm.PageMap

/-! What a table that `map_page` links brings with it: the frame comes from `pmm_alloc` as it
is, so the entries it held last are mappings from then on. -/

namespace LivlyOS.Mm

open LivlyOS.Lib LivlyOS.Lib.TableTree

/-- The four-level walk of an address meets an entry that is not present. -/
def MeetsAbsent (mem : Bytes) (virt : Nat) : Prop :=
  let pdpt := nextTable mem pml4 (pml4Index virt)
  let pd := nextTable mem pdpt (pdptIndex virt)
  let pt := nextTable mem pd (pdIndex virt)
  tableEntry mem pml4 (pml4Index virt) &&& pagePresent = 0 ∨
    tableEntry mem pdpt (pdptIndex virt) &&& pagePresent = 0 ∨
    tableEntry mem pd (pdIndex virt) &&& pagePresent = 0 ∨
    tableEntry mem pt (ptIndex virt) &&& pagePresent = 0

instance (mem : Bytes) (virt : Nat) : Decidable (MeetsAbsent mem virt) :=
  inferInstanceAs (Decidable (_ ∨ _ ∨ _ ∨ _))

/-- The indices of an address, down to its entry in the last table. -/
def fullPath (virt : Nat) : List (Fin 512) := tablePath virt ++ [⟨ptIndex virt, ptIndex_lt virt⟩]

theorem meetsAbsent_iff (mem : Bytes) (virt : Nat) : MeetsAbsent mem virt ↔ reach mem (fullPath virt) = none := by
  have step (table i : Nat) (inside : i < 512) :
      tableEntry mem (4096 * table) i &&& pagePresent = 0 ∧ child mem table ⟨i, inside⟩ = none ∨
        ¬tableEntry mem (4096 * table) i &&& pagePresent = 0 ∧
          ∃ next, child mem table ⟨i, inside⟩ = some next ∧ nextTable mem (4096 * table) i = 4096 * next := by
    by_cases absent : tableEntry mem (4096 * table) i &&& pagePresent = 0
    · exact .inl ⟨absent, if_pos absent⟩
    · exact .inr ⟨absent, _, if_neg absent, nextTable_eq ..⟩
  unfold MeetsAbsent fullPath tablePath
  rw [show pml4 = 4096 * 1 from rfl]
  simp only [List.cons_append, List.nil_append, reach, follow]
  rcases step 1 (pml4Index virt) (by rw [pml4Index_eq]; omega) with ⟨absent, ends⟩ | ⟨present4, pdpt, there, next⟩
  · simp [absent, ends]
  · rw [next, there, Option.bind_some]
    rcases step pdpt (pdptIndex virt) (by rw [pdptIndex_eq]; omega) with ⟨absent, ends⟩ | ⟨present3, pd, there, next⟩
    · simp [absent, ends]
    · rw [next, there, Option.bind_some]
      rcases step pd (pdIndex virt) (by rw [pdIndex_eq]; omega) with ⟨absent, ends⟩ | ⟨present2, pt, there, next⟩
      · simp [absent, ends]
      · rw [next, there, Option.bind_some]
        rcases step pt (ptIndex virt) (ptIndex_lt virt) with ⟨absent, ends⟩ | ⟨present1, page, there, _⟩
        · simp [absent, ends]
        · simp [present4, present3, present2, present1, there]

/-- Pages of 48-bit addresses are told apart by their indices. -/
theorem fullPath_eq_iff (small : virt' < 281474976710656) :
    fullPath virt' = fullPath virt ↔ virt' / 4096 = virt % 281474976710656 / 4096 := by
  simp only [fullPath, tablePath, List.cons_append, List.nil_append, List.cons.injEq, Fin.mk.injEq, and_true,
    pml4Index_eq, pdptIndex_eq, pdIndex_eq, ptIndex_eq]
  omega

/-- Every path of four indices is the one of some 48-bit address. -/
theorem fullPath_surj (a b c d : Fin 512) : ∃ virt, virt < 281474976710656 ∧ fullPath virt = [a, b, c, d] := by
  have ha := a.isLt
  have hb := b.isLt
  have hc := c.isLt
  have hd := d.isLt
  refine ⟨(((a.val * 512 + b.val) * 512 + c.val) * 512 + d.val) * 4096, by omega, ?_⟩
  simp only [fullPath, tablePath, List.cons_append, List.nil_append, List.cons.injEq, Fin.ext_iff, and_true,
    pml4Index_eq, pdptIndex_eq, pdIndex_eq, ptIndex_eq]
  omega

/-- The frames that `pmm_alloc` hands out for the tables of the remaining indices: there is one
for each, none is a table in use, and none is handed out twice. -/
def FreshFrames (mem : Bytes) (pmm : PmmState) (linked : List Nat) : (rest : List (Fin 512)) → Prop
  | [] => True
  | _ :: rest =>
    let page := (pmmAlloc pmm).1 / 4096
    (pmmAlloc pmm).1 ≠ outOfMemory ∧ page ∉ linked ∧ (∀ path, path.length ≤ 3 → reach mem path ≠ some page) ∧
      FreshFrames mem (pmmAlloc pmm).2 (page :: linked) rest

/-- These frames hold no present entry, but for the one that the last table has for the page
itself. -/
def BlankFrames (mem : Bytes) (pmm : PmmState) : (rest : List (Fin 512)) → Prop
  | [] => True
  | index :: rest =>
    (∀ i, (rest = [] → i ≠ index) → child mem ((pmmAlloc pmm).1 / 4096) i = none) ∧
      BlankFrames mem (pmmAlloc pmm).2 rest

theorem FreshFrames.mono (fresh : FreshFrames mem pmm linked rest) (fewer : linked' ⊆ linked) :
    FreshFrames mem pmm linked' rest := by
  induction rest generalizing pmm linked linked' with
  | nil => trivial
  | cons index rest ih =>
    obtain ⟨found, new, unused, later⟩ := fresh
    exact ⟨found, fun old => new (fewer old), unused, ih later (List.cons_subset_cons _ fewer)⟩

section Linked

variable {mem mem' : Bytes} {front : List (Fin 512)} {table page : Nat} {index : Fin 512}

theorem FreshFrames.link (fresh : FreshFrames mem pmm linked rest) (used : page ∈ linked)
    (link : Linked (child mem) (child mem') 1 3 front table index page) (alone : Unshared (child mem) 1 3 front) :
    FreshFrames mem' pmm linked rest := by
  induction rest generalizing pmm linked with
  | nil => trivial
  | cons next rest ih =>
    obtain ⟨found, new, unused, later⟩ := fresh
    refine ⟨found, new, fun path short reached => ?_, ih later (List.mem_cons_of_mem _ used)⟩
    rw [reach, link.follow_eq alone short] at reached
    split at reached
    · exact new (Option.some.inj reached ▸ used)
    · exact unused path short reached

theorem BlankFrames.link (blank : BlankFrames mem pmm rest) (fresh : FreshFrames mem pmm linked rest)
    (link : Linked (child mem) (child mem') 1 3 front table index page) : BlankFrames mem' pmm rest := by
  induction rest generalizing pmm linked with
  | nil => trivial
  | cons next rest ih =>
    obtain ⟨_, _, unused, later⟩ := fresh
    obtain ⟨empty, blank⟩ := blank
    refine ⟨fun i own => ?_, ih blank later⟩
    rw [link.others, empty i own]
    intro same
    exact absurd link.reached (same ▸ unused front (Nat.le_of_lt link.short))

end Linked

/-- The next index of the walk leads to the next table at once, or to a frame that is linked. -/
theorem linkTable_present (st : VmmState) (there : child st.mem table index = some next) :
    linkTable (4096 * table) index st = st ∧ nextTable st.mem (4096 * table) index = 4096 * next := by
  obtain ⟨present, place⟩ := @child_some _ _ _ _ index.isLt there
  exact ⟨if_neg present, place⟩

/-- On the way down an address: its tables are reached along this way only, and at the first
missing one the frames are fresh and blank. -/
structure Walking (st : VmmState) (front : List (Fin 512)) (table : Nat) (path : List (Fin 512)) : Prop where
  unshared : ∀ way, way <+: front ++ path → way.length ≤ 3 → Unshared (child st.mem) 1 3 way
  reached : reach st.mem front = some table
  frames : ∀ before index rest next, path = before ++ index :: rest → rest ≠ [] →
    follow (child st.mem) table before = some next → child st.mem next index = none →
    FreshFrames st.mem st.pmm [] rest ∧ BlankFrames st.mem st.pmm rest

section Step

variable {st : VmmState} {front rest : List (Fin 512)} {table : Nat} {index : Fin 512}

/-- A link changes no walk but those behind the new table, and there is nothing behind it. -/
theorem absent_linked {mem mem' : Bytes} {page : Nat} (link : Linked (child mem) (child mem') 1 3 front table index page)
    (alone : Unshared (child mem) 1 3 front) {own : Fin 512} {rest : List (Fin 512)}
    (blank : ∀ i, (rest = [] → i ≠ own) → child mem page i = none) {path : List (Fin 512)} (four : path.length = 4)
    (whole : (front ++ index :: own :: rest).length = 4) (other : path ≠ front ++ index :: own :: rest)
    (absent : reach mem path = none) : reach mem' path = none := by
  by_cases through : ∃ behind, path = (front ++ [index]) ++ behind
  · obtain ⟨behind, rfl⟩ := through
    rw [reach, follow_append, link.follow_new alone, Option.bind_some]
    cases behind with
    | nil => simp at four whole; omega
    | cons i behind =>
      have empty : child mem' page i = none := by
        rw [link.fresh_same]
        apply blank
        rintro rfl rfl
        apply other
        have last : behind = [] := by
          apply List.length_eq_zero_iff.mp
          simp at four whole
          omega
        rw [last, List.append_assoc]
        rfl
      rw [follow, empty]
      rfl
  · rw [reach, follow_congr_at, ← reach, absent]
    intro before i behind next shape reached
    apply link.others
    rintro rfl rfl
    apply through
    have short : before.length ≤ 3 := by
      rw [shape, List.length_append, List.length_cons] at four
      omega
    have same := alone before next short link.reached reached
    exact ⟨behind, by rw [shape, same, List.append_assoc]; rfl⟩

theorem Walking.link {address i : Nat} {inside : i < 512} (walking : Walking st front table (⟨i, inside⟩ :: rest))
    (place : address = 4096 * table) (more : rest ≠ []) (whole : (front ++ ⟨i, inside⟩ :: rest).length = 4) :
    ∃ next, Walking (linkTable address i st) (front ++ [⟨i, inside⟩]) next rest ∧
      nextTable (linkTable address i st).mem address i = 4096 * next ∧
      ∀ path, path.length = 4 → path ≠ front ++ ⟨i, inside⟩ :: rest → reach st.mem path = none →
        reach (linkTable address i st).mem path = none := by
  subst place
  have short : front.length < 3 := by
    have positive := List.length_pos_iff.mpr more
    rw [List.length_append, List.length_cons] at whole
    omega
  generalize index' : (⟨i, inside⟩ : Fin 512) = index at walking whole ⊢
  obtain rfl : i = index.val := congrArg Fin.val index'
  obtain ⟨unshared, reached, frames⟩ := walking
  have alone := unshared front (List.prefix_append front _) (Nat.le_of_lt short)
  cases there : child st.mem table index with
  | some next =>
    obtain ⟨same, place⟩ := linkTable_present st there
    rw [same]
    refine ⟨next, ⟨?_, ?_, ?_⟩, place, fun path _ _ absent => absent⟩
    · rw [List.append_assoc]
      exact unshared
    · rw [reach] at reached
      rw [reach, follow_snoc, reached]
      exact there
    · intro before i behind target shape inner found missing
      apply frames (index :: before) i behind target (by rw [shape, List.cons_append]) inner _ missing
      rw [follow, there]
      exact found
  | none =>
    obtain ⟨fresh, blank⟩ := frames [] index rest table rfl more rfl there
    obtain ⟨own, rest, rfl⟩ := List.exists_cons_of_ne_nil more
    obtain ⟨found, _, unused, later⟩ := fresh
    obtain ⟨empty, blank⟩ := blank
    obtain ⟨page, frame, small⟩ := pmmAlloc_page found
    have number : (pmmAlloc st.pmm).1 / 4096 = page := by omega
    rw [number] at unused later empty
    have inner : front.length + 1 < 3 → ∀ i, child st.mem page i = none := by
      intro deep i
      apply empty
      rintro rfl
      rw [List.length_append, List.length_cons, List.length_singleton] at whole
      omega
    obtain ⟨shape, linked⟩ := linkTable_linked reached short index there frame small unused inner
    have pmm : (linkTable (4096 * table) index st).pmm = (pmmAlloc st.pmm).2 := by
      rw [shape]
      rfl
    refine ⟨page, ⟨?_, linked.follow_new alone, ?_⟩, (@child_some _ _ _ _ index.isLt linked.set).2, ?_⟩
    · rw [List.append_assoc]
      intro way down short'
      exact linked.unshared alone short' (unshared way down short')
    · intro before i behind target path inner' reached' _
      cases before with
      | nil =>
        obtain ⟨_, rfl⟩ := List.cons.inj path
        rw [pmm]
        exact ⟨(later.link List.mem_cons_self linked alone).mono (List.nil_subset _), blank.link later linked⟩
      | cons head before =>
        obtain ⟨rfl, tail⟩ := List.cons.inj path
        have nothing : child (linkTable (4096 * table) index st).mem page own = none := by
          rw [linked.fresh_same]
          apply empty
          rintro rfl
          simp at tail
        rw [follow, nothing] at reached'
        cases reached'
    · intro path four other absent
      exact absent_linked linked alone empty four whole other absent

theorem absent_setEntry (alone : Unshared (child st.mem) 1 3 front) (reached : reach st.mem front = some table)
    (three : front.length = 3) (value : Nat) {path : List (Fin 512)} (four : path.length = 4)
    (other : path ≠ front ++ [index]) :
    reach (setEntry (4096 * table) index value st).mem path = reach st.mem path := by
  apply follow_congr_at
  intro before i behind next shape found
  have inside := index.isLt
  have place := i.isLt
  have slots : 4096 * next + 8 * i.val + 8 ≤ 4096 * table + 8 * index.val ∨
      4096 * table + 8 * index.val + 8 ≤ 4096 * next + 8 * i.val := by
    by_cases same : next = table ∧ i = index
    · obtain ⟨rfl, rfl⟩ := same
      exfalso
      apply other
      have short : before.length ≤ 3 := by
        rw [shape, List.length_append, List.length_cons] at four
        omega
      have here := alone before next short reached found
      subst here
      have last : behind = [] := by
        apply List.length_eq_zero_iff.mp
        rw [shape, List.length_append, List.length_cons] at four
        omega
      rw [shape, last]
    · by_cases table' : next = table
      · have different : i.val ≠ index.val := fun equal => same ⟨table', Fin.ext equal⟩
        omega
      · omega
  unfold child
  rw [setEntry_other value st slots]

end Step

/-- Every 48-bit address on another page whose walk met a non-present entry still meets one. -/
def NoStray (virt phys flags : Nat) (st : VmmState) : Prop :=
  ∀ virt', virt' < 281474976710656 → virt' / 4096 ≠ virt % 281474976710656 / 4096 → MeetsAbsent st.mem virt' →
    MeetsAbsent (mapPage virt phys flags st).mem virt'

/-- The first table that is missing on the way down an address, with the indices behind it. -/
def FirstMissing (st : VmmState) (virt : Nat) (rest : List (Fin 512)) : Prop :=
  rest ≠ [] ∧ ∃ before index next, fullPath virt = before ++ index :: rest ∧ reach st.mem before = some next ∧
    child st.mem next index = none

/-- The tables on the way down an address are reached along it only, and `pmm_alloc` succeeds
with frames that are no tables. -/
structure TablesFit (st : VmmState) (virt : Nat) : Prop where
  unshared : ∀ way, way <+: tablePath virt → Unshared (child st.mem) 1 3 way
  frames : ∀ rest, FirstMissing st virt rest → FreshFrames st.mem st.pmm [] rest

/-- The frames that become tables hold no present entry, but for the one of the page itself. -/
def LinksBlank (st : VmmState) (virt : Nat) : Prop := ∀ rest, FirstMissing st virt rest → BlankFrames st.mem st.pmm rest

theorem mapPage_absent (fit : TablesFit st virt) (blank : LinksBlank st virt) (phys flags : Nat) {path : List (Fin 512)}
    (four : path.length = 4) (other : path ≠ fullPath virt) (absent : reach st.mem path = none) :
    reach (mapPage virt phys flags st).mem path = none := by
  have start : Walking st [] 1 (fullPath virt) := by
    refine ⟨fun way down short => fit.unshared way ?_, rfl, fun before index rest next shape inner reached missing => ?_⟩
    · rw [List.nil_append, fullPath] at down
      exact List.prefix_of_prefix_length_le down (List.prefix_append ..) short
    have first : FirstMissing st virt rest := ⟨inner, before, index, next, shape, reached, missing⟩
    exact ⟨fit.frames rest first, blank rest first⟩
  unfold fullPath tablePath at start other
  obtain ⟨pdpt, walking4, next4, kept4⟩ := start.link (show pml4 = 4096 * 1 from rfl) (by simp) rfl
  obtain ⟨pd, walking3, next3, kept3⟩ := walking4.link next4 (by simp) rfl
  obtain ⟨pt, walking2, next2, kept2⟩ := walking3.link next3 (by simp) rfl
  have above := kept2 path four other (kept3 path four other (kept4 path four other absent))
  have alone := walking2.unshared _ (List.prefix_append ..) (Nat.le_refl 3)
  rw [← absent_setEntry alone walking2.reached rfl (phys ||| flags) four other] at above
  unfold mapPage
  dsimp only at next2 above ⊢
  rw [next2]
  exact above

theorem noStray_of_blank (fit : TablesFit st virt) (blank : LinksBlank st virt) (phys flags : Nat) :
    NoStray virt phys flags st := by
  intro virt' small page absent
  rw [meetsAbsent_iff] at absent ⊢
  exact mapPage_absent fit blank phys flags rfl (mt (fullPath_eq_iff small).mp page) absent

/-- With both upper tables there, only the last one can be missing. -/
theorem missing_third {mem : Bytes} {a b c d index : Fin 512} {before rest : List (Fin 512)} {next pd : Nat}
    (upper : reach mem [a, b] = some pd) (shape : [a, b, c, d] = before ++ index :: rest) (inner : rest ≠ [])
    (reached : reach mem before = some next) (missing : child mem next index = none) :
    rest = [d] ∧ index = c ∧ next = pd := by
  simp only [reach, follow, Option.bind_eq_some_iff, Option.some.injEq] at upper
  obtain ⟨pdpt, root, _, second, rfl⟩ := upper
  rcases before with _ | ⟨_, _ | ⟨_, _ | ⟨_, before⟩⟩⟩
  · obtain ⟨rfl, rfl⟩ := List.cons.inj shape
    obtain rfl := Option.some.inj reached
    cases missing.symm.trans root
  · simp only [List.cons_append, List.nil_append, List.cons.injEq] at shape
    obtain ⟨rfl, rfl, rfl⟩ := shape
    rw [reach, follow, root] at reached
    obtain rfl := Option.some.inj reached
    cases missing.symm.trans second
  · simp only [List.cons_append, List.nil_append, List.cons.injEq] at shape
    obtain ⟨rfl, rfl, rfl, rfl⟩ := shape
    rw [reach, follow, root, Option.bind_some, follow, second] at reached
    exact ⟨rfl, rfl, (Option.some.inj reached).symm⟩
  · have lengths := congrArg List.length shape
    have positive := List.length_pos_iff.mpr inner
    simp only [List.length_cons, List.length_append, List.length_nil] at lengths
    omega

theorem linksBlank_of_noStray (fit : TablesFit st virt) (upper : reach st.mem ((tablePath virt).take 2) = some pd)
    (stray : NoStray virt phys flags st) : LinksBlank st virt := by
  intro rest first
  have fresh := fit.frames rest first
  obtain ⟨inner, before, index, next, shape, reached, missing⟩ := first
  obtain ⟨rfl, rfl, rfl⟩ := missing_third upper shape inner reached missing
  refine ⟨fun i own => ?_, trivial⟩
  by_contra stale
  obtain ⟨found, _, unused, _⟩ := fresh
  obtain ⟨page, frame, small⟩ := pmmAlloc_page found
  have number : (pmmAlloc st.pmm).1 / 4096 = page := by omega
  rw [number] at unused stale
  have tables := upper
  simp only [tablePath, List.take_succ_cons, List.take_zero, reach, follow, Option.bind_eq_some_iff, Option.some.injEq] at tables
  obtain ⟨pdpt, root, pd, second, rfl⟩ := tables
  obtain ⟨same4, next4⟩ := linkTable_present st root
  obtain ⟨same3, next3⟩ := linkTable_present st second
  obtain ⟨_, linked⟩ := linkTable_linked upper (Nat.lt_succ_self 2) _ missing frame small unused fun deep => absurd deep (Nat.lt_irrefl 3)
  have next2 := (child_some linked.set).2
  have mapped : mapPage virt phys flags st =
      setEntry (4096 * page) (ptIndex virt) (phys ||| flags) (linkTable (4096 * pd) (pdIndex virt) st) := by
    unfold mapPage
    dsimp only at next4 next3 same4 same3 ⊢
    rw [show pml4 = 4096 * 1 from rfl, same4, next4, same3, next3, next2]
  obtain ⟨virt', small', path⟩ := fullPath_surj ⟨pml4Index virt, by rw [pml4Index_eq]; omega⟩
    ⟨pdptIndex virt, by rw [pdptIndex_eq]; omega⟩ ⟨pdIndex virt, by rw [pdIndex_eq]; omega⟩ i
  have other : tablePath virt ++ [i] ≠ fullPath virt := by
    intro same
    exact own rfl (List.singleton_inj.mp (List.append_cancel_left same))
  have path' : fullPath virt' = tablePath virt ++ [i] := path
  have absent : MeetsAbsent st.mem virt' := by
    rw [meetsAbsent_iff, path', reach, follow_append]
    have missing' := linked.missing_path
    exact congrArg (Option.bind · _) missing'
  have still := stray virt' small' (fun same => other (path'.symm.trans ((fullPath_eq_iff small').mpr same))) absent
  rw [meetsAbsent_iff, path', mapped] at still
  have alone := fit.unshared _ (List.take_prefix 2 (tablePath virt))
  have alone' := linked.unshared alone (tablePath_length virt) (fit.unshared _ (List.prefix_refl (tablePath virt)))
  have reached' : reach (linkTable (4096 * pd) (pdIndex virt) st).mem (tablePath virt) = some page :=
    linked.follow_new alone
  rw [absent_setEntry alone' reached' rfl _ rfl other] at still
  rw [reach] at reached'
  rw [reach, follow_snoc, reached', Option.bind_some, linked.fresh_same] at still
  exact stale still

/-- If the tables that `map_page` links are blank, no other page gets a mapping; where only the
last table can be missing, this is exactly what it takes. -/
theorem mapPage_noStray (fit : TablesFit st virt) (phys flags : Nat) :
    (LinksBlank st virt → NoStray virt phys flags st) ∧
      ∀ pd, reach st.mem ((tablePath virt).take 2) = some pd → (NoStray virt phys flags st ↔ LinksBlank st virt) := by
  constructor
  · intro blank
    exact noStray_of_blank fit blank phys flags
  · intro pd upper
    exact ⟨linksBlank_of_noStray fit upper, fun blank => noStray_of_blank fit blank phys flags⟩

theorem blankVmm_fit : TablesFit blankVmm 0x400000 ∧ LinksBlank blankVmm 0x400000 := by
  have zero : ∀ address, ZeroPage blankVmm.mem address := fun _ _ _ => rfl
  have root := reach_blank (zero pml4)
  have unused : ∀ page, page ≠ 1 → ∀ path, path.length ≤ 3 → reach blankVmm.mem path ≠ some page := by
    intro page other path _ reached
    rw [root path page reached] at reached
    exact other (Option.some.inj reached).symm
  have first : ∀ rest, FirstMissing blankVmm 0x400000 rest → rest = [0, 2, 0] := by
    rintro rest ⟨_, before, index, next, shape, reached, _⟩
    rw [root before next reached] at shape
    exact (List.cons.inj shape).2.symm
  refine ⟨⟨fun way down => (Maps.blank (zero pml4)).separate.unshared down.length_le, fun rest missing => ?_⟩, fun rest missing => ?_⟩
  · rw [first rest missing]
    exact ⟨by decide +kernel, by decide, unused _ (by decide +kernel), by decide +kernel, by decide +kernel,
      unused _ (by decide +kernel), by decide +kernel, by decide +kernel, unused _ (by decide +kernel), trivial⟩
  · rw [first rest missing]
    exact ⟨fun i _ => child_zero (zero _) i, fun i _ => child_zero (zero _) i, fun i _ => child_zero (zero _) i, trivial⟩

theorem mapPage_noStray_blankVmm : NoStray 0x400000 0x200000 3 blankVmm :=
  (mapPage_noStray blankVmm_fit.1 0x200000 3).1 blankVmm_fit.2

/-- The frame that becomes the last table holds a present entry. -/
def staleVmm : VmmState := { blankVmm with mem := fun address => if address = 0x6008 then 1 else 0 }

/-- Mapping a page brings a mapping of the next one, to what the frame held last. -/
theorem mapPage_stray : (mapPage 0x400000 0x200000 3 staleVmm).frames = [0x6000, 0x5000, 0x4000] ∧
    MeetsAbsent staleVmm.mem 0x401000 ∧ ¬MeetsAbsent (mapPage 0x400000 0x200000 3 staleVmm).mem 0x401000 ∧
    ¬NoStray 0x400000 0x200000 3 staleVmm := by
  have absent : MeetsAbsent staleVmm.mem 0x401000 := by decide +kernel
  have stray : ¬MeetsAbsent (mapPage 0x400000 0x200000 3 staleVmm).mem 0x401000 := by decide +kernel
  exact ⟨by decide +kernel, absent, stray, fun clean => stray (clean 0x401000 (by decide) (by decide) absent)⟩

end LivlyOS.Mm
