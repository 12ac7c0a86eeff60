import Mathlib.Data.List.Basic

/-! Consecutive extents: a list of things with a first and a limit address that
cover a range in order, each one starting where the one before it ends. -/

namespace LivlyOS.Lib

inductive Tiles (first limit : α → Nat) : Nat → List α → Nat → Prop where
  | nil : Tiles first limit stop [] stop
  | cons (start : first tile = from_) (ordered : first tile ≤ limit tile)
      (rest : Tiles first limit (limit tile) tiles stop) : Tiles first limit from_ (tile :: tiles) stop

namespace Tiles

variable {first limit : α → Nat}

theorem le (tiles : Tiles first limit start items stop) : start ≤ stop := by
  induction tiles with
  | nil => exact Nat.le_refl _
  | cons start ordered rest ih => omega

theorem append (left : Tiles first limit start before middle)
    (right : Tiles first limit middle after stop) : Tiles first limit start (before ++ after) stop := by
  induction left with
  | nil => exact right
  | cons start ordered rest ih => exact .cons start ordered (ih right)

/-- A tiling can be cut at every place of its list. -/
theorem split (tiles : Tiles first limit start (before ++ after) stop) :
    ∃ middle, Tiles first limit start before middle ∧ Tiles first limit middle after stop := by
  induction before generalizing start with
  | nil => exact ⟨start, .nil, tiles⟩
  | cons tile before ih =>
    cases tiles with
    | cons start ordered rest =>
      obtain ⟨middle, left, right⟩ := ih rest
      exact ⟨middle, .cons start ordered left, right⟩

theorem inside (tiles : Tiles first limit start items stop) (member : item ∈ items) :
    start ≤ first item ∧ first item ≤ limit item ∧ limit item ≤ stop := by
  obtain ⟨before, after, rfl⟩ := List.append_of_mem member
  obtain ⟨middle, left, right⟩ := tiles.split
  cases right with
  | cons start ordered rest =>
    have low := left.le
    have high := rest.le
    omega

/-- What stands before a place of the list ends before it, what stands behind it
starts behind it. -/
theorem around (tiles : Tiles first limit start (before ++ item :: after) stop) :
    (∀ other ∈ before, limit other ≤ first item) ∧ ∀ other ∈ after, limit item ≤ first other := by
  obtain ⟨middle, left, right⟩ := tiles.split
  cases right with
  | cons start ordered rest =>
    refine ⟨fun other member => ?_, fun other member => (rest.inside member).1⟩
    rw [start]
    exact (left.inside member).2.2

/-- Two items of a tiling are the same or lie apart. -/
theorem apart (tiles : Tiles first limit start items stop) (here : item ∈ items) (there : other ∈ items) :
    item = other ∨ limit item ≤ first other ∨ limit other ≤ first item := by
  obtain ⟨before, after, rfl⟩ := List.append_of_mem here
  obtain ⟨earlier, later⟩ := tiles.around
  rcases List.mem_append.mp there with member | member
  · exact .inr (.inr (earlier other member))
  · rcases List.mem_cons.mp member with same | member
    · exact .inl same.symm
    · exact .inr (.inl (later other member))

/-- Where a tiling starts is determined by its items and its end. -/
theorem start_eq (tiles : Tiles first limit start items stop) (tiles' : Tiles first limit start' items stop) :
    start = start' := by
  cases tiles with
  | nil =>
    cases tiles'
    rfl
  | cons place ordered rest =>
    cases tiles' with
    | cons place' ordered' rest' => exact place.symm.trans place'

/-- Where an item ends is determined by what stands behind it. -/
theorem limit_eq (tiles : Tiles first limit start (before ++ item :: after) stop)
    (tiles' : Tiles first limit start' (before' ++ other :: after) stop) : limit item = limit other := by
  obtain ⟨_, _, right⟩ := tiles.split
  obtain ⟨_, _, right'⟩ := tiles'.split
  cases right with
  | cons place ordered rest =>
    cases right' with
    | cons place' ordered' rest' => exact rest.start_eq rest'

/-- A part of a tiling can be exchanged for another one of the same range. -/
theorem exchange (tiles : Tiles first limit start (before ++ (old ++ after)) stop)
    (same : ∀ low high, Tiles first limit low old high → Tiles first limit low new high) :
    Tiles first limit start (before ++ (new ++ after)) stop := by
  obtain ⟨low, left, right⟩ := tiles.split
  obtain ⟨high, inner, right⟩ := right.split
  exact left.append ((same low high inner).append right)

theorem map {first' limit' : β → Nat} {name : α → β} (tiles : Tiles first limit start items stop)
    (firsts : ∀ item ∈ items, first' (name item) = first item)
    (limits : ∀ item ∈ items, limit' (name item) = limit item) :
    Tiles first' limit' start (items.map name) stop := by
  induction tiles with
  | nil => exact .nil
  | cons place ordered rest ih =>
    have here := firsts _ List.mem_cons_self
    have there := limits _ List.mem_cons_self
    refine .cons (here.trans place) (by rw [here, there]; exact ordered) ?_
    rw [there]
    exact ih (fun item member => firsts item (List.mem_cons_of_mem _ member))
      fun item member => limits item (List.mem_cons_of_mem _ member)

/-- Extents of at least `width` each leave room for so many of them. -/
theorem length_le (tiles : Tiles first limit start items stop)
    (wide : ∀ item ∈ items, first item + width ≤ limit item) : width * items.length + start ≤ stop := by
  induction tiles with
  | nil => simp
  | cons place ordered rest ih =>
    have here := wide _ List.mem_cons_self
    have there := ih (fun item member => wide item (List.mem_cons_of_mem _ member))
    rw [List.length_cons, Nat.mul_succ]
    omega

end Tiles

end LivlyOS.Lib
