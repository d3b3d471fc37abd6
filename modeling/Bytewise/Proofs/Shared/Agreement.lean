/-
# Bytewise.Proofs.Shared.Agreement -- shared arrays are as good as private ones

`Agrees` says that arrays show what private lists hold.  Every edit keeps it
(`Agrees.apply`), so it holds after every run (`agrees_run`), however the edits
make blocks shared.  All that is asked for is that the cells handed in fit into
memory.

Questions get the answers that private lists give (`run_shows_private`).  The ones
that look at places first are no exception, as long as cells equal themselves: two
arrays of one block, or two views of one length from one place on, do hold the same
cells (`cells_of_samePlace`), but a cell need not equal itself (`equal_copy_of_nan`).
-/
import Bytewise.Shared.Search
import Bytewise.Proofs.Shared.Private

namespace Bytewise.Shared

set_option autoImplicit false

open Arrays (Source Change Edit Region Operand applyChange)

/-! ## Arrays that show what private lists hold -/

/-- The arrays and views of `a` show what those of `p` hold. -/
structure Agrees {α : Type} (a : Arrays α) (p : Private α) : Prop where
  counted : a.held.Counted []
  lists : ∀ name, a.held.contents? name = p.lists name
  made : a.memories.length = p.made
  memories : ∀ name, (a.memoryNames.get? name).map (fun i => (i, a.memoryCells i)) = p.memories name
  views : ∀ view, (a.views.get? view).map (fun v => (v, a.viewCells v)) = p.views view
  memories_lt : ∀ name i, a.memoryNames.get? name = some i → i < a.memories.length
  views_lt : ∀ view v, a.views.get? view = some v → v.memory < a.memories.length

variable {α : Type} {a : Arrays α} {p : Private α}

theorem agrees_empty : Agrees (Arrays.empty : Arrays α) Private.empty where
  counted := Holdings.counted_empty
  lists := fun _ => rfl
  made := rfl
  memories := fun _ => rfl
  views := fun _ => rfl
  memories_lt := fun _ _ found => absurd found (by simp [Arrays.empty, Slots.get?])
  views_lt := fun _ _ found => absurd found (by simp [Arrays.empty, Slots.get?])

theorem Agrees.put (agrees : Agrees a p) {name : String} {list? : Option (List α)}
    {held : Holdings α} (changes : a.held.Changes [] name list? held) :
    Agrees (a.withHeld held) (p.put name list?) :=
  { agrees with
    counted := changes.counted
    lists := by
      intro other
      by_cases same : other = name
      · subst same
        rw [Private.lists_put_self]
        exact changes.shows
      · rw [Private.lists_put_of_ne p same, ← agrees.lists other]
        exact changes.frame other same }

/-- One view is another, or is gone. -/
theorem Agrees.seen (agrees : Agrees a p) {view : String} {views : Slots View} {v? : Option View}
    (self : views.get? view = v?)
    (others : ∀ other, other ≠ view → views.get? other = a.views.get? other)
    (bound : ∀ v, v? = some v → v.memory < a.memories.length) :
    Agrees { a with views } (p.look view (v?.map fun v => (v, a.viewCells v))) :=
  { agrees with
    views := by
      intro other
      by_cases same : other = view
      · subst same
        rw [self, Private.views_look_self]
        rfl
      · rw [others other same, Private.views_look_of_ne p same]
        exact agrees.views other
    views_lt := by
      intro other v found
      by_cases same : other = view
      · rw [same, self] at found
        exact bound v found
      · rw [others other same] at found
        exact agrees.views_lt other v found }

theorem Agrees.look (agrees : Agrees a p) (view : String) {v : View}
    (bound : v.memory < a.memories.length) :
    Agrees { a with views := a.views.set view v } (p.look view (some (v, a.viewCells v))) := by
  refine agrees.seen (Slots.get?_set_self a.views view v) ?_ ?_
  · exact fun other ne => Slots.get?_set_of_ne a.views v ne
  · exact fun w same => Option.some.inj same ▸ bound

theorem Agrees.unlook (agrees : Agrees a p) (view : String) :
    Agrees { a with views := a.views.erase view } (p.look view none) := by
  refine agrees.seen (Slots.get?_erase_self a.views view) ?_ ?_
  · exact fun other ne => Slots.get?_erase_of_ne a.views ne
  · exact fun w gone => absurd gone (by simp)

/-- Memory that is added leaves the cells of the memories there were. -/
theorem memoryCells_addMemory (a : Arrays α) (name : String) (cells : List α) {i : Nat}
    (old : i < a.memories.length) : (a.addMemory name cells).memoryCells i = a.memoryCells i := by
  rw [Arrays.memoryCells, Arrays.addMemory, List.getElem?_append_left old, Arrays.memoryCells]

theorem memoryCells_addMemory_self (a : Arrays α) (name : String) (cells : List α) :
    (a.addMemory name cells).memoryCells a.memories.length = cells := by
  rw [Arrays.memoryCells, Arrays.addMemory, List.getElem?_concat_length, Option.getD_some]

theorem Agrees.region (agrees : Agrees a p) (r : Region) :
    p.region? r = (a.viewOf? r).map fun v => (v, a.viewCells v) := by
  rw [Private.region?, ← agrees.memories, Arrays.viewOf?, Option.map_map, Option.map_map]
  rfl

theorem Agrees.viewOf_lt (agrees : Agrees a p) {r : Region} {v : View}
    (found : a.viewOf? r = some v) : v.memory < a.memories.length := by
  obtain ⟨i, named, rfl⟩ := Option.map_eq_some_iff.1 found
  exact agrees.memories_lt _ i named

theorem Agrees.memory (agrees : Agrees a p) (name : String) (cells : List α) :
    Agrees (a.addMemory name cells) (p.addMemory name cells) :=
  have length : (a.addMemory name cells).memories.length = a.memories.length + 1 :=
    List.length_append
  { agrees with
    made := length.trans (congrArg (· + 1) agrees.made)
    memories := by
      intro other
      by_cases same : other = name
      · subst same
        rw [Private.memories_addMemory_self, ← agrees.made]
        show ((a.memoryNames.set other a.memories.length).get? other).map _ = _
        rw [Slots.get?_set_self, Option.map_some, memoryCells_addMemory_self]
      · rw [Private.memories_addMemory_of_ne p same, ← agrees.memories other]
        show ((a.memoryNames.set name a.memories.length).get? other).map _ = _
        rw [Slots.get?_set_of_ne _ _ same]
        refine Option.map_congr fun i named => ?_
        rw [memoryCells_addMemory a name cells (agrees.memories_lt other i named)]
    views := by
      intro view
      refine Eq.trans ?_ (agrees.views view)
      refine Option.map_congr fun v seen => ?_
      have bound := agrees.views_lt view v seen
      rw [Arrays.viewCells, Arrays.viewCells, memoryCells_addMemory a name cells bound]
    memories_lt := by
      intro other i found
      rw [length]
      by_cases same : other = name
      · rw [Arrays.addMemory, same, Slots.get?_set_self] at found
        exact Option.some.inj found ▸ Nat.lt_succ_self _
      · rw [Arrays.addMemory, Slots.get?_set_of_ne _ _ same] at found
        exact Nat.lt_succ_of_lt (agrees.memories_lt other i found)
    views_lt := fun view v seen =>
      length ▸ Nat.lt_succ_of_lt (agrees.views_lt view v seen) }

/-! ## Questions -/

theorem Agrees.cells (agrees : Agrees a p) (x : Operand) : a.operandCells x = p.cells x := by
  cases x with
  | array name =>
      rw [Arrays.operandCells, Private.cells, Holdings.cells_eq, agrees.lists]
  | view name =>
      rw [Arrays.operandCells, Private.cells, ← agrees.views, Option.map_map]
      rfl

theorem samePlace_iff {x y : Operand} :
    a.samePlace x y = true ↔ ∃ place, a.place? x = some place ∧ a.place? y = some place := by
  rw [Arrays.samePlace]
  cases a.place? x with
  | none => simp
  | some here =>
      cases a.place? y with
      | none => simp
      | some there =>
          simp only [beq_iff_eq, Option.some.injEq, exists_eq_left']
          exact eq_comm

theorem cells_of_sameBlock {name other : String}
    (same : a.samePlace (.array name) (.array other) = true) :
    a.held.cells name = a.held.cells other := by
  obtain ⟨place, here, there⟩ := samePlace_iff.1 same
  obtain ⟨i, block, rfl⟩ := Option.map_eq_some_iff.1 here
  obtain ⟨j, block', index⟩ := Option.map_eq_some_iff.1 there
  obtain rfl := Arrays.Place.block.inj index
  rw [Holdings.cells, block, Holdings.cells, block']

/-- Cells kept in the same place are the same, if there are as many of them. -/
theorem cells_of_samePlace {x y : Operand} (same : a.samePlace x y = true)
    (sizes : (a.operandCells x).length = (a.operandCells y).length) :
    a.operandCells x = a.operandCells y := by
  obtain ⟨place, here, there⟩ := samePlace_iff.1 same
  cases x with
  | array name =>
      cases y with
      | array other => exact cells_of_sameBlock same
      | view other =>
          obtain ⟨i, -, rfl⟩ := Option.map_eq_some_iff.1 here
          obtain ⟨w, -, mixed⟩ := Option.map_eq_some_iff.1 there
          exact absurd mixed (by simp)
  | view name =>
      cases y with
      | array other =>
          obtain ⟨v, -, rfl⟩ := Option.map_eq_some_iff.1 here
          obtain ⟨i, -, mixed⟩ := Option.map_eq_some_iff.1 there
          exact absurd mixed (by simp)
      | view other =>
          obtain ⟨v, seen, rfl⟩ := Option.map_eq_some_iff.1 here
          obtain ⟨w, seen', start⟩ := Option.map_eq_some_iff.1 there
          obtain ⟨memory, lo⟩ := Arrays.Place.memory.inj start
          -- the cells from `lo` on, cut off at two places that leave as many of them
          have shows : a.operandCells (.view name) =
              ((a.memoryCells v.memory).drop v.lo).take (v.hi - v.lo) := by
            rw [Arrays.operandCells, seen, ← List.drop_take]
            rfl
          have shows' : a.operandCells (.view other) =
              ((a.memoryCells v.memory).drop v.lo).take (w.hi - v.lo) := by
            rw [Arrays.operandCells, seen', ← memory, ← lo, ← List.drop_take]
            rfl
          rw [shows, shows', List.length_take, List.length_take] at sizes
          rw [shows, shows']
          exact List.take_eq_take_iff.2 sizes

section

variable [BEq α] {x y : Operand} {name other : String}

/-- Cells that equal themselves make up a list that equals itself. -/
theorem beq_self_of_forall {cells : List α} (reflexive : ∀ c ∈ cells, (c == c) = true) :
    (cells == cells) = true := by
  induction cells with
  | nil => rfl
  | cons c rest ih =>
      rw [List.forall_mem_cons] at reflexive
      rw [List.cons_beq_cons, reflexive.1, ih reflexive.2]
      rfl

theorem equal_eq
    (reflexive : a.samePlace (.array name) (.array other) = true →
      ∀ c ∈ a.held.cells name, (c == c) = true) :
    a.equal name other = (a.held.cells name == a.held.cells other) := by
  rw [Arrays.equal]
  cases same : a.samePlace (.array name) (.array other) with
  | false => exact Bool.false_or _
  | true =>
      rw [← cells_of_sameBlock same, beq_self_of_forall (reflexive same)]
      rfl

/-- Lists of different sizes are not equal, so the sizes need no look of their own. -/
theorem isEqual_eq
    (reflexive : a.samePlace x y = true → ∀ c ∈ a.operandCells x, (c == c) = true) :
    a.isEqual x y = (a.operandCells x == a.operandCells y) := by
  rw [Arrays.isEqual]
  by_cases sizes : (a.operandCells x).length = (a.operandCells y).length
  · rw [beq_iff_eq.2 sizes, Bool.true_and]
    cases same : a.samePlace x y with
    | false => exact Bool.false_or _
    | true =>
        rw [← cells_of_samePlace same sizes, beq_self_of_forall (reflexive same)]
        rfl
  · have unequal : (a.operandCells x == a.operandCells y) = false :=
      Bool.eq_false_iff.2 (mt List.length_eq_of_beq sizes)
    rw [beq_eq_false_iff_ne.2 sizes, unequal]
    rfl

end

theorem at?_eq (cells : List α) (i : Nat) : (Search.at? cells i).1 = cells[i]? := by
  rw [Search.at?]
  split <;> simp [*]

/-! ## Edits -/

variable [Storable α]

/-- What private arrays make of a change is what it comes to, whether it works or fails. -/
theorem result_eq {s : Holdings α} {name : String} {change : Change α}
    (fit : fits α (s.cells name).length)
    (fitSource : ∀ source, change = .store source → fits α (source.list s.contents?).length) :
    change.result s.contents? (s.contents? name) =
      if (applyChange s name change).2.1.failed then s.contents? name
      else change.done s.contents? (s.contents? name) := by
  by_cases idle : change.Idle (s.contents? name)
  · rw [Change.result_of_idle _ idle, Change.done_of_idle _ idle, ite_self]
  have failing := Holdings.failed_iff idle fit fitSource
  rw [Change.result]
  split
  case h_1 size asked =>
    by_cases had : fits α size
    · have worked : ¬ (applyChange s name change).2.1.failed = true := by
        rintro failed
        obtain ⟨size', asked', lacking⟩ := failing.1 failed
        obtain rfl := Option.some.inj (asked.symm.trans asked')
        exact lacking had
      rw [if_pos had, if_neg worked]
    · rw [if_neg had, if_pos (failing.2 ⟨size, asked, had⟩)]
  case h_2 nothing =>
    have worked : ¬ (applyChange s name change).2.1.failed = true := by
      rintro failed
      obtain ⟨size, asked, -⟩ := failing.1 failed
      exact absurd (nothing.symm.trans asked) (by simp)
    rw [if_neg worked]

theorem Agrees.fits_cells (agrees : Agrees a p) (fit : p.Fits) (name : String) :
    fits α (a.held.cells name).length := by
  rw [Holdings.cells_eq, agrees.lists]
  exact fit.source (show (Source.array name).Fits from trivial)

theorem Agrees.apply (agrees : Agrees a p) (fit : p.Fits) {edit : Edit α} (had : edit.Fits) :
    Agrees (a.apply edit).arrays (p.apply edit) := by
  have same : a.held.contents? = p.lists := funext agrees.lists
  have counted := agrees.counted
  cases edit with
  | create name list? =>
      cases list? with
      | none => exact agrees.put (counted.bind_null name)
      | some cells =>
          exact agrees.put (counted.bind_alloc name cells)
  | ofSize name size =>
      by_cases fine : fits α size
      · have made : a.held.heap.ofSize? size =
            some (a.held.heap.alloc (List.replicate size Storable.zero)) := if_pos fine
        rw [Arrays.apply, made, Private.apply, if_pos fine]
        exact agrees.put (counted.bind_alloc name _)
      · have failed : a.held.heap.ofSize? size = none := if_neg fine
        rw [Arrays.apply, failed, Private.apply, if_neg fine]
        exact agrees.put (counted.bind_null name)
  | copy name source =>
      have shares := agrees.put (counted.bind_share name source)
      rwa [same] at shares
  | deepCopy name source =>
      rw [Arrays.apply, Private.apply, ← agrees.lists source]
      split
      case h_1 null =>
        rw [null]
        exact agrees.put (counted.bind_null name)
      case h_2 cells found =>
        rw [found]
        exact agrees.put (counted.bind_alloc name cells)
  | drop name => exact agrees.put (counted.drop name)
  | change name change =>
      have fitSource : ∀ source, change = .store source →
          fits α (source.list a.held.contents?).length := by
        rintro source rfl
        rw [same]
        exact fit.source had
      have changes := counted.changes name change
      rw [← result_eq (agrees.fits_cells fit name) fitSource, same] at changes
      exact agrees.put changes
  | memory name cells => exact agrees.memory name cells
  | view view region =>
      rw [Arrays.apply, Private.apply, agrees.region]
      cases found : a.viewOf? region with
      | none => exact agrees
      | some v => exact agrees.look view (agrees.viewOf_lt found)
  | setRaw name view region =>
      rw [Arrays.apply, Private.apply, agrees.region]
      cases found : a.viewOf? region with
      | none => exact agrees
      | some v => exact (agrees.put (counted.drop name)).look view (agrees.viewOf_lt found)
  | resetRaw view name region =>
      rw [Arrays.apply, Private.apply, agrees.region, ← agrees.views]
      cases seen : a.views.get? view with
      | none => exact agrees
      | some v =>
          have places : ((a.viewOf? region).map fun w => (w, a.viewCells w)).map Prod.fst =
              a.viewOf? region := by
            rw [Option.map_map]
            exact Option.map_id'
          simp only [Option.map_some, places]
          split
          · exact (agrees.put (counted.bind_null name)).unlook view
          · exact agrees
  | ofView name view =>
      rw [Arrays.apply, Private.apply, ← agrees.views]
      cases seen : a.views.get? view with
      | none => exact agrees
      | some v => exact agrees.put (counted.bind_alloc name _)

/-- Every run keeps the agreement: one edit after the other keeps it, and the lists fit on. -/
theorem Agrees.run (agrees : Agrees a p) (fit : p.Fits) {edits : List (Edit α)}
    (had : ∀ edit ∈ edits, edit.Fits) : Agrees (a.run edits) (p.run edits) := by
  induction edits generalizing a p with
  | nil => exact agrees
  | cons edit rest ih =>
      obtain ⟨first, later⟩ := List.forall_mem_cons.1 had
      exact ih (agrees.apply fit first) (fit.apply first) later

/-- **Shared arrays behave as private ones.**  After any run of edits every name shows the list
that it has where nothing is shared, every view its cells, and all questions are answered on those
lists, whatever the names have in common: the size, a cell, how often a value stands there, and
whether two arrays or views are equal.  Only the last asks something of the equality of cells: of
two arrays or views in the same place it takes for granted that their cells equal themselves. -/
theorem run_shows_private [BEq α] (edits : List (Edit α)) (fit : ∀ edit ∈ edits, edit.Fits) :
    let a := Arrays.empty.run edits
    let p := Private.empty.run edits
    (∀ name, a.held.contents? name = p.lists name) ∧
    (∀ x, a.operandCells x = p.cells x) ∧
    (∀ x, (a.operandCells x).length = (p.cells x).length) ∧
    (∀ x i, (Search.at? (a.operandCells x) i).1 = (p.cells x)[i]?) ∧
    (∀ x value, Search.occurrences (a.operandCells x) value = (p.cells x).count value) ∧
    (∀ name other,
      (a.samePlace (.array name) (.array other) = true →
        ∀ c ∈ p.cells (.array name), (c == c) = true) →
      a.equal name other = (p.cells (.array name) == p.cells (.array other))) ∧
    (∀ x y, (a.samePlace x y = true → ∀ c ∈ p.cells x, (c == c) = true) →
      a.isEqual x y = (p.cells x == p.cells y)) := by
  intro a p
  have agrees : Agrees a p := agrees_empty.run Private.fits_empty fit
  refine ⟨agrees.lists, agrees.cells, ?size, ?cell, ?count, ?equal, ?isEqual⟩
  case size =>
    intro x
    rw [agrees.cells]
  case cell =>
    intro x i
    rw [agrees.cells, at?_eq]
  case count =>
    intro x value
    rw [agrees.cells]
    rfl
  case equal =>
    intro name other reflexive
    rw [← agrees.cells] at reflexive ⊢
    rw [← agrees.cells]
    exact equal_eq reflexive
  case isEqual =>
    intro x y reflexive
    rw [← agrees.cells] at reflexive ⊢
    rw [← agrees.cells]
    exact isEqual_eq reflexive

/-- A cell of a copy is changed: the array that it is a copy of shows what it did, and the two are
no longer equal, while another copy still is. -/
theorem run_shows_private_copy :
    let edits : List (Edit UInt8) :=
      [.create "a" (some [1, 2, 3]), .copy "b" "a", .copy "c" "a", .change "b" (.setAt 0 9)]
    let a := Arrays.empty.run edits
    (∀ edit ∈ edits, edit.Fits) ∧
    a.held.contents? "a" = some [1, 2, 3] ∧ a.held.contents? "b" = some [9, 2, 3] ∧
    a.equal "a" "b" = false ∧ a.isEqual (.array "a") (.array "c") = true := by
  intro edits a
  have fit : ∀ edit ∈ edits, edit.Fits := by
    simp [edits, Edit.Fits, fits, Storable.width, maxBytes]
  obtain ⟨shows, -, -, -, -, equal, isEqual⟩ := run_shows_private edits fit
  refine ⟨fit, ?_, ?_, ?_, ?_⟩
  · rw [shows]
    decide
  · rw [shows]
    decide
  · rw [equal "a" "b" fun _ c _ => beq_self_eq_true c]
    decide
  · rw [isEqual _ _ fun _ c _ => beq_self_eq_true c]
    decide

/-- A cell that is not a number differs from itself, but an array that holds it equals its copy, and
the private lists of the two are not equal.  And an array that is asked for more cells than fit into
memory stays as it was, where a private list would grow. -/
theorem equal_copy_of_nan :
    let edits : List (Edit Float) := [.create "a" (some [0 / 0]), .copy "b" "a"]
    let a := Arrays.empty.run edits
    let p := Private.empty.run edits
    let tooMany := 0x8000000000000000
    let asked : List (Edit UInt8) := [.create "a" (some [1, 2]), .change "a" (.resize tooMany)]
    ((p.cells (.array "a") == p.cells (.array "b")) = false ∧
      a.equal "a" "b" = true ∧ a.isEqual (.array "a") (.array "b") = true) ∧
    ((Arrays.empty.run asked).operandCells (.array "a") = [1, 2] ∧
      resized ([1, 2] : List UInt8) tooMany ≠ [1, 2]) := by
  intro edits a p tooMany asked
  refine ⟨⟨by decide, by decide, by decide⟩, by decide, fun same => ?_⟩
  have sizes := congrArg List.length same
  rw [Heap.length_resized] at sizes
  exact absurd sizes (by decide)

end Bytewise.Shared
