/-
# Bytewise.Proofs.Shared.Private -- shared arrays are as good as private ones

`Private` is what a program with arrays would be without any sharing: every name
has a list of its own, or nothing for null, and every view the cells it shows.
A copy is a copy, and an edit changes the list of the name it is run on.

An edit is given cells that fit into memory (`Edit.Fits`), as cells that exist do.
All lists fit then, whatever the edits (`Fits.apply`): a change that asks for more
memory than there is leaves its list as it was (`Change.result`).
-/
import Mathlib.Logic.Function.Basic
import Bytewise.Proofs.Shared.Changing

namespace Bytewise.Shared

set_option autoImplicit false

variable {α : Type}

namespace Arrays

variable [Storable α]

def Source.Fits : Source α → Prop
  | .cells given => fits α given.length
  | .array _ => True

/-- The cells that an edit is given fit into memory. -/
def Edit.Fits : Edit α → Prop
  | .create _ (some cells) | .memory _ cells => fits α cells.length
  | .change _ (.duplicate source) | .change _ (.store source) => source.Fits
  | _ => True

/-- The list after a change: as it was where memory is asked for that cannot be had. -/
def Change.result (lists : String → Option (List α)) (own? : Option (List α))
    (change : Change α) : Option (List α) :=
  match change.request? with
  | some size => if fits α size then change.done lists own? else own?
  | none => change.done lists own?

theorem Change.result_of_idle (lists : String → Option (List α)) {own? : Option (List α)}
    {change : Change α} (idle : change.Idle own?) : change.result lists own? = own? := by
  have nothing : change.request? = none := by
    cases change with
    | fill value size? =>
        cases size? with
        | none => rfl
        | some size => exact idle.elim
    | resize size => exact idle.elim
    | tryResize size => exact idle.elim
    | _ => rfl
  rw [Change.result, nothing]
  exact Change.done_of_idle lists idle

end Arrays

open Arrays (Source Change Edit Region Operand applyChange)

/-- Arrays and views that share nothing. -/
structure Private (α : Type) where
  lists : String → Option (List α)
  /-- How many memories there have been. -/
  made : Nat
  /-- The memories under names, each with its index. -/
  memories : String → Option (Nat × List α)
  views : String → Option (View × List α)

namespace Private

def empty : Private α := ⟨fun _ => none, 0, fun _ => none, fun _ => none⟩

def put (p : Private α) (name : String) (list? : Option (List α)) : Private α :=
  { p with lists := Function.update p.lists name list? }

def look (p : Private α) (view : String) (seen? : Option (View × List α)) : Private α :=
  { p with views := Function.update p.views view seen? }

/-- New memory under a name. -/
def addMemory (p : Private α) (name : String) (cells : List α) : Private α :=
  { p with
    made := p.made + 1
    memories := Function.update p.memories name (some (p.made, cells)) }

section

variable (p : Private α)

@[simp] theorem lists_put_self (name : String) (list? : Option (List α)) :
    (p.put name list?).lists name = list? := by
  simp [put]

theorem lists_put_of_ne {name other : String} (ne : other ≠ name) (list? : Option (List α)) :
    (p.put name list?).lists other = p.lists other := by
  simp [put, ne]

@[simp] theorem views_look_self (view : String) (seen? : Option (View × List α)) :
    (p.look view seen?).views view = seen? := by
  simp [look]

theorem views_look_of_ne {view other : String} (ne : other ≠ view)
    (seen? : Option (View × List α)) : (p.look view seen?).views other = p.views other := by
  simp [look, ne]

@[simp] theorem memories_addMemory_self (name : String) (cells : List α) :
    (p.addMemory name cells).memories name = some (p.made, cells) := by
  simp [addMemory]

theorem memories_addMemory_of_ne {name other : String} (ne : other ≠ name) (cells : List α) :
    (p.addMemory name cells).memories other = p.memories other := by
  simp [addMemory, ne]

end

/-- The view of a region, with its cells. -/
def region? (p : Private α) (r : Region) : Option (View × List α) :=
  (p.memories r.memory).map fun memory =>
    (⟨memory.1, r.lo, r.hi⟩, (memory.2.take r.hi).drop r.lo)

/-- The cells of an array or a view. -/
def cells (p : Private α) : Operand → List α
  | .array name => (p.lists name).getD []
  | .view name => ((p.views name).map Prod.snd).getD []

variable [Storable α]

def apply (p : Private α) : Edit α → Private α
  | .create name list? => p.put name list?
  | .ofSize name size =>
    p.put name (if fits α size then some (List.replicate size Storable.zero) else none)
  | .copy name source | .deepCopy name source => p.put name (p.lists source)
  | .drop name => p.put name none
  | .change name change => p.put name (change.result p.lists (p.lists name))
  | .memory name cells => p.addMemory name cells
  | .view view region =>
    match p.region? region with
    | none => p
    | some seen => p.look view (some seen)
  | .setRaw name view region =>
    match p.region? region with
    | none => p
    | some seen => (p.put name none).look view (some seen)
  | .resetRaw view name region =>
    match p.views view with
    | none => p
    | some seen =>
      if (p.region? region).map Prod.fst = some seen.1 then (p.put name none).look view none
      else p
  | .ofView name view =>
    match p.views view with
    | none => p
    | some seen => p.put name (some seen.2)

def run (p : Private α) (edits : List (Edit α)) : Private α := edits.foldl apply p

/-! ## Lists fit into memory -/

/-- No list is longer than fits into memory. -/
structure Fits (p : Private α) : Prop where
  lists : ∀ name list, p.lists name = some list → fits α list.length
  memories : ∀ name memory, p.memories name = some memory → fits α memory.2.length
  views : ∀ name seen, p.views name = some seen → fits α seen.2.length

theorem fits_empty : (empty : Private α).Fits := by
  constructor <;> intro name x found <;> simp [empty] at found

variable {p : Private α}

theorem Fits.put (fit : p.Fits) (name : String) {list? : Option (List α)}
    (had : ∀ list, list? = some list → fits α list.length) : (p.put name list?).Fits := by
  refine { fit with lists := fun other list found => ?_ }
  by_cases same : other = name
  · subst same
    rw [lists_put_self] at found
    exact had list found
  · rw [lists_put_of_ne p same] at found
    exact fit.lists other list found

theorem Fits.null (fit : p.Fits) (name : String) : (p.put name none).Fits :=
  fit.put name fun _ made => absurd made (by simp)

theorem Fits.look (fit : p.Fits) (view : String) {seen? : Option (View × List α)}
    (had : ∀ seen, seen? = some seen → fits α seen.2.length) : (p.look view seen?).Fits := by
  refine { fit with views := fun other seen found => ?_ }
  by_cases same : other = view
  · subst same
    rw [views_look_self] at found
    exact had seen found
  · rw [views_look_of_ne p same] at found
    exact fit.views other seen found

theorem Fits.region (fit : p.Fits) {r : Region} {seen : View × List α}
    (found : p.region? r = some seen) : fits α seen.2.length := by
  obtain ⟨memory, named, rfl⟩ := Option.map_eq_some_iff.1 found
  refine fits_of_le (fit.memories _ memory named) ?_
  rw [List.length_drop, List.length_take]
  omega

theorem Fits.source (fit : p.Fits) {source : Source α} (had : source.Fits) :
    fits α (source.list p.lists).length := by
  cases source with
  | cells given => exact had
  | array name =>
      cases found : p.lists name with
      | none => simp [Source.list, found, fits]
      | some list =>
          rw [Source.list, found]
          exact fit.lists name list found

theorem Fits.map (fit : p.Fits) (name : String) {f : List α → List α}
    (le : ∀ own, (f own).length ≤ own.length) :
    ∀ list, (p.lists name).map f = some list → fits α list.length := by
  intro list found
  obtain ⟨own, named, rfl⟩ := Option.map_eq_some_iff.1 found
  exact fits_of_le (fit.lists name own named) (le own)

/-- A change that asks for memory makes a list of that size. -/
theorem Fits.request (fit : p.Fits) (name : String) {change : Change α} {size : Nat}
    (asked : change.request? = some size)
    (made : ∀ list, change.done p.lists (p.lists name) = some list → list.length = size) :
    ∀ list, change.result p.lists (p.lists name) = some list → fits α list.length := by
  intro list found
  rw [Change.result, asked] at found
  by_cases had : fits α size
  · rw [made list (by simpa [had] using found)]
    exact had
  · exact fit.lists name list (by simpa [had] using found)

theorem Fits.result (fit : p.Fits) (name : String) {change : Change α}
    (had : (Edit.change name change).Fits) :
    ∀ list, change.result p.lists (p.lists name) = some list → fits α list.length := by
  cases change with
  | detach => exact fit.lists name
  | assign source => exact fit.lists source
  | duplicate source =>
      intro list found
      obtain rfl := Option.some.inj found
      exact fit.source had
  | store source =>
      intro list found
      obtain rfl := Option.some.inj found
      exact fit.source had
  | resize size =>
      refine fit.request name rfl fun list found => ?_
      obtain rfl := Option.some.inj found
      simp
  | tryResize size =>
      refine fit.request name rfl fun list found => ?_
      obtain rfl := Option.some.inj found
      simp
  | truncate size => exact fit.map name fun own => List.length_take_le' size own
  | fill value size? =>
      cases size? with
      | none => exact fit.map name fun own => Nat.le_of_eq (List.length_map _)
      | some size =>
          refine fit.request name rfl fun list found => ?_
          obtain rfl := Option.some.inj found
          exact List.length_replicate
  | setAt i value => exact fit.map name fun own => Nat.le_of_eq List.length_set
  | overwrite cells =>
      refine fit.map name fun own => ?_
      rw [List.length_append, List.length_take, List.length_drop]
      omega
  | reverse => exact fit.map name fun own => Nat.le_of_eq List.length_reverse

theorem Fits.apply (fit : p.Fits) {edit : Edit α} (had : edit.Fits) : (p.apply edit).Fits := by
  cases edit with
  | create name list? =>
      cases list? with
      | none => exact fit.null name
      | some cells =>
          refine fit.put name fun list same => ?_
          obtain rfl := Option.some.inj same
          exact had
  | ofSize name size =>
      refine fit.put name fun list made => ?_
      by_cases fine : fits α size
      · obtain rfl : List.replicate size Storable.zero = list := by simpa [fine] using made
        rwa [List.length_replicate]
      · simp [fine] at made
  | copy name source => exact fit.put name (fit.lists source)
  | deepCopy name source => exact fit.put name (fit.lists source)
  | drop name => exact fit.null name
  | change name change => exact fit.put name (fit.result name had)
  | memory name cells =>
      refine { fit with memories := fun other memory found => ?_ }
      by_cases same : other = name
      · subst same
        rw [Private.apply, memories_addMemory_self] at found
        exact Option.some.inj found ▸ had
      · rw [Private.apply, memories_addMemory_of_ne p same] at found
        exact fit.memories other memory found
  | view view region =>
      rw [Private.apply]
      split
      · exact fit
      case h_2 seen found =>
        refine fit.look view fun _ same => ?_
        exact Option.some.inj same ▸ fit.region found
  | setRaw name view region =>
      rw [Private.apply]
      split
      · exact fit
      case h_2 seen found =>
        refine (fit.null name).look view fun _ same => ?_
        exact Option.some.inj same ▸ fit.region found
  | resetRaw view name region =>
      rw [Private.apply]
      split
      · exact fit
      · split
        · exact (fit.null name).look view fun _ gone => absurd gone (by simp)
        · exact fit
  | ofView name view =>
      rw [Private.apply]
      split
      · exact fit
      case h_2 seen found =>
        refine fit.put name fun _ same => ?_
        exact Option.some.inj same ▸ fit.views view seen found

theorem Fits.run (fit : p.Fits) {edits : List (Edit α)} (had : ∀ edit ∈ edits, edit.Fits) :
    (p.run edits).Fits := by
  induction edits generalizing p with
  | nil => exact fit
  | cons edit rest ih =>
      obtain ⟨first, later⟩ := List.forall_mem_cons.1 had
      exact ih (fit.apply first) later

end Private

end Bytewise.Shared
