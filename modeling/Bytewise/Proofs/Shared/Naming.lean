/-
# Bytewise.Proofs.Shared.Naming -- named handles that are counted

`Holdings.Counted` says that every name stands once and that the heap counts the
handles under names, beside some `extra` ones that are held for a while.  An
operation on the handle under a name changes what that name shows, and leaves the
other names their handles and what they show: `Changes`, or `Writes` where the
name is then alone with its block.

* `Counted.focus` brings the handle under a name to the front of what is counted;
* `Counted.update`, `Counted.run`, `Counted.drop` and the three `Counted.bind_*`
  lift what an operation on the heap promises to the names;
* `Counted.release` lets go of an extra handle.
-/
import Bytewise.Shared.Holdings
import Bytewise.Proofs.Shared.Counting

namespace Bytewise.Shared.Holdings

set_option autoImplicit false

variable {α : Type} {s t : Holdings α} {extra : List Handle} {name : String}
variable {made : Heap α × Handle} {contents? : Option (List α)}

/-- The handles under all names but one. -/
def others (s : Holdings α) (name : String) : List Handle := (s.handles.erase name).values

theorem handle_mem_values (s : Holdings α) (name : String) :
    s.handle name = none ∨ s.handle name ∈ s.handles.values := by
  rw [handle]
  cases found : s.handles.get? name with
  | none => exact .inl rfl
  | some x => exact .inr (Slots.mem_values_of_get? found)

theorem handle_mem_others {s : Holdings α} {name other : String} (ne : other ≠ name) :
    s.handle other = none ∨ s.handle other ∈ s.others name := by
  have same := Slots.get?_erase_of_ne s.handles ne
  rw [handle, ← same]
  exact handle_mem_values ⟨s.heap, s.handles.erase name⟩ other

/-- What is the same for all handles but one is the same under all names but one. -/
theorem contents?_of_others {heap : Heap α} {other : String}
    (frame : ∀ y ∈ extra ++ s.others name, heap.contents? y = s.heap.contents? y)
    (ne : other ≠ name) : heap.contents? (s.handle other) = s.contents? other := by
  rw [Holdings.contents?]
  rcases handle_mem_others ne with null | mem
  · rw [null, Heap.contents?_none, Heap.contents?_none]
  · exact frame _ (List.mem_append_right _ mem)

theorem isNull_iff : s.isNull name = true ↔ s.handle name = none := by
  rw [isNull, Option.isNone_iff_eq_none]

theorem contents?_eq_none_iff : s.contents? name = none ↔ s.handle name = none := by
  rw [Holdings.contents?, Heap.contents?, Option.map_eq_none_iff]

theorem cells_eq (s : Holdings α) (name : String) : s.cells name = (s.contents? name).getD [] :=
  s.heap.cells_eq (s.handle name)

/-! ## Counts -/

/-- Names stand once, and the heap counts the handles under them and the extra ones. -/
structure Counted (s : Holdings α) (extra : List Handle) : Prop where
  distinct : s.handles.Distinct
  counted : s.heap.Counted (extra ++ s.handles.values)

theorem counted_empty : (Holdings.empty : Holdings α).Counted [] where
  distinct := List.nodup_nil
  counted := fun i => by simp [Holdings.empty, Heap.empty, Heap.refs_some, Heap.block?, Slots.values]

theorem Counted.live (counted : s.Counted extra) {i : Nat} (block : s.handle name = some i) :
    0 < s.heap.refs (some i) := by
  refine counted.counted.live (List.mem_append_right _ ?_)
  rw [← block]
  exact (handle_mem_values s name).resolve_left (by simp [block])

/-- The handle under a name, counted beside all others. -/
theorem Counted.focus (counted : s.Counted extra) (name : String) :
    s.heap.Counted (s.handle name :: (extra ++ s.others name)) := by
  refine counted.counted.congr fun i => ?_
  rw [List.count_cons, List.count_append, List.count_append, others, handle]
  cases found : s.handles.get? name with
  | none =>
      rw [Slots.erase_of_get?_eq_none found]
      simp
  | some x =>
      have split := ((counted.distinct.perm_of_get? found).map Prod.snd).count_eq (some i)
      rw [List.map_cons, List.count_cons] at split
      rw [Slots.values, Slots.values, split, Option.getD_some, Nat.add_assoc]

/-- The handle under a name is another one, and counted. -/
theorem Counted.set (counted : s.Counted extra)
    (next : made.1.Counted (made.2 :: (extra ++ s.others name))) :
    (s.update name made).Counted extra where
  distinct := counted.distinct.set name made.2
  counted := by
    refine next.congr fun i => ?_
    have split := ((counted.distinct.set_perm name made.2).map Prod.snd).count_eq (some i)
    rw [List.map_cons, List.count_cons] at split
    rw [List.count_cons, List.count_append, List.count_append, others, update, Slots.values,
      Slots.values, split, Nat.add_assoc]

/-! ## Changes -/

/-- `t` comes of `s` by a change of what one name shows. -/
structure Changes (s : Holdings α) (extra : List Handle) (name : String)
    (contents? : Option (List α)) (t : Holdings α) : Prop where
  counted : t.Counted extra
  shows : t.contents? name = contents?
  handle_eq : ∀ other, other ≠ name → t.handle other = s.handle other
  frame : ∀ other, other ≠ name → t.contents? other = s.contents? other

/-- As `Changes`, and no other handle is on the block of the name. -/
structure Writes (s : Holdings α) (extra : List Handle) (name : String)
    (contents? : Option (List α)) (t : Holdings α) : Prop
    extends Changes s extra name contents? t where
  alone : ∀ i, t.handle name = some i → some i ∉ extra
  alone_named : ∀ i, t.handle name = some i → ∀ other, other ≠ name → t.handle other ≠ some i

theorem handle_update_self (s : Holdings α) (name : String) (made : Heap α × Handle) :
    (s.update name made).handle name = made.2 := by
  rw [handle, update, Slots.get?_set_self, Option.getD_some]

theorem handle_update_of_ne {other : String} (ne : other ≠ name) :
    (s.update name made).handle other = s.handle other := by
  rw [handle, update, Slots.get?_set_of_ne _ _ ne, handle]

theorem Counted.update (counted : s.Counted extra)
    (shows : s.heap.Shows (extra ++ s.others name) made contents?) :
    s.Changes extra name contents? (s.update name made) where
  counted := counted.set shows.counted
  shows := by rw [Holdings.contents?, handle_update_self]; exact shows.shows
  handle_eq := fun _ ne => handle_update_of_ne ne
  frame := by
    intro other ne
    rw [Holdings.contents?, handle_update_of_ne ne]
    exact contents?_of_others shows.frame ne

theorem Counted.writes_update (counted : s.Counted extra)
    (writes : s.heap.Writes (extra ++ s.others name) made contents?) :
    s.Writes extra name contents? (s.update name made) :=
  { counted.update writes.toShows with
    alone := by
      intro i same mem
      rw [handle_update_self] at same
      exact writes.alone i same (List.mem_append_left _ mem)
    alone_named := by
      intro i same other ne found
      rw [handle_update_self] at same
      rw [handle_update_of_ne ne] at found
      have mem : s.handle other ∈ s.others name :=
        (handle_mem_others ne).resolve_left fun null => by simp [null] at found
      exact writes.alone i same (List.mem_append_right _ (found ▸ mem)) }

theorem Counted.bind (counted : s.Counted extra)
    (shows : s.heap.Shows (s.handle name :: (extra ++ s.others name)) made contents?) :
    s.Changes extra name contents? (s.bind name made) :=
  counted.update shows.release

theorem Counted.bind_null (counted : s.Counted extra) (name : String) :
    s.Changes extra name none (s.bind name (s.heap, none)) :=
  counted.bind (counted.focus name).shows_null

theorem Counted.bind_alloc (counted : s.Counted extra) (name : String) (cells : List α) :
    s.Changes extra name (some cells) (s.bind name (s.heap.alloc cells)) :=
  counted.bind ((counted.focus name).writes_alloc cells).toShows

theorem Counted.bind_share (counted : s.Counted extra) (name source : String) :
    s.Changes extra name (s.contents? source) (s.bind name (s.share source)) := by
  refine counted.bind ((counted.focus name).shows_retain ?_)
  by_cases same : source = name
  · exact .inr (same ▸ List.mem_cons_self)
  · exact (handle_mem_others same).imp_right fun mem =>
      List.mem_cons_of_mem _ (List.mem_append_right _ mem)

theorem handle_drop_self (s : Holdings α) (name : String) : (s.drop name).handle name = none := by
  rw [handle, drop, Slots.get?_erase_self, Option.getD_none]

theorem handle_drop_of_ne {other : String} (ne : other ≠ name) :
    (s.drop name).handle other = s.handle other := by
  rw [handle, drop, Slots.get?_erase_of_ne _ ne, handle]

theorem Counted.drop (counted : s.Counted extra) (name : String) :
    s.Changes extra name none (s.drop name) where
  counted := ⟨counted.distinct.erase name, (counted.focus name).release⟩
  shows := by rw [Holdings.contents?, handle_drop_self, Heap.contents?_none]
  handle_eq := fun _ ne => handle_drop_of_ne ne
  frame := by
    intro other ne
    rw [Holdings.contents?, handle_drop_of_ne ne]
    exact contents?_of_others (fun _ mem => (counted.focus name).frame_release mem) ne

theorem Counted.run {op : Heap α → Handle → Heap α × Handle} (counted : s.Counted extra)
    (writes : s.heap.Counted (s.handle name :: (extra ++ s.others name)) →
      s.heap.Writes (extra ++ s.others name) (op s.heap (s.handle name)) contents?) :
    s.Writes extra name contents? (s.run name op) :=
  counted.writes_update (writes (counted.focus name))

/-- An extra handle is let go of. -/
theorem Counted.release {x : Handle} (counted : s.Counted (x :: extra)) :
    ({ s with heap := s.heap.release x } : Holdings α).Counted extra :=
  ⟨counted.distinct, counted.counted.release⟩

theorem Counted.contents?_release {x : Handle} (counted : s.Counted (x :: extra))
    (name : String) :
    ({ s with heap := s.heap.release x } : Holdings α).contents? name = s.contents? name := by
  rcases handle_mem_values s name with null | mem
  · have nothing : s.contents? name = none := contents?_eq_none_iff.2 null
    rw [nothing, contents?_eq_none_iff]
    exact null
  · exact counted.counted.frame_release (List.mem_append_right _ mem)

end Bytewise.Shared.Holdings
