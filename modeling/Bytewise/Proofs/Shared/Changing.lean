/-
# Bytewise.Proofs.Shared.Changing -- what a change comes to

A change of the array under a name either works or fails, and says so in its
reply.  `Change.done` is the list that a change that works makes of the list
there was, and is where the operations are described; how blocks are shared does
not enter.

* `Counted.settles`: a change that works makes that list and leaves the name
  alone with its block;
* `Counted.applyChange_of_failed`: one that fails leaves everything as it was;
* `Counted.rests`: a change with nothing to do (`Change.Idle`) leaves every
  handle and every block where it is;
* `Counted.changes`: so any change is one of a single name, whether it works or not;
* `failed_iff`: where the cells there are fit into memory, a change fails just
  for asking for more than fits (`Change.request?`).
-/
import Bytewise.Shared.Arrays
import Bytewise.Proofs.Shared.Naming

namespace Bytewise.Shared

set_option autoImplicit false

variable {α : Type}

namespace Arrays

/-- Does the reply say that the operation failed? -/
def Reply.failed : Reply → Bool
  | .nothing | .resized => false
  | .flag done => !done
  | .allocationFailed _ | .otherMemory => true

/-- The cells of a source, where `lists` are the arrays. -/
def Source.list (lists : String → Option (List α)) : Source α → List α
  | .cells given => given
  | .array name => (lists name).getD []

/-- The list that a change that works makes of the list `own?`; nothing stands for null. -/
def Change.done [Storable α] (lists : String → Option (List α)) (own? : Option (List α)) :
    Change α → Option (List α)
  | .detach => own?
  | .assign source => lists source
  | .duplicate source | .store source => some (source.list lists)
  | .resize size | .tryResize size =>
    some ((own?.getD [] ++ List.replicate size Storable.zero).take size)
  | .truncate size => own?.map fun own => own.take size
  | .fill value none => own?.map fun own => own.map fun _ => value
  | .fill value (some size) => some (List.replicate size value)
  | .setAt i value => own?.map fun own => own.set i value
  | .overwrite cells => own?.map fun own => cells.take own.length ++ own.drop cells.length
  | .reverse => own?.map List.reverse

/-- The change has nothing to do: there are no cells to write to, or none to cut off. -/
def Change.Idle (own? : Option (List α)) : Change α → Prop
  | .detach | .fill _ none | .overwrite _ | .reverse => own? = none
  | .truncate size => (own?.getD []).length ≤ size
  | .setAt i _ => (own?.getD []).length ≤ i
  | _ => False

/-- The size for which a change asks for memory. -/
def Change.request? : Change α → Option Nat
  | .resize size | .tryResize size | .fill _ (some size) => some size
  | _ => none

theorem Change.done_of_idle [Storable α] (lists : String → Option (List α)) {own? : Option (List α)}
    {change : Change α} (idle : change.Idle own?) : change.done lists own? = own? := by
  cases change with
  | detach => rfl
  | truncate size =>
      cases own? with
      | none => rfl
      | some own => exact congrArg some (List.take_of_length_le idle)
  | fill value size? =>
      cases size? with
      | none => exact idle ▸ rfl
      | some size => exact idle.elim
  | setAt i value =>
      cases own? with
      | none => rfl
      | some own => exact congrArg some (List.set_eq_of_length_le idle)
  | overwrite cells => exact idle ▸ rfl
  | reverse => exact idle ▸ rfl
  | _ => exact idle.elim

end Arrays

namespace Holdings

open Arrays (Reply Source Change applyChange)

variable {s : Holdings α} {extra : List Handle} {name : String} {contents? : Option (List α)}

/-! ## Working and failing -/

/-- What an operation that may fail comes to: all of a change of one name, or nothing. -/
structure Settles (s : Holdings α) (extra : List Handle) (name : String)
    (contents? : Option (List α)) (r : Holdings α × Reply × List Warning) : Prop where
  failed : r.2.1.failed = true → r.1 = s
  worked : r.2.1.failed = false → s.Writes extra name contents? r.1

theorem Writes.settles {t : Holdings α} (writes : s.Writes extra name contents? t) {reply : Reply}
    (worked : reply.failed = false) (warnings : List Warning) :
    s.Settles extra name contents? (t, reply, warnings) :=
  ⟨fun failed => absurd (failed.symm.trans worked) (by decide), fun _ => writes⟩

theorem settles_failed {reply : Reply} (failed : reply.failed = true) (warnings : List Warning) :
    s.Settles extra name contents? (s, reply, warnings) :=
  ⟨fun _ => rfl, fun worked => absurd (failed.symm.trans worked) (by decide)⟩

theorem failed_attempt (s : Holdings α) (name : String) (made? : Option (Heap α × Handle))
    (warning : Warning) :
    (Arrays.attempt s name made? warning).2.1.failed = true ↔ made? = none := by
  cases made? <;> simp [Arrays.attempt, Reply.failed]

theorem attempt_of_failed {made? : Option (Heap α × Handle)} {warning : Warning}
    (failed : (Arrays.attempt s name made? warning).2.1.failed = true) :
    (Arrays.attempt s name made? warning).1 = s := by
  rw [(failed_attempt s name made? warning).1 failed]
  rfl

theorem Counted.attempt (counted : s.Counted extra) {made? : Option (Heap α × Handle)}
    (warning : Warning)
    (writes : ∀ made, made? = some made →
      s.heap.Writes (extra ++ s.others name) made contents?) :
    s.Settles extra name contents? (Arrays.attempt s name made? warning) := by
  cases made? with
  | none => exact settles_failed rfl [warning]
  | some made => exact (counted.writes_update (writes made rfl)).settles rfl []

theorem failed_withSource {source : Source α} {P : Prop}
    {op : Holdings α → List α → Holdings α × Reply × List Warning}
    (failed : ∀ t, (op t (source.list s.contents?)).2.1.failed = true ↔ P) :
    (Arrays.withSource s source op).2.1.failed = true ↔ P := by
  cases source with
  | cells cells => exact failed s
  | array source =>
      rw [Source.list, ← cells_eq] at failed
      exact failed { s with heap := s.heap.retain (s.handle source) }

/-- Holding the source of an operation while it runs changes nothing about what it comes to. -/
theorem Counted.withSource (counted : s.Counted []) (source : Source α)
    {op : Holdings α → List α → Holdings α × Reply × List Warning}
    (settles : ∀ (t : Holdings α) (extra : List Handle) (cells : List α), t.Counted extra →
      t.Settles extra name (some cells) (op t cells)) :
    s.Settles [] name (some (source.list s.contents?)) (Arrays.withSource s source op) := by
  cases source with
  | cells cells => exact settles s [] cells counted
  | array source =>
      let held := s.handle source
      let t : Holdings α := { s with heap := s.heap.retain held }
      have retained : t.Counted [held] :=
        ⟨counted.distinct, counted.counted.retain (handle_mem_values s source)⟩
      have inner := settles t [held] (s.cells source) retained
      rw [Source.list, ← cells_eq]
      constructor
      case failed =>
        intro failed
        have live : ∀ i, held = some i → 0 < s.heap.refs held := by
          intro i same
          rw [same]
          exact counted.live same
        show ({ (op t (s.cells source)).1 with
          heap := (op t (s.cells source)).1.heap.release held } : Holdings α) = s
        rw [inner.failed failed]
        show (⟨(s.heap.retain held).release held, s.handles⟩ : Holdings α) = s
        rw [Heap.release_retain live]
      case worked =>
        intro worked
        have writes := inner.worked worked
        exact {
          counted := writes.counted.release
          shows := (writes.counted.contents?_release name).trans writes.shows
          handle_eq := writes.handle_eq
          frame := fun other ne =>
            ((writes.counted.contents?_release other).trans (writes.frame other ne)).trans
              (Heap.contents?_retain s.heap held (s.handle other))
          alone := fun i _ => List.not_mem_nil
          alone_named := writes.alone_named }

/-! ## Nothing to do -/

/-- Every name has the handle that it had, in the same heap. -/
structure Rests (s t : Holdings α) : Prop where
  counted : t.Counted []
  heap_eq : t.heap = s.heap
  handle_eq : ∀ other, t.handle other = s.handle other

theorem Rests.changes {t : Holdings α} (rests : s.Rests t) (name : String) :
    s.Changes [] name (s.contents? name) t :=
  have same : ∀ other, t.contents? other = s.contents? other := fun other => by
    rw [Holdings.contents?, rests.heap_eq, rests.handle_eq, Holdings.contents?]
  { counted := rests.counted
    shows := same name
    handle_eq := fun other _ => rests.handle_eq other
    frame := fun other _ => same other }

theorem Counted.rests_self (counted : s.Counted []) : s.Rests s := ⟨counted, rfl, fun _ => rfl⟩

theorem Counted.rests_update (counted : s.Counted []) (name : String) :
    s.Rests (s.update name (s.heap, s.handle name)) where
  counted := (counted.update (counted.focus name).shows_self).counted
  heap_eq := rfl
  handle_eq := by
    intro other
    by_cases same : other = name
    · rw [same, handle_update_self]
    · exact handle_update_of_ne same

/-- An operation that leaves a null handle null has nothing to do on one. -/
theorem Counted.rests_run (counted : s.Counted []) (null : s.contents? name = none)
    {op : Heap α → Handle → Heap α × Handle} (idle : op s.heap none = (s.heap, none)) :
    s.Rests (s.run name op) := by
  have rests := counted.rests_update name
  rw [contents?_eq_none_iff] at null
  rw [Holdings.run, null, idle]
  rwa [null] at rests

theorem Counted.rests_modify (counted : s.Counted []) (null : s.contents? name = none)
    (f : List α → List α) : s.Rests (s.run name fun h x => h.modify x f) :=
  counted.rests_run null rfl

/-! ## Changes -/

theorem idle_truncate_iff {size : Nat} :
    (Change.truncate size).Idle (s.contents? name) ↔ (s.cells name).length ≤ size := by
  rw [cells_eq]
  exact Iff.rfl

theorem idle_setAt_iff {i : Nat} {value : α} :
    (Change.setAt i value).Idle (s.contents? name) ↔ (s.cells name).length ≤ i := by
  rw [cells_eq]
  exact Iff.rfl

variable [Storable α]

theorem resized_eq (cells : List α) (size : Nat) :
    resized cells size = (cells ++ List.replicate size Storable.zero).take size := by
  rw [resized, List.take_append, List.take_replicate, Nat.min_eq_left (Nat.sub_le _ _)]

/-- A change with something to do that works makes its list, and the name ends alone. -/
theorem Counted.settles (counted : s.Counted []) {change : Change α}
    (writing : ∀ source, change ≠ .assign source) (busy : ¬ change.Idle (s.contents? name)) :
    s.Settles [] name (change.done s.contents? (s.contents? name)) (applyChange s name change) := by
  have focus := counted.focus name
  cases change with
  | detach => exact (counted.run fun held => held.detach).settles rfl []
  | assign source => exact absurd rfl (writing source)
  | duplicate source =>
      rw [applyChange]
      refine counted.withSource source fun t extra cells held => ?_
      exact (held.run fun inside => inside.duplicate cells).settles rfl []
  | store source =>
      rw [applyChange]
      refine counted.withSource source fun t extra cells held => ?_
      exact held.attempt _ fun made done => (held.focus name).store? done
  | resize size =>
      refine counted.attempt _ fun made done => ?_
      rw [Change.done, ← resized_eq, ← cells_eq]
      exact focus.resize? done
  | tryResize size =>
      rw [applyChange]
      split
      case h_1 made done =>
        rw [Change.done, ← resized_eq, ← cells_eq]
        exact (counted.writes_update (focus.resize? done)).settles rfl []
      case h_2 => exact settles_failed rfl []
  | truncate size =>
      have less := Nat.lt_of_not_le (mt idle_truncate_iff.2 busy)
      exact counted.attempt _ fun made done => focus.truncate? less done
  | fill value size? =>
      cases size? with
      | none =>
          rw [applyChange]
          refine counted.attempt _ fun made done => ?_
          obtain rfl := Option.some.inj done
          exact focus.modify _
      | some size => exact counted.attempt _ fun made done => focus.fill? value done
  | setAt i value => exact counted.attempt _ fun made done => focus.setAt? done
  | overwrite cells => exact (counted.run fun held => held.modify _).settles rfl []
  | reverse => exact (counted.run fun held => held.modify _).settles rfl []

/-- A change that fails leaves everything as it was: one that held its source has let go of it. -/
theorem Counted.applyChange_of_failed (counted : s.Counted []) {change : Change α}
    (failed : (applyChange s name change).2.1.failed = true) :
    (applyChange s name change).1 = s := by
  cases change with
  | detach => exact absurd failed Bool.false_ne_true
  | assign source => exact absurd failed Bool.false_ne_true
  | duplicate source => exact (counted.settles (by simp) id).failed failed
  | store source => exact (counted.settles (by simp) id).failed failed
  | resize size => exact attempt_of_failed failed
  | tryResize size =>
      revert failed
      rw [applyChange]
      split
      · exact fun failed => absurd failed Bool.false_ne_true
      · exact fun _ => rfl
  | truncate size => exact attempt_of_failed failed
  | fill value size? => exact attempt_of_failed failed
  | setAt i value => exact attempt_of_failed failed
  | overwrite cells => exact absurd failed Bool.false_ne_true
  | reverse => exact absurd failed Bool.false_ne_true

theorem Counted.rests (counted : s.Counted []) {change : Change α}
    (idle : change.Idle (s.contents? name)) : s.Rests (applyChange s name change).1 := by
  cases change with
  | detach =>
      refine counted.rests_run idle ?_
      rfl
  | truncate size =>
      rw [applyChange, Heap.truncate?_of_le (idle_truncate_iff.1 idle)]
      exact counted.rests_update name
  | fill value size? =>
      cases size? with
      | none =>
          exact counted.rests_modify idle fun cells => cells.map fun _ => value
      | some size => exact idle.elim
  | setAt i value =>
      rw [applyChange, Heap.setAt?_of_le (idle_setAt_iff.1 idle)]
      exact counted.rests_self
  | overwrite cells =>
      exact counted.rests_modify idle fun old => cells.take old.length ++ old.drop cells.length
  | reverse => exact counted.rests_modify idle List.reverse
  | _ => exact idle.elim

/-- Whatever becomes of a change, it is a change of one name alone. -/
theorem Counted.changes (counted : s.Counted []) (name : String) (change : Change α) :
    s.Changes [] name
      (if (applyChange s name change).2.1.failed then s.contents? name
        else change.done s.contents? (s.contents? name))
      (applyChange s name change).1 := by
  by_cases failed : (applyChange s name change).2.1.failed = true
  · rw [if_pos failed, counted.applyChange_of_failed failed]
    exact counted.rests_self.changes name
  rw [if_neg failed]
  by_cases assigning : ∃ source, change = .assign source
  · obtain ⟨source, rfl⟩ := assigning
    exact counted.bind_share name source
  by_cases idle : change.Idle (s.contents? name)
  · rw [Change.done_of_idle _ idle]
    exact (counted.rests idle).changes name
  have settles := counted.settles (fun source same => assigning ⟨source, same⟩) idle
  exact (settles.worked (Bool.eq_false_iff.2 failed)).toChanges

/-- Where the cells of the array and of its source fit into memory, a change with something to do
fails just for asking for more than fits. -/
theorem failed_iff {change : Change α} (busy : ¬ change.Idle (s.contents? name))
    (fit : fits α (s.cells name).length)
    (fitSource : ∀ source, change = .store source → fits α (source.list s.contents?).length) :
    (applyChange s name change).2.1.failed = true ↔
      ∃ size, change.request? = some size ∧ ¬ fits α size := by
  have resize (size : Nat) : s.heap.resize? (s.handle name) size = none ↔
      ∃ asked, some size = some asked ∧ ¬ fits α asked := by
    rw [Heap.resize?_eq_none_iff fit]
    simp
  cases change with
  | detach => simp [applyChange, Reply.failed, Change.request?]
  | assign source => simp [applyChange, Reply.failed, Change.request?]
  | duplicate source =>
      rw [applyChange]
      refine failed_withSource fun t => ?_
      simp [Reply.failed, Change.request?]
  | store source =>
      rw [applyChange]
      refine failed_withSource fun t => ?_
      have had := Heap.resize?_ne_none (h := t.heap) (t.handle name) (fitSource source rfl)
      rw [failed_attempt, Heap.store?, Option.map_eq_none_iff]
      simp [had, Change.request?]
  | resize size => exact (failed_attempt _ _ _ _).trans (resize size)
  | tryResize size =>
      refine Iff.trans ?_ (resize size)
      rw [applyChange]
      split <;> simp [Reply.failed, *]
  | truncate size =>
      have less := Nat.lt_of_not_le (mt idle_truncate_iff.2 busy)
      have had : fits α size := fits_of_le fit (Nat.le_of_lt less)
      rw [applyChange, failed_attempt, Heap.truncate?_of_lt less]
      simp [Heap.resize?_ne_none (s.handle name) had, Change.request?]
  | fill value size? =>
      cases size? with
      | none => simp [applyChange, Arrays.attempt, Heap.fill?, Reply.failed, Change.request?]
      | some size =>
          rw [applyChange, failed_attempt, Heap.fill?, Option.map_eq_none_iff]
          exact resize size
  | setAt i value =>
      have inside := Nat.lt_of_not_le (mt idle_setAt_iff.2 busy)
      rw [applyChange, failed_attempt, Heap.setAt?_of_lt inside]
      simp [Change.request?]
  | overwrite cells => simp [applyChange, Reply.failed, Change.request?]
  | reverse => simp [applyChange, Reply.failed, Change.request?]

end Holdings

end Bytewise.Shared
