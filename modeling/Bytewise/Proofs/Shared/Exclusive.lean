/-
# Bytewise.Proofs.Shared.Exclusive -- counts are exact, and writers end up alone

What a program sees of sharing are the counts: `Holdings.Exact` says that the count
of a name is the number of names whose handle is on the same block, and that only
null handles have the count zero.  It holds after every run of edits
(`run_counts_exact`), and there the edits are said by what they do to handles:

* a copy and an assignment put a name on the block of another, dropping an array
  or giving it up for a view takes a name off its block;
* a change that writes (`Change.Detaches`) leaves the name on a block of its own
  (`Exclusive`): where the block was shared, the others have one less on it;
* a change that fails, or has nothing to do, moves no handle (`Still`).
-/
import Mathlib.Data.Finset.Card
import Bytewise.Proofs.Shared.Changing

namespace Bytewise.Shared

set_option autoImplicit false

open Arrays (Change Edit Region Reply applyChange)

variable {α : Type}

namespace Holdings

variable {s t : Holdings α} {name : String}

/-! ## Names on a block -/

/-- The names of the arrays there are. -/
def names (s : Holdings α) : Finset String := s.handles.names.toFinset

/-- The names that a handle is under. -/
def holders (s : Holdings α) (x : Handle) : Finset String :=
  s.names.filter fun name => s.handle name = x

theorem mem_holders {i : Nat} : name ∈ s.holders (some i) ↔ s.handle name = some i := by
  rw [holders, Finset.mem_filter, names, List.mem_toFinset]
  constructor
  · exact fun both => both.2
  · intro block
    refine ⟨?_, block⟩
    by_contra absent
    rw [handle, (Slots.get?_eq_none_iff s.handles name).2 absent] at block
    exact absurd block (by simp)

/-- The count of a block is the number of the names on it. -/
theorem Counted.refs_eq_card (counted : s.Counted []) (i : Nat) :
    s.heap.refs (some i) = (s.holders (some i)).card := by
  have named : ∀ entry ∈ s.handles, s.handle entry.1 = entry.2 := fun entry mem => by
    rw [handle, counted.distinct.get?_of_mem mem, Option.getD_some]
  have listed : s.holders (some i) =
      (s.handles.names.filter fun name => s.handle name = some i).toFinset := by
    rw [holders, names]
    ext name
    simp
  calc s.heap.refs (some i)
      = s.handles.values.count (some i) := counted.counted i
    _ = s.handles.countP fun entry => entry.2 == some i := List.countP_map
    _ = s.handles.countP fun entry => s.handle entry.1 = some i := by
        refine List.countP_congr fun entry mem => ?_
        rw [named entry mem, beq_iff_eq, decide_eq_true_eq]
    _ = s.handles.names.countP fun name => s.handle name = some i := by
        rw [Slots.names, List.countP_map]
        rfl
    _ = (s.holders (some i)).card := by
        rw [listed, List.toFinset_card_of_nodup (counted.distinct.filter _),
          List.countP_eq_length_filter]

/-- The count of a name is zero just for null, and otherwise the number of names on its block. -/
structure Exact (s : Holdings α) : Prop where
  zero_iff : ∀ name, s.refs name = 0 ↔ s.isNull name = true
  refs_eq : ∀ name, s.isNull name = false →
    s.refs name = (s.names.filter fun other => s.handle other = s.handle name).card

theorem Counted.exact (counted : s.Counted []) : s.Exact where
  zero_iff := by
    intro name
    rw [isNull_iff, refs]
    cases block : s.handle name with
    | none => simp
    | some i =>
        have live := counted.live block
        simp [Nat.ne_of_gt live]
  refs_eq := by
    intro name live
    cases block : s.handle name with
    | none => exact absurd (isNull_iff.2 block) (by simp [live])
    | some i =>
        rw [refs, block]
        exact counted.refs_eq_card i

/-! ## What becomes of handles and counts -/

theorem handle_bind (s : Holdings α) (name : String) (made : Heap α × Handle) :
    (s.bind name made).handle = Function.update s.handle name made.2 := by
  funext other
  by_cases same : other = name
  · subst same
    rw [Function.update_self]
    exact handle_update_self s other _
  · rw [Function.update_of_ne same]
    exact handle_update_of_ne same

theorem handle_drop (s : Holdings α) (name : String) :
    (s.drop name).handle = Function.update s.handle name none := by
  funext other
  by_cases same : other = name
  · rw [same, handle_drop_self, Function.update_self]
  · rw [handle_drop_of_ne same, Function.update_of_ne same]

/-- One name has come to be alone with its block.  Every other name is where it was, with one name
less on its block if it was there with the one that went. -/
structure Exclusive (s t : Holdings α) (name : String) : Prop where
  refs_eq : t.refs name = 1
  handle_eq : ∀ other, other ≠ name → t.handle other = s.handle other
  lowered : ∀ other, other ≠ name → s.isNull name = false → s.handle other = s.handle name →
    t.refs other + 1 = s.refs other
  kept : ∀ other, other ≠ name → s.isNull name = true ∨ s.handle other ≠ s.handle name →
    t.refs other = s.refs other

/-- No name has another block, another count, or has become null or not null. -/
structure Still (s t : Holdings α) : Prop where
  handle_eq : ∀ name, t.handle name = s.handle name
  refs_eq : ∀ name, t.refs name = s.refs name
  isNull_eq : ∀ name, t.isNull name = s.isNull name

theorem Rests.still (rests : s.Rests t) : s.Still t where
  handle_eq := rests.handle_eq
  refs_eq := fun name => by rw [refs, refs, rests.heap_eq, rests.handle_eq]
  isNull_eq := fun name => by rw [isNull, isNull, rests.handle_eq]

/-- A name that was alone, and is so with the same block, has moved nothing. -/
theorem Exclusive.still (exclusive : s.Exclusive t name) (one : s.refs name = 1)
    (same : t.handle name = s.handle name) : s.Still t := by
  have handles : ∀ other, t.handle other = s.handle other := fun other => by
    by_cases this : other = name
    · rw [this, same]
    · exact exclusive.handle_eq other this
  refine ⟨handles, fun other => ?_, fun other => by rw [isNull, isNull, handles]⟩
  by_cases this : other = name
  · rw [this, exclusive.refs_eq, one]
  by_cases apart : s.isNull name = true ∨ s.handle other ≠ s.handle name
  · exact exclusive.kept other this apart
  -- a name on the same block has the same count, which is 1 before and after
  · rw [not_or, Bool.not_eq_true, not_not] at apart
    have before : s.refs other = 1 := by rw [refs, apart.2, ← refs, one]
    have after : t.refs other = 1 := by
      rw [refs, handles, apart.2, ← same, ← refs, exclusive.refs_eq]
    rw [before, after]

/-- A name that is alone with another block is no longer counted on the blocks of the others. -/
theorem Writes.holders_eq {contents? : Option (List α)} (writes : s.Writes [] name contents? t)
    {i j : Nat} (block : t.handle name = some i) (ne : i ≠ j) :
    t.holders (some j) = (s.holders (some j)).erase name := by
  ext other
  rw [Finset.mem_erase, mem_holders, mem_holders]
  by_cases same : other = name
  · simp [same, block, ne]
  · rw [writes.handle_eq other same]
    simp [same]

theorem Writes.exclusive {cells : List α} (counted : s.Counted [])
    (writes : s.Writes [] name (some cells) t) : s.Exclusive t name := by
  obtain ⟨i, block, -⟩ := Option.map_eq_some_iff.1 writes.shows
  have single : t.holders (some i) = {name} := by
    ext other
    rw [mem_holders, Finset.mem_singleton]
    constructor
    · intro found
      by_contra ne
      exact writes.alone_named i block other ne found
    · rintro rfl
      exact block
  -- what is counted on the block of another name, before and after
  have counts : ∀ other, other ≠ name → ∀ j, s.handle other = some j →
      s.refs other = (s.holders (some j)).card ∧
        t.refs other = ((s.holders (some j)).erase name).card := by
    intro other ne j found
    have stays : t.handle other = some j := (writes.handle_eq other ne).trans found
    have apart : i ≠ j := fun same => writes.alone_named i block other ne (same ▸ stays)
    rw [refs, refs, found, stays, counted.refs_eq_card, writes.counted.refs_eq_card,
      writes.holders_eq block apart]
    exact ⟨rfl, rfl⟩
  constructor
  case refs_eq =>
    rw [refs, block, writes.counted.refs_eq_card, single, Finset.card_singleton]
  case handle_eq => exact writes.handle_eq
  case lowered =>
    intro other ne live shared
    obtain ⟨j, found⟩ : ∃ j, s.handle other = some j := by
      refine Option.ne_none_iff_exists'.1 fun null => ?_
      rw [← Bool.not_eq_true, isNull_iff, ← shared] at live
      exact live null
    obtain ⟨before, after⟩ := counts other ne j found
    rw [before, after]
    exact Finset.card_erase_add_one (mem_holders.2 (shared.symm.trans found))
  case kept =>
    intro other ne apart
    cases found : s.handle other with
    | none =>
        have stays := (writes.handle_eq other ne).trans found
        rw [refs, refs, found, stays, Heap.refs_none, Heap.refs_none]
    | some j =>
        have absent : name ∉ s.holders (some j) := by
          rw [mem_holders]
          intro joined
          rcases apart with null | other
          · rw [isNull_iff, joined] at null
            exact absurd null (by simp)
          · exact other (found.trans joined.symm)
        obtain ⟨before, after⟩ := counts other ne j found
        rw [before, after, Finset.erase_eq_of_notMem absent]

end Holdings

/-! ## Changes that write -/

namespace Arrays

variable [Storable α]

/-- The change writes to cells or gives the array others: there are cells to write to or to cut
off, or the reply says that memory could be had.  (A length that is cut off to fits, if the array
does.) -/
def Change.Detaches (own? : Option (List α)) (reply : Reply) : Change α → Prop
  | .detach | .fill _ none | .overwrite _ | .reverse => own? ≠ none
  | .truncate size => size < (own?.getD []).length ∧ fits α size
  | .setAt i _ => i < (own?.getD []).length
  | .resize _ | .duplicate _ | .store _ | .fill _ (some _) => reply = .flag true
  | .tryResize _ => reply = .resized
  | .assign _ => False

variable {own? : Option (List α)} {reply : Reply} {change : Change α}

theorem Change.Detaches.busy (detaches : change.Detaches own? reply) : ¬ change.Idle own? := by
  intro idle
  cases change with
  | fill value size? =>
      cases size? with
      | none => exact detaches idle
      | some size => exact idle
  | truncate size => exact Nat.not_lt.2 idle detaches.1
  | setAt i value => exact Nat.not_lt.2 idle detaches
  | detach => exact detaches idle
  | overwrite cells => exact detaches idle
  | reverse => exact detaches idle
  | _ => exact idle

/-- A change with something to do makes a list, unless it assigns null. -/
theorem Change.done_ne_none (lists : String → Option (List α))
    (writing : ∀ source, change ≠ .assign source) (busy : ¬ change.Idle own?) :
    change.done lists own? ≠ none := by
  cases own? with
  | some own =>
      cases change with
      | assign source => exact absurd rfl (writing source)
      | fill value size? => cases size? <;> simp [Change.done]
      | _ => simp [Change.done]
  | none =>
      cases change with
      | assign source => exact absurd rfl (writing source)
      | truncate size => exact absurd (Nat.zero_le size) busy
      | setAt i value => exact absurd (Nat.zero_le i) busy
      | fill value size? =>
          cases size? with
          | none => exact absurd rfl busy
          | some size => simp [Change.done]
      | detach => exact absurd rfl busy
      | overwrite cells => exact absurd rfl busy
      | reverse => exact absurd rfl busy
      | _ => simp [Change.done]

end Arrays

namespace Holdings

variable [Storable α] {s : Holdings α} {name : String} {change : Change α}

theorem worked_of_detaches
    (detaches : change.Detaches (s.contents? name) (applyChange s name change).2.1) :
    (applyChange s name change).2.1.failed = false := by
  cases change with
  | detach => rfl
  | assign source => exact detaches.elim
  | duplicate source => exact congrArg Reply.failed detaches
  | store source => exact congrArg Reply.failed detaches
  | resize size => exact congrArg Reply.failed detaches
  | tryResize size => exact congrArg Reply.failed detaches
  | truncate size =>
      have less := Nat.lt_of_not_le (mt idle_truncate_iff.2 detaches.busy)
      refine Bool.eq_false_iff.2 fun failed => ?_
      have lacking := (failed_attempt s name _ _).1 failed
      rw [Heap.truncate?_of_lt less] at lacking
      exact Heap.resize?_ne_none _ detaches.2 lacking
  | fill value size? =>
      cases size? with
      | none => rfl
      | some size => exact congrArg Reply.failed detaches
  | setAt i value =>
      have inside := Nat.lt_of_not_le (mt idle_setAt_iff.2 detaches.busy)
      refine Bool.eq_false_iff.2 fun failed => ?_
      have outside := (failed_attempt s name _ _).1 failed
      rw [Heap.setAt?_of_lt inside] at outside
      exact absurd outside (by simp)
  | overwrite cells => rfl
  | reverse => rfl

theorem Counted.exclusive (counted : s.Counted [])
    (detaches : change.Detaches (s.contents? name) (applyChange s name change).2.1) :
    s.Exclusive (applyChange s name change).1 name := by
  have writing : ∀ source, change ≠ .assign source := by
    rintro source rfl
    exact detaches
  have settles := counted.settles writing detaches.busy
  have writes := settles.worked (worked_of_detaches detaches)
  obtain ⟨cells, made⟩ := Option.ne_none_iff_exists'.1
    (Change.done_ne_none s.contents? writing detaches.busy)
  rw [made] at writes
  exact writes.exclusive counted

theorem Counted.still (counted : s.Counted [])
    (nothing : change.Idle (s.contents? name) ∨ (applyChange s name change).2.1.failed = true) :
    s.Still (applyChange s name change).1 := by
  by_cases idle : change.Idle (s.contents? name)
  · exact (counted.rests idle).still
  rw [counted.applyChange_of_failed (nothing.resolve_left idle)]
  exact counted.rests_self.still

end Holdings

/-! ## Runs -/

namespace Arrays

variable [Storable α]

/-- Every edit keeps the counts of the handles there are. -/
theorem counted_apply {a : Arrays α} (counted : a.held.Counted []) (edit : Edit α) :
    (a.apply edit).arrays.held.Counted [] := by
  cases edit with
  | create name cells? =>
      cases cells? with
      | none => exact (counted.bind_null name).counted
      | some cells => exact (counted.bind_alloc name cells).counted
  | ofSize name size =>
      rw [apply, Heap.ofSize?]
      by_cases had : fits α size
      · rw [if_pos had]
        exact (counted.bind_alloc name _).counted
      · rw [if_neg had]
        exact (counted.bind_null name).counted
  | copy name source => exact (counted.bind_share name source).counted
  | deepCopy name source =>
      rw [apply]
      split
      · exact (counted.bind_null name).counted
      · exact (counted.bind_alloc name _).counted
  | drop name => exact (counted.drop name).counted
  | change name change => exact (counted.changes name change).counted
  | memory name cells => exact counted
  | view view region =>
      rw [apply]
      split
      · exact counted
      · exact counted
  | setRaw name view region =>
      rw [apply]
      split
      · exact counted
      · exact (counted.drop name).counted
  | resetRaw view name region =>
      rw [apply]
      split
      · exact counted
      · split
        · exact (counted.bind_null name).counted
        · exact counted
  | ofView name view =>
      rw [apply]
      split
      · exact counted
      · exact (counted.bind_alloc name _).counted

theorem counted_run {a : Arrays α} (counted : a.held.Counted []) (edits : List (Edit α)) :
    (a.run edits).held.Counted [] := by
  induction edits generalizing a with
  | nil => exact counted
  | cons edit rest ih => exact ih (counted_apply counted edit)

end Arrays

/-- **Counts are exact, and writers end up exclusive.**  After any run of edits, the count of a name
is zero just if it is null, and otherwise the number of names on its block.  From there, a copy or
an assignment moves one handle onto the block of another name; dropping an array, or giving it up
for a view, takes one off; a change that writes leaves its name alone, with one name less for those
it shared its block with; and a change that fails or has nothing to do moves no handle. -/
theorem run_counts_exact [Storable α] (edits : List (Edit α)) :
    let a := Arrays.empty.run edits
    a.held.Exact ∧
    (∀ name source, (a.apply (.copy name source)).arrays.held.handle =
      Function.update a.held.handle name (a.held.handle source)) ∧
    (∀ name source, (a.apply (.change name (.assign source))).arrays.held.handle =
      Function.update a.held.handle name (a.held.handle source)) ∧
    (∀ name, (a.apply (.drop name)).arrays.held.handle =
      Function.update a.held.handle name none) ∧
    (∀ name view region, (a.viewOf? region).isSome = true →
      (a.apply (.setRaw name view region)).arrays.held.handle =
        Function.update a.held.handle name none) ∧
    (∀ name change,
      change.Detaches (a.held.contents? name) (a.apply (.change name change)).reply →
        a.held.Exclusive (a.apply (.change name change)).arrays.held name) ∧
    (∀ name change,
      change.Idle (a.held.contents? name) ∨
          (a.apply (.change name change)).reply.failed = true →
        a.held.Still (a.apply (.change name change)).arrays.held) := by
  intro a
  have counted : a.held.Counted [] := Arrays.counted_run Holdings.counted_empty edits
  refine ⟨counted.exact, ?copy, ?assign, ?drop, ?setRaw, ?detaches, ?still⟩
  case copy =>
    intro name source
    exact Holdings.handle_bind a.held name _
  case assign =>
    intro name source
    exact Holdings.handle_bind a.held name _
  case drop =>
    intro name
    exact Holdings.handle_drop a.held name
  case setRaw =>
    intro name view region named
    obtain ⟨v, found⟩ := Option.isSome_iff_exists.1 named
    rw [Arrays.apply, found]
    exact Holdings.handle_drop a.held name
  case detaches =>
    intro name change detaches
    exact counted.exclusive detaches
  case still =>
    intro name change nothing
    exact counted.still nothing

/-- Writing to a copy leaves either name alone with a block. -/
example :
    let a : Arrays UInt8 := Arrays.empty.run [.create "a" (some [1, 2]), .copy "b" "a"]
    (a.held.refs "a", a.held.refs "b") = (2, 2) ∧
    let b := (a.apply (.change "b" (.setAt 0 9))).arrays
    (b.held.refs "a", b.held.refs "b") = (1, 1) := by
  decide

end Bytewise.Shared
