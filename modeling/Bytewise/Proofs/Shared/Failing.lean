/-
# Bytewise.Proofs.Shared.Failing -- an edit that fails changes nothing

Some changes can fail: those that ask for more memory than there is, on whichever
way they would have come by it, and setting a cell that is not there
(`Change.Fails`).  Where all cells fit into memory nothing else fails, so what a
change replies is known beforehand (`reply_applyChange`).

An edit whose reply says that it failed leaves all arrays, memories and views as
they were, with the blocks and counts of every handle (`Arrays.apply_of_failed`).
-/
import Bytewise.Proofs.Shared.Agreement

namespace Bytewise.Shared

set_option autoImplicit false

open Arrays (Source Change Edit Region Reply applyChange)

variable {α : Type}

/-! ## Replies -/

namespace Arrays

/-- What a change replies, by whether it failed. -/
def Change.replies (failed : Bool) : Change α → Reply
  | .detach | .assign _ | .overwrite _ | .reverse => .nothing
  | .tryResize size => if failed then .allocationFailed size else .resized
  | .duplicate _ | .store _ | .resize _ | .truncate _ | .fill _ _ | .setAt _ _ => .flag !failed

variable [Storable α]

/-- The change asks for more memory than there is, or for a cell that is not there, where the array
has `length` cells. -/
def Change.Fails (length : Nat) : Change α → Prop
  | .resize size | .tryResize size | .fill _ (some size) => ¬ fits α size
  | .setAt i _ => length ≤ i
  | _ => False

instance (length : Nat) : (change : Change α) → Decidable (change.Fails length)
  | .resize size | .tryResize size | .fill _ (some size) =>
    inferInstanceAs (Decidable (¬ fits α size))
  | .setAt i _ => inferInstanceAs (Decidable (length ≤ i))
  | .detach | .assign _ | .duplicate _ | .store _ | .truncate _ | .fill _ none | .overwrite _
  | .reverse => inferInstanceAs (Decidable False)

end Arrays

namespace Holdings

variable {s : Holdings α} {name : String}

theorem reply_attempt (s : Holdings α) (name : String) (made? : Option (Heap α × Handle))
    (warning : Warning) :
    (Arrays.attempt s name made? warning).2.1 =
      .flag !(Arrays.attempt s name made? warning).2.1.failed := by
  cases made? <;> rfl

variable [Storable α] {change : Change α}

theorem reply_eq_replies (s : Holdings α) (name : String) (change : Change α) :
    (applyChange s name change).2.1 = change.replies (applyChange s name change).2.1.failed := by
  cases change with
  | detach => rfl
  | assign source => rfl
  | duplicate source => cases source <;> rfl
  | store source => cases source <;> exact reply_attempt _ _ _ _
  | resize size => exact reply_attempt _ _ _ _
  | tryResize size =>
      rw [applyChange]
      split <;> rfl
  | truncate size => exact reply_attempt _ _ _ _
  | fill value size? => exact reply_attempt _ _ _ _
  | setAt i value => exact reply_attempt _ _ _ _
  | overwrite cells => rfl
  | reverse => rfl

theorem failed_iff_of_idle (idle : change.Idle (s.contents? name)) :
    (applyChange s name change).2.1.failed = true ↔ change.Fails (s.cells name).length := by
  cases change with
  | truncate size =>
      rw [applyChange, failed_attempt, Heap.truncate?_of_le (idle_truncate_iff.1 idle)]
      simp [Change.Fails]
  | setAt i value =>
      have outside := idle_setAt_iff.1 idle
      rw [applyChange, failed_attempt, Heap.setAt?_of_le outside]
      exact iff_of_true rfl outside
  | fill value size? =>
      cases size? with
      | none => exact iff_of_false Bool.false_ne_true id
      | some size => exact idle.elim
  | detach => exact iff_of_false Bool.false_ne_true id
  | overwrite cells => exact iff_of_false Bool.false_ne_true id
  | reverse => exact iff_of_false Bool.false_ne_true id
  | _ => exact idle.elim

/-- Where the cells of the array and of its source fit into memory, it is known which changes
fail. -/
theorem failed_iff_fails (fit : fits α (s.cells name).length)
    (fitSource : ∀ source, change = .store source → fits α (source.list s.contents?).length) :
    (applyChange s name change).2.1.failed = true ↔ change.Fails (s.cells name).length := by
  by_cases idle : change.Idle (s.contents? name)
  · exact failed_iff_of_idle idle
  rw [failed_iff idle fit fitSource]
  cases change with
  | setAt i value =>
      have inside : ¬ (s.cells name).length ≤ i := mt idle_setAt_iff.2 idle
      simp [Change.request?, Change.Fails, inside]
  | fill value size? => cases size? <;> simp [Change.request?, Change.Fails]
  | _ => simp [Change.request?, Change.Fails]

theorem reply_applyChange (fit : fits α (s.cells name).length)
    (fitSource : ∀ source, change = .store source → fits α (source.list s.contents?).length) :
    (applyChange s name change).2.1 = change.replies (decide (change.Fails (s.cells name).length)) := by
  have failed : (applyChange s name change).2.1.failed =
      decide (change.Fails (s.cells name).length) := by
    rw [Bool.eq_iff_iff, failed_iff_fails fit fitSource, decide_eq_true_iff]
  rw [reply_eq_replies, failed]

end Holdings

/-! ## Edits -/

namespace Arrays

variable [Storable α] {a : Arrays α}

/-- Only a change, or giving up a view, can fail. -/
theorem reply_apply_eq_nothing (a : Arrays α) {edit : Edit α}
    (noChange : ∀ name change, edit ≠ .change name change)
    (noReset : ∀ view name region, edit ≠ .resetRaw view name region) :
    (a.apply edit).reply = .nothing := by
  cases edit with
  | create name cells? => cases cells? <;> rfl
  | ofSize name size =>
      rw [apply]
      split <;> rfl
  | copy name source => rfl
  | deepCopy name source => rfl
  | drop name => rfl
  | change name change => exact absurd rfl (noChange name change)
  | memory name cells => rfl
  | view view region =>
      rw [apply]
      split <;> rfl
  | setRaw name view region =>
      rw [apply]
      split <;> rfl
  | resetRaw view name region => exact absurd rfl (noReset view name region)
  | ofView name view =>
      rw [apply]
      split <;> rfl

theorem apply_of_failed (counted : a.held.Counted []) {edit : Edit α}
    (failed : (a.apply edit).reply.failed = true) : (a.apply edit).arrays = a := by
  cases edit with
  | change name change => exact congrArg a.withHeld (counted.applyChange_of_failed failed)
  | resetRaw view name region =>
      revert failed
      rw [apply]
      split
      · exact fun _ => rfl
      · split
        · exact fun failed => absurd failed Bool.false_ne_true
        · exact fun _ => rfl
  | _ =>
      rw [reply_apply_eq_nothing a (by simp) (by simp)] at failed
      exact absurd failed Bool.false_ne_true

/-- A view is not given up for a region with another start or another length. -/
theorem reply_resetRaw {view : String} (name : String) {region : Region} {v w : View}
    (seen : a.views.get? view = some v) (given : a.viewOf? region = some w)
    (other : (w.memory, w.lo) ≠ (v.memory, v.lo) ∨
      (a.viewCells w).length ≠ (a.viewCells v).length) :
    (a.apply (.resetRaw view name region)).reply = .otherMemory := by
  have differs : a.viewOf? region ≠ some v := by
    rw [given]
    intro same
    obtain rfl := Option.some.inj same
    exact other.elim (fun start => start rfl) fun length => length rfl
  rw [apply, seen]
  simp only [if_neg differs]

theorem contents?_ofSize (counted : a.held.Counted []) (name : String) (size : Nat) :
    (a.apply (.ofSize name size)).arrays.held.contents? name =
      if fits α size then some (List.replicate size Storable.zero) else none := by
  rw [apply, Heap.ofSize?]
  by_cases had : fits α size
  · rw [if_pos had, if_pos had]
    exact (counted.bind_alloc name _).shows
  · rw [if_neg had, if_neg had]
    exact (counted.bind_null name).shows

end Arrays

/-! ## Runs -/

variable [Storable α]

/-- **Edits that fail change nothing.**  From wherever a run of edits leads, an edit that fails
leaves the arrays just as they were, with their blocks and counts, and the memories and views too.
Resizing and filling to a size fail exactly if the size does not fit into memory, whatever the name
shows and shares; setting a cell fails outside the array, and so does giving up a view with a region
that starts elsewhere or has another length.  An array of a size that does not fit is null, and
cutting off, duplicating and storing never fail. -/
theorem run_failures_change_nothing {edits : List (Edit α)} (fit : ∀ edit ∈ edits, edit.Fits) :
    let a := Arrays.empty.run edits
    (∀ edit, (a.apply edit).reply.failed = true → (a.apply edit).arrays = a) ∧
    (∀ name size,
      (a.apply (.change name (.tryResize size))).reply =
          (if fits α size then .resized else .allocationFailed size) ∧
        (a.apply (.change name (.resize size))).reply = .flag (fits α size) ∧
        ∀ value, (a.apply (.change name (.fill value (some size)))).reply = .flag (fits α size)) ∧
    (∀ name i value, (a.held.cells name).length ≤ i →
      (a.apply (.change name (.setAt i value))).reply = .flag false) ∧
    (∀ view name region v w, a.views.get? view = some v → a.viewOf? region = some w →
      (w.memory, w.lo) ≠ (v.memory, v.lo) ∨ (a.viewCells w).length ≠ (a.viewCells v).length →
      (a.apply (.resetRaw view name region)).reply = .otherMemory) ∧
    (∀ name size, (a.apply (.ofSize name size)).arrays.held.contents? name =
      if fits α size then some (List.replicate size Storable.zero) else none) ∧
    (∀ name size, (a.apply (.change name (.truncate size))).reply = .flag true) ∧
    ∀ name source, Source.Fits source →
      (a.apply (.change name (.duplicate source))).reply = .flag true ∧
        (a.apply (.change name (.store source))).reply = .flag true := by
  intro a
  have agrees : Agrees a (Private.empty.run edits) := agrees_empty.run Private.fits_empty fit
  have fitting : (Private.empty.run edits).Fits := Private.fits_empty.run fit
  have replies : ∀ name change, (Edit.change name change).Fits →
      (a.apply (.change name change)).reply =
        change.replies (decide (change.Fails (a.held.cells name).length)) := by
    intro name change had
    refine Holdings.reply_applyChange (agrees.fits_cells fitting name) ?_
    rintro source rfl
    rw [funext agrees.lists]
    exact fitting.source had
  refine ⟨fun edit failed => Arrays.apply_of_failed agrees.counted failed, ?resizing, ?setAt,
    ?resetRaw, Arrays.contents?_ofSize agrees.counted, ?truncate, ?sources⟩
  case resizing =>
    intro name size
    refine ⟨?tried, ?resized, fun value => ?filled⟩
    case tried =>
      rw [replies name (.tryResize size) trivial]
      by_cases had : fits α size <;> simp [Change.replies, Change.Fails, had]
    case resized =>
      rw [replies name (.resize size) trivial]
      by_cases had : fits α size <;> simp [Change.replies, Change.Fails, had]
    case filled =>
      rw [replies name (.fill value (some size)) trivial]
      by_cases had : fits α size <;> simp [Change.replies, Change.Fails, had]
  case setAt =>
    intro name i value outside
    rw [replies name (.setAt i value) trivial]
    simp [Change.replies, Change.Fails, outside]
  case resetRaw =>
    intro view name region v w seen given other
    exact Arrays.reply_resetRaw name seen given other
  case truncate =>
    intro name size
    exact replies name (.truncate size) trivial
  case sources =>
    intro name source had
    exact ⟨replies name (.duplicate source) had, replies name (.store source) had⟩

/-- Two bytes a cell: `b`, which shares its block with `a`, can be had with one cell less than 2⁶²,
and with one more nothing changes; nor does it where a view is given up for the wrong region. -/
theorem run_failures_change_nothing_shared :
    let edits : List (Edit UInt16) :=
      [.create "a" (some [1, 2]), .copy "b" "a", .memory "m" [7, 8, 9], .view "v" ⟨"m", 0, 2⟩]
    let a := Arrays.empty.run edits
    (∀ edit ∈ edits, edit.Fits) ∧
    (a.apply (.change "b" (.tryResize 0x3fffffffffffffff))).reply = .resized ∧
    (a.apply (.change "b" (.tryResize 0x4000000000000000))).reply =
      .allocationFailed 0x4000000000000000 ∧
    (a.apply (.change "b" (.tryResize 0x4000000000000000))).arrays = a ∧
    (a.apply (.resetRaw "v" "b" ⟨"m", 1, 3⟩)).arrays = a := by
  intro edits a
  have fit : ∀ edit ∈ edits, edit.Fits := by
    simp [edits, Edit.Fits, fits, Storable.width, maxBytes]
  obtain ⟨unchanged, resizing, -, resetRaw, -⟩ := run_failures_change_nothing fit
  have large := (resizing "b" 0x4000000000000000).1
  have start : ((0, 1) : Nat × Nat) ≠ (0, 0) := by decide
  have refused := resetRaw "v" "b" ⟨"m", 1, 3⟩ ⟨0, 0, 2⟩ ⟨0, 1, 3⟩ rfl rfl (.inl start)
  refine ⟨fit, (resizing "b" 0x3fffffffffffffff).1, large, unchanged _ ?_, unchanged _ ?_⟩
  · exact congrArg Reply.failed large
  · exact congrArg Reply.failed refused

end Bytewise.Shared
