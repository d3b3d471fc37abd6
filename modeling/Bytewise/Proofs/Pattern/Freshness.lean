/-
# Bytewise.Proofs.Pattern.Freshness -- no pattern carries a stale program

A pattern under a name has been made, copied and changed by setters, through
states with a program and states without one.  A pattern could carry any program
and any error beside its text, its flags and its limit; `Settled` says that they
are what these compile to.

* `settled_recompile`: compiling again settles a pattern, whatever it carried
  before, because it writes the program and the error in either case.  One edit
  keeps all patterns of a register settled (`AllSettled.apply`), and so does a run
  (`allSettled_run`);
* `isValid_iff_program`, `isValid_iff_isEmpty`: a settled pattern has a program
  exactly if it has no error;
* `Edit.assigned` keeps books on the `Settings` without compiling anything, except
  that a pattern that is made only if it is valid has to be compiled to know;
* `UpToDate r settings`: every pattern of the register is a new one of its settings.
  One edit keeps this (`UpToDate.apply`), and so does a run (`UpToDate.run`);
* `get?_run_of_ne`: an edit touches no other name, so a copy and its source go
  separate ways;
* `program?_eq_of_sameText`: of the four settings the limit alone may differ
  between patterns that count as the same, and a program does not depend on it.
-/
import Mathlib.Logic.Function.Basic
import Bytewise.Pattern.Register
import Bytewise.Proofs.Pattern.Budget

namespace Bytewise.Pattern

set_option autoImplicit false

open Register (Edit Setter run)

/-! ## Patterns that carry what they compile to -/

/-- The program and the error are what compiling the pattern comes to. -/
structure Settled (p : Pattern) : Prop where
  program?_iff : ∀ program, p.program? = some program ↔ p.outcome = .ok program
  error?_iff : ∀ e, p.error? = some e ↔ p.outcome = .error e

section

variable {p q : Pattern}

/-- Compiling again takes no notice of the program and the error there were. -/
theorem recompile_eq_ofText (p : Pattern) :
    p.recompile = ofText p.text p.caseSensitive p.wildcard p.maxCells := by
  have same : outcome ⟨p.text, p.caseSensitive, p.wildcard, p.maxCells, none, none⟩ = p.outcome :=
    rfl
  rw [ofText, recompile, recompile, same]

theorem settled_recompile (p : Pattern) : p.recompile.Settled := by
  have same : p.recompile.outcome = p.outcome := by
    rw [recompile]
    split <;> rfl
  constructor
  · intro program
    rw [same, recompile]
    split <;> rename_i compiled <;> rw [compiled] <;> simp
  · intro e
    rw [same, recompile]
    split <;> rename_i compiled <;> rw [compiled] <;> simp

theorem settled_ofText (text : String) (caseSensitive wildcard : Bool) (maxCells : Nat) :
    (ofText text caseSensitive wildcard maxCells).Settled := settled_recompile _

theorem settled_setter (p : Pattern) (setter : Setter) : (setter.apply p).Settled := by
  cases setter <;> exact settled_recompile _

theorem isValid_iff_error : p.isValid = true ↔ p.error? = none := Option.isNone_iff_eq_none

/-- A settled pattern is left with a program, or with an error. -/
theorem isValid_iff_program (settled : p.Settled) :
    p.isValid = true ↔ p.program?.isSome = true := by
  rw [isValid_iff_error, Option.isSome_iff_exists]
  simp only [Option.eq_none_iff_forall_ne_some, ne_eq, settled.error?_iff, settled.program?_iff]
  cases p.outcome <;> simp

theorem isValid_iff_isEmpty (settled : p.Settled) : p.isValid = true ↔ p.isEmpty = false := by
  rw [isValid_iff_program settled, isEmpty]
  cases p.program? <;> simp

theorem program?_eq_none (settled : p.Settled) (invalid : p.isValid = false) :
    p.program? = none := by
  have none : ¬ p.program?.isSome = true := fun some => by
    rw [← isValid_iff_program settled, invalid] at some
    cases some
  simpa using none

theorem exists_program (settled : p.Settled) (valid : p.isValid = true) :
    ∃ program, p.outcome = .ok program ∧ p.program? = some program := by
  obtain ⟨program, found⟩ := Option.isSome_iff_exists.1 ((isValid_iff_program settled).1 valid)
  exact ⟨program, (settled.program?_iff program).1 found, found⟩

/-- Two settled patterns with the same text and flags carry the same program, if both carry one. -/
theorem program?_eq_of_sameText (settled : p.Settled) (settled' : q.Settled)
    (same : p.sameText q = true) (valid : p.isValid = true) (valid' : q.isValid = true) :
    p.program? = q.program? := by
  simp only [sameText, Bool.and_eq_true, beq_iff_eq] at same
  obtain ⟨⟨text, caseSensitive⟩, wildcard⟩ := same
  obtain ⟨program, compiled, found⟩ := exists_program settled valid
  obtain ⟨program', compiled', found'⟩ := exists_program settled' valid'
  rw [outcome, text, caseSensitive, wildcard] at compiled
  rw [found, found', compile_unique compiled compiled']

/-- Patterns with the same program match alike. -/
theorem matches_congr (same : p.program? = q.program?) (subject : Subject) :
    (∀ i, p.find? subject i = q.find? subject i ∧
      p.matchLength? subject i = q.matchLength? subject i) ∧
    p.isMatch subject = q.isMatch subject ∧ p.isExactMatch subject = q.isExactMatch subject := by
  have find : ∀ i, p.find? subject i = q.find? subject i := fun i => by rw [find?, find?, same]
  have length : ∀ i, p.matchLength? subject i = q.matchLength? subject i := fun i => by
    rw [matchLength?, matchLength?, same]
  refine ⟨fun i => ⟨find i, length i⟩, ?_, ?_⟩
  · rw [isMatch, isMatch, find]
  · rw [isExactMatch, isExactMatch, length]

end

/-! ## What has been assigned -/

/-- All that a pattern is compiled from. -/
structure Settings where
  text : String
  caseSensitive : Bool
  wildcard : Bool
  maxCells : Nat
  deriving DecidableEq, Repr

namespace Settings

/-- A new pattern of the settings. -/
def fresh (s : Settings) : Pattern := ofText s.text s.caseSensitive s.wildcard s.maxCells

def assign (s : Settings) : Setter → Settings
  | .text text => { s with text }
  | .caseSensitive caseSensitive => { s with caseSensitive }
  | .wildcard wildcard => { s with wildcard }
  | .maxCells maxCells => { s with maxCells }

/-- A setter makes a new pattern of the changed settings, whatever the pattern was before. -/
@[simp] theorem apply_fresh (s : Settings) (setter : Setter) :
    setter.apply s.fresh = (s.assign setter).fresh := by
  cases setter <;>
    simp [Setter.apply, setText, setCaseSensitive, setWildcard, setMaxCells, recompile_eq_ofText,
      fresh, assign]

end Settings

namespace Register

/-- The name that an edit is about. -/
def Edit.name : Edit → String
  | .create name _ _ _ _ => name
  | .createValid name _ _ _ => name
  | .copy name _ => name
  | .change name _ => name

/-- What is assigned to the name of an edit. -/
def Edit.assigned (settings : String → Option Settings) : Edit → Option Settings
  | .create _ text caseSensitive wildcard maxCells =>
    some ⟨text, caseSensitive, wildcard, maxCells⟩
  | .createValid name text caseSensitive wildcard =>
    let s : Settings := ⟨text, caseSensitive, wildcard, defaultMaxCells⟩
    if s.fresh.isValid then some s else settings name
  | .copy name source => (settings source).or (settings name)
  | .change name setter => (settings name).map (·.assign setter)

/-- The settings under all names after one more edit. -/
def assign (settings : String → Option Settings) (edit : Edit) : String → Option Settings :=
  Function.update settings edit.name (edit.assigned settings)

/-- The settings that were assigned last, under all names. -/
def assigned (edits : List Edit) : String → Option Settings :=
  edits.foldl assign fun _ => none

/-! ## One edit and many -/

/-- Every pattern is a new one of its settings. -/
def UpToDate (r : Register) (settings : String → Option Settings) : Prop :=
  ∀ name, r.get? name = (settings name).map Settings.fresh

section

variable {r : Register} {settings : String → Option Settings}

theorem get?_apply_of_ne (r : Register) (edit : Edit) {other : String} (ne : other ≠ edit.name) :
    (r.apply edit).register.get? other = r.get? other := by
  cases edit with
  | create name => exact Slots.get?_set_of_ne r _ ne
  | createValid name text caseSensitive wildcard =>
      simp only [apply]
      split
      · rfl
      · exact Slots.get?_set_of_ne r _ ne
  | copy name source =>
      simp only [apply]
      split
      · exact Slots.get?_set_of_ne r _ ne
      · rfl
  | change name setter =>
      simp only [apply]
      split
      · exact Slots.get?_set_of_ne r _ ne
      · rfl

/-- The pattern under the name of an edit is a new one of what was assigned to it. -/
theorem UpToDate.get?_apply_self (upToDate : UpToDate r settings) (edit : Edit) :
    (r.apply edit).register.get? edit.name = (edit.assigned settings).map Settings.fresh := by
  cases edit with
  | create name => exact Slots.get?_set_self r name _
  | createValid name text caseSensitive wildcard =>
      have here := upToDate name
      simp only [apply, Edit.assigned, Edit.name, isValid, Settings.fresh]
      split
      · rename_i e error
        simpa [error] using here
      · rename_i error
        simp [error, Slots.get?_set_self, Settings.fresh]
  | copy name source =>
      have here := upToDate name
      have there := upToDate source
      simp only [apply, Edit.assigned, Edit.name]
      cases assigned : settings source with
      | none =>
          rw [assigned, Option.map_none] at there
          simpa [there] using here
      | some s =>
          rw [assigned, Option.map_some] at there
          simp [there, Slots.get?_set_self]
  | change name setter =>
      have here := upToDate name
      simp only [apply, Edit.assigned, Edit.name]
      cases assigned : settings name with
      | none =>
          rw [assigned, Option.map_none] at here
          simp [here]
      | some s =>
          rw [assigned, Option.map_some] at here
          simp [here, Slots.get?_set_self]

theorem UpToDate.apply (upToDate : UpToDate r settings) (edit : Edit) :
    UpToDate (r.apply edit).register (assign settings edit) := by
  intro name
  by_cases same : name = edit.name
  · subst same
    rw [assign, Function.update_self]
    exact upToDate.get?_apply_self edit
  · rw [assign, Function.update_of_ne same, get?_apply_of_ne r edit same]
    exact upToDate name

theorem UpToDate.run (upToDate : UpToDate r settings) (edits : List Edit) :
    UpToDate (run r edits) (edits.foldl assign settings) := by
  induction edits generalizing r settings with
  | nil => exact upToDate
  | cons edit edits ih => exact ih (upToDate.apply edit)

theorem upToDate_run (edits : List Edit) : UpToDate (Register.run [] edits) (assigned edits) :=
  UpToDate.run (fun _ => rfl) edits

/-- Every pattern of the register is settled. -/
def AllSettled (r : Register) : Prop := ∀ name p, r.get? name = some p → p.Settled

theorem AllSettled.set (all : AllSettled r) (name : String) {p : Pattern} (settled : p.Settled) :
    AllSettled (r.set name p) := by
  intro other q found
  by_cases same : other = name
  · rw [same, Slots.get?_set_self] at found
    exact Option.some.inj found ▸ settled
  · rw [Slots.get?_set_of_ne r p same] at found
    exact all other q found

theorem AllSettled.apply (all : AllSettled r) (edit : Edit) :
    AllSettled (r.apply edit).register := by
  cases edit with
  | create name text caseSensitive wildcard maxCells =>
      exact all.set name (settled_ofText text caseSensitive wildcard maxCells)
  | createValid name text caseSensitive wildcard =>
      simp only [Register.apply]
      split
      · exact all
      · exact all.set name (settled_ofText text caseSensitive wildcard defaultMaxCells)
  | copy name source =>
      simp only [Register.apply]
      split
      · rename_i p found
        exact all.set name (all source p found)
      · exact all
  | change name setter =>
      simp only [Register.apply]
      split
      · exact all.set name (settled_setter _ setter)
      · exact all

theorem AllSettled.run (all : AllSettled r) (edits : List Edit) :
    AllSettled (Register.run r edits) := by
  induction edits generalizing r with
  | nil => exact all
  | cons edit edits ih => exact ih (all.apply edit)

theorem allSettled_run (edits : List Edit) : AllSettled (Register.run [] edits) :=
  AllSettled.run (fun _ _ found => absurd found (by simp [Slots.get?])) edits

/-- A pattern that is not named stays what it is. -/
theorem get?_run_of_ne (r : Register) {edits : List Edit} {other : String}
    (ne : ∀ edit ∈ edits, edit.name ≠ other) :
    (Register.run r edits).get? other = r.get? other := by
  induction edits generalizing r with
  | nil => rfl
  | cons edit edits ih =>
      obtain ⟨first, later⟩ := List.forall_mem_cons.1 ne
      exact (ih (r.apply edit).register later).trans (get?_apply_of_ne r edit first.symm)

theorem get?_apply_copy {p : Pattern} {source : String} (found : r.get? source = some p)
    (name : String) : (r.apply (.copy name source)).register.get? name = some p := by
  simp [apply, found, Slots.get?_set_self]

end

end Register

/-- **No pattern carries a stale program.**  After any edits every pattern is what a new one of the
settings assigned to it last would be, in text, flags, limit, program and error.  A copy stays as it
was copied until an edit names it, whatever is done to its source, and so does the source whatever is
done to the copy.  A pattern is valid exactly if it has no error, exactly if it has a program, exactly
if it is not empty, and one that is not valid matches nowhere.  Two patterns of any two histories that
count as the same and are both valid have the same program, their limits aside, and match alike. -/
theorem run_fresh (edits : List Edit) :
    (∀ name, (run [] edits).get? name = (Register.assigned edits name).map Settings.fresh) ∧
    (∀ source copy p later, copy ≠ source → (run [] edits).get? source = some p →
      ((∀ edit ∈ later, edit.name ≠ copy) →
        (run [] (edits ++ .copy copy source :: later)).get? copy = some p) ∧
      ((∀ edit ∈ later, edit.name ≠ source) →
        (run [] (edits ++ .copy copy source :: later)).get? source = some p)) ∧
    (∀ name p, (run [] edits).get? name = some p →
      (p.isValid = true ↔ p.error? = none) ∧ (p.isValid = true ↔ p.program?.isSome = true) ∧
      (p.isValid = true ↔ p.isEmpty = false) ∧
      (p.isValid = false → ∀ subject i,
        p.find? subject i = none ∧ p.matchLength? subject i = none)) ∧
    ∀ edits' name name' p q, (run [] edits).get? name = some p →
      (run [] edits').get? name' = some q → p.sameText q = true →
      p.isValid = true → q.isValid = true →
      p.program? = q.program? ∧ ∀ subject,
        (∀ i, p.find? subject i = q.find? subject i ∧
          p.matchLength? subject i = q.matchLength? subject i) ∧
        p.isMatch subject = q.isMatch subject ∧
        p.isExactMatch subject = q.isExactMatch subject := by
  refine ⟨Register.upToDate_run edits, ?_, ?_, ?_⟩
  · intro source copy p later ne found
    have split : run [] (edits ++ .copy copy source :: later) =
        run ((run [] edits).apply (.copy copy source)).register later := by
      simp [run]
    rw [split]
    constructor
    · intro others
      rw [Register.get?_run_of_ne _ others]
      exact Register.get?_apply_copy found copy
    · intro others
      rw [Register.get?_run_of_ne _ others, Register.get?_apply_of_ne _ _ ne.symm]
      exact found
  · intro name p found
    have settled := Register.allSettled_run edits name p found
    refine ⟨isValid_iff_error, isValid_iff_program settled, isValid_iff_isEmpty settled,
      fun invalid subject i => ?_⟩
    have none := program?_eq_none settled invalid
    constructor
    · rw [find?, none]
      rfl
    · rw [matchLength?, none]
      rfl
  · intro edits' name name' p q found found' same valid valid'
    have program := program?_eq_of_sameText (Register.allSettled_run edits name p found)
      (Register.allSettled_run edits' name' q found') same valid valid'
    exact ⟨program, matches_congr program⟩

end Bytewise.Pattern
