/-
# Bytewise.Proofs.Json.Object -- reading the members of an object

`Members first s ms`: behind its opening brace, or behind one of its members, an object
goes on with the members `ms`, each a key in any spelling and the text of any value.

What a reader of members makes of them is a run of steps, one for each of them in turn
(`Steps`), if it takes each one to the end of its value or not at all (`TakesMembers`);
and so it reads an object to its closing brace or not at all (`members_eq_ok_iff`).
-/
import Bytewise.Proofs.Json.Typed

namespace Bytewise.Json

set_option autoImplicit false

variable {s w w' v rest after : Bytes} {key : String} {ms : List (String × Bytes)} {first : Bool}

/-! ## The layout of an object -/

/-- A key in any spelling and the text of a value, with a colon between them. -/
inductive Member : Bytes → String × Bytes → Prop
  | keyed {key : String} {body w w' v : Bytes}
      (spelled : Text.Spelled body (Text.Utf8.ofString key)) (blank : Blank w) (blank' : Blank w')
      (value : Value v) :
      Member (Byte.doubleQuote :: (body ++ Byte.doubleQuote :: (w ++ Byte.colon :: (w' ++ v)))) (key, v)

/-- What follows the opening brace, or else a member: other members and the closing brace. -/
inductive Members : Bool → Bytes → List (String × Bytes) → Prop
  | close {first : Bool} {w : Bytes} (blank : Blank w) : Members first (w ++ [Byte.rightBrace]) []
  | first {w text later : Bytes} {m : String × Bytes} {ms : List (String × Bytes)} (blank : Blank w)
      (member : Member text m) (behind : Members false later ms) :
      Members true (w ++ (text ++ later)) (m :: ms)
  | comma {w w' text later : Bytes} {m : String × Bytes} {ms : List (String × Bytes)}
      (blank : Blank w) (blank' : Blank w') (member : Member text m)
      (behind : Members false later ms) :
      Members false (w ++ Byte.comma :: (w' ++ (text ++ later))) (m :: ms)

/-- The text of an object, with white space around it. -/
inductive ObjectOf : Bytes → List (String × Bytes) → Prop
  | braces {w w' s : Bytes} {ms : List (String × Bytes)} (blank : Blank w) (blank' : Blank w')
      (members : Members true s ms) : ObjectOf (w ++ Byte.leftBrace :: (s ++ w')) ms

theorem Members.ends (members : Members false s ms) (rest : Bytes) : Number.Ends (s ++ rest) := by
  cases members with
  | close blank =>
      rw [List.append_assoc]
      exact Number.ends_of_blank blank (by decide) rest
  | comma blank _ _ _ =>
      rw [List.append_assoc]
      exact Number.ends_of_blank blank (by decide) _

theorem Members.length_le (members : Members first s ms) : ms.length ≤ s.length := by
  induction members with
  | close => exact Nat.zero_le _
  | first _ member _ ih =>
      obtain ⟨-, -, -, -⟩ := member
      simp only [List.length_append, List.length_cons]
      omega
  | comma _ _ _ _ ih =>
      simp only [List.length_append, List.length_cons]
      omega

/-! ## The next key -/

theorem nextKey?_close (blank : Blank w) (first : Bool) (s : Bytes) :
    nextKey? first (w ++ Byte.rightBrace :: s) = .ok none := by
  rw [nextKey?, skipBlank_eq_cons blank (by decide)]
  exact if_pos rfl

theorem nextKey?_first (blank : Blank w) (s : Bytes) :
    nextKey? true (w ++ Byte.doubleQuote :: s) = .ok (some s) := by
  rw [nextKey?, skipBlank_eq_cons blank (by decide)]
  rfl

theorem nextKey?_comma (blank : Blank w) (blank' : Blank w') (s : Bytes) :
    nextKey? false (w ++ Byte.comma :: (w' ++ Byte.doubleQuote :: s)) = .ok (some s) := by
  rw [nextKey?, skipBlank_eq_cons blank (by decide)]
  simp only [skipBlank_eq_cons blank' (show isBlank Byte.doubleQuote = false by decide)]
  rfl

/-! ## All members -/

theorem memberValue_eq {α : Type} (value : Bytes → Result α) (blank : Blank w) (s : Bytes) :
    memberValue value (w ++ Byte.colon :: s) = value s := by
  rw [memberValue, (close_eq_ok_iff (by decide)).2 ⟨w, blank, rfl⟩]

section

variable {σ : Type} {Step : σ → String × Bytes → σ → Prop} {member : σ → String → Bytes → Result σ}
  {state state' : σ}

/-- One step for each member in turn. -/
inductive Steps (Step : σ → String × Bytes → σ → Prop) : σ → List (String × Bytes) → σ → Prop
  | nil (state : σ) : Steps Step state [] state
  | cons {state state' state'' : σ} {m : String × Bytes} {ms : List (String × Bytes)}
      (here : Step state m state') (later : Steps Step state' ms state'') :
      Steps Step state (m :: ms) state''

theorem steps_nil_iff : Steps Step state [] state' ↔ state' = state := by
  constructor
  · rintro ⟨⟩
    rfl
  · rintro rfl
    exact .nil _

theorem steps_cons_iff {m : String × Bytes} :
    Steps Step state (m :: ms) state' ↔
      ∃ between, Step state m between ∧ Steps Step between ms state' := by
  constructor
  · rintro (_ | ⟨here, later⟩)
    exact ⟨_, here, later⟩
  · rintro ⟨between, here, later⟩
    exact .cons here later

/-- The value of a member is read to its end, which is a step, or not at all. -/
structure TakesMembers (member : σ → String → Bytes → Result σ)
    (Step : σ → String × Bytes → σ → Prop) : Prop where
  eq_ok_iff : ∀ {state state' key w w' v rest after}, Blank w → Blank w' → Value v →
    Number.Ends rest →
      (member state key (w ++ Byte.colon :: (w' ++ (v ++ rest))) = .ok (state', after) ↔
        Step state (key, v) state' ∧ after = rest)

theorem membersFrom_close (blank : Blank w) (first : Bool) (fuel : Nat) (state : σ) (rest : Bytes) :
    membersFrom member (fuel + 1) first state (w ++ [Byte.rightBrace] ++ rest) = .ok (state, rest) := by
  have closed : close Byte.rightBrace (w ++ Byte.rightBrace :: rest) = .ok rest :=
    (close_eq_ok_iff (by decide)).2 ⟨w, blank, rfl⟩
  rw [List.append_assoc, List.singleton_append, membersFrom, nextKey?_close blank]
  simp only [closed, Except.map]

namespace TakesMembers

variable (takes : TakesMembers member Step)
include takes

/-- The next member is read, and then the others. -/
theorem membersFrom_member {fuel : Nat} {text later : Bytes} {m : String × Bytes}
    (keyed : Member text m) (ends : Number.Ends later)
    (next : ∀ t, text ++ later = Byte.doubleQuote :: t → nextKey? first s = .ok (some t)) :
    membersFrom member (fuel + 1) first state s = .ok (state', after) ↔
      ∃ between, Step state m between ∧
        membersFrom member fuel false between later = .ok (state', after) := by
  obtain @⟨key, body, w, w', v, spelled, blank, blank', value⟩ := keyed
  have keyRead : Text.read (body ++ Byte.doubleQuote :: (w ++ Byte.colon :: (w' ++ (v ++ later)))) =
      .ok (key, w ++ Byte.colon :: (w' ++ (v ++ later))) :=
    Text.read_eq_ok_iff.2 ⟨body, rfl, spelled⟩
  have keyNext := next (body ++ Byte.doubleQuote :: (w ++ Byte.colon :: (w' ++ (v ++ later)))) (by simp)
  rw [membersFrom, keyNext]
  simp only [keyRead]
  constructor
  · intro read
    split at read
    · cases read
    · rename_i between after' here
      obtain ⟨step, rfl⟩ := (takes.eq_ok_iff blank blank' value ends).1 here
      exact ⟨between, step, read⟩
  · rintro ⟨between, step, others⟩
    rw [(takes.eq_ok_iff blank blank' value ends).2 ⟨step, rfl⟩]
    exact others

/-- What is read of the members that stand in front of `rest` is a run of steps, to the closing brace. -/
theorem membersFrom_eq_ok_iff (members : Members first s ms) {fuel : Nat} (enough : ms.length < fuel) :
    membersFrom member fuel first state (s ++ rest) = .ok (state', after) ↔
      Steps Step state ms state' ∧ after = rest := by
  obtain ⟨fuel, rfl⟩ := Nat.exists_eq_succ_of_ne_zero (Nat.ne_of_gt (Nat.zero_lt_of_lt enough))
  -- the fuel is for one member each, so it goes down with them
  induction members generalizing fuel state with
  | close blank =>
      rw [membersFrom_close blank, Except.ok.injEq, Prod.mk.injEq, steps_nil_iff, eq_comm,
        @eq_comm _ rest]
  | @first w text later m ms blank keyed behind ih =>
      obtain ⟨fuel, rfl⟩ := Nat.exists_eq_add_of_lt (Nat.lt_of_succ_lt_succ enough)
      have next : ∀ t, text ++ (later ++ rest) = Byte.doubleQuote :: t →
          nextKey? true (w ++ (text ++ later) ++ rest) = .ok (some t) := by
        intro t starts
        rw [List.append_assoc, List.append_assoc, starts, nextKey?_first blank]
      rw [takes.membersFrom_member keyed (behind.ends rest) next, steps_cons_iff]
      simp only [ih _ (Nat.lt_of_succ_lt_succ enough), ← and_assoc, exists_and_right]
  | @comma w w' text later m ms blank blank' keyed behind ih =>
      obtain ⟨fuel, rfl⟩ := Nat.exists_eq_add_of_lt (Nat.lt_of_succ_lt_succ enough)
      have next : ∀ t, text ++ (later ++ rest) = Byte.doubleQuote :: t →
          nextKey? false (w ++ Byte.comma :: (w' ++ (text ++ later)) ++ rest) = .ok (some t) := by
        intro t starts
        rw [List.append_assoc, List.cons_append, List.append_assoc, List.append_assoc, starts,
          nextKey?_comma blank blank']
      rw [takes.membersFrom_member keyed (behind.ends rest) next, steps_cons_iff]
      simp only [ih _ (Nat.lt_of_succ_lt_succ enough), ← and_assoc, exists_and_right]

/-- Members that stand in front of `rest` are read to the closing brace, or not at all. -/
theorem members_eq_ok_iff (members : Members true s ms) :
    Json.members member state (s ++ rest) = .ok (state', after) ↔
      Steps Step state ms state' ∧ after = rest := by
  refine takes.membersFrom_eq_ok_iff members ?_
  have := members.length_le
  rw [List.length_append]
  omega

end TakesMembers

end

/-! ## The shortest layout -/

/-- How a member is written. -/
def writeMember (m : String × Bytes) : Bytes :=
  Text.write (Text.Utf8.ofString m.1) ++ Byte.colon :: m.2

theorem writeObject_eq (ms : List (String × Bytes)) :
    writeObject ms = Byte.leftBrace :: (commaSeparated (ms.map writeMember) ++ [Byte.rightBrace]) := rfl

theorem member_write {m : String × Bytes} (value : Value m.2) : Member (writeMember m) m := by
  have keyed : Member _ (m.1, m.2) := .keyed (Text.spelled_write _) blank_nil blank_nil value
  simpa [writeMember, Text.write] using keyed

theorem commaSeparated_cons_append (p : Bytes) (ps : List Bytes) (s : Bytes) :
    commaSeparated (p :: ps) ++ s = p ++ (ps.flatMap (Byte.comma :: ·) ++ s) := by
  induction ps generalizing p with
  | nil => rfl
  | cons p' ps ih =>
      have split : commaSeparated (p :: p' :: ps) = p ++ Byte.comma :: commaSeparated (p' :: ps) := rfl
      rw [split, List.append_assoc, List.cons_append, ih, List.flatMap_cons, List.cons_append,
        List.cons_append, List.append_assoc]

theorem members_written (values : ∀ m ∈ ms, Value m.2) :
    Members false ((ms.map writeMember).flatMap (Byte.comma :: ·) ++ [Byte.rightBrace]) ms := by
  induction ms with
  | nil => exact .close blank_nil
  | cons m ms ih =>
      rw [List.forall_mem_cons] at values
      have behind := Members.comma blank_nil blank_nil (member_write values.1) (ih values.2)
      simpa using behind

theorem objectOf_write (values : ∀ m ∈ ms, Value m.2) : ObjectOf (writeObject ms) ms := by
  have members : Members true (commaSeparated (ms.map writeMember) ++ [Byte.rightBrace]) ms := by
    cases ms with
    | nil => exact .close blank_nil
    | cons m ms =>
        rw [List.forall_mem_cons] at values
        rw [List.map_cons, commaSeparated_cons_append]
        exact .first (w := []) blank_nil (member_write values.1) (members_written values.2)
  have object := ObjectOf.braces blank_nil blank_nil members
  rwa [List.append_nil, List.nil_append, ← writeObject_eq] at object

end Bytewise.Json
