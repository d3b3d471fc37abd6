/-
# Bytewise.Proofs.Shared.Searching -- searches give the least position, and miss none

Looking for a value and looking for a run both go over the cells that are left, and
stop where what is left passes a test: it starts with the value, or with the run
(`firstTail?`).  From any position on, that is asking every position
(`firstTail?_drop`), so

* `find?_eq_some_iff`, `find?_eq_none_iff`: looking for a value finds its least position;
* `runFrom?_eq_some_iff`: looking for a run finds the least position where it stands in
  the cells, and a run of one cell is found where its cell is;
* `visits_positions`: going on right behind each hit visits every position of the value,
  in order, and comes to an end;
* `runFrom?_eq_find?`: a run of bytes stands where it occurs as a needle.
-/
import Mathlib.Data.Nat.Find
import Bytewise.Proofs.Needle.Occurrences
import Bytewise.Proofs.Shared.Exclusive
import Bytewise.Shared.Search

namespace Bytewise

set_option autoImplicit false

namespace Shared.Search

variable {α : Type} {cells : List α} {start i : Nat}

/-! ## The first place that passes a test -/

/-- The first position where what is left of the cells passes a test. -/
def firstTail? (test : List α → Bool) : List α → Option Nat
  | [] => none
  | c :: rest => if test (c :: rest) then some 0 else (firstTail? test rest).map (· + 1)

/-- The position, if the cells from there on pass a test. -/
def passedAt? (test : List α → Bool) (cells : List α) (i : Nat) : Option Nat :=
  if test (cells.drop i) then some i else none

theorem firstTail?_drop (test : List α → Bool) {n : Nat} (rest : cells.length = start + n) :
    (firstTail? test (cells.drop start)).map (· + start) =
      (List.range' start n).findSome? (passedAt? test cells) := by
  induction n generalizing start with
  | zero =>
      have outside : cells.length ≤ start := Nat.le_of_eq rest
      rw [List.drop_eq_nil_of_le outside]
      rfl
  | succ n ih =>
      have inside : start < cells.length := by omega
      rw [List.range'_succ, List.findSome?_cons, passedAt?, List.drop_eq_getElem_cons inside,
        firstTail?]
      split
      · exact congrArg some (Nat.zero_add start)
      · rw [← ih (by omega), Option.map_map]
        exact congrArg (Option.map · _) (funext fun j => Nat.add_right_comm j 1 start)

theorem firstTail?_eq_some_iff (test : List α → Bool) (cells : List α) (start i : Nat) :
    (firstTail? test (cells.drop start)).map (· + start) = some i ↔
      IsLeast {j | start ≤ j ∧ j < cells.length ∧ test (cells.drop j) = true} i := by
  by_cases inside : start ≤ cells.length
  · rw [firstTail?_drop test (Nat.add_sub_cancel' inside).symm, findSome?_range'_eq_some_iff,
      Nat.add_sub_cancel' inside]
    simp only [passedAt?, ite_eq_right_iff, reduceCtorEq, imp_false]
    constructor
    · rintro ⟨j, above, below, nothing, found⟩
      split at found
      · rename_i passes
        obtain rfl := Option.some.inj found
        refine ⟨⟨above, below, passes⟩, fun k earlier => Nat.le_of_not_lt fun less => ?_⟩
        exact nothing k earlier.1 less earlier.2.2
      · cases found
    · rintro ⟨⟨above, below, passes⟩, least⟩
      refine ⟨i, above, below, fun j low less passes' => ?_, if_pos passes⟩
      exact Nat.not_le.2 less (least ⟨low, Nat.lt_trans less below, passes'⟩)
  · rw [List.drop_eq_nil_of_le (Nat.le_of_not_le inside)]
    refine iff_of_false (by rintro ⟨⟩) ?_
    rintro ⟨⟨above, below, -⟩, -⟩
    omega

/-- Where there is no least position, there is none at all. -/
theorem eq_none_iff_of_isLeast {found? : Option Nat} {positions : Set Nat}
    (found : ∀ i, found? = some i ↔ IsLeast positions i) :
    found? = none ↔ ∀ i, i ∉ positions := by
  rw [Option.eq_none_iff_forall_ne_some]
  constructor
  · intro nothing i member
    classical
    exact nothing _ ((found _).2 ⟨Nat.find_spec ⟨i, member⟩, fun _ => Nat.find_min' ⟨i, member⟩⟩)
  · intro nowhere i same
    exact nowhere i ((found i).1 same).1

variable [BEq α] {value : α} {run : List α}

/-! ## Where a value stands, and where a run does -/

/-- There is a cell at the position, and it equals the value. -/
def Stands (cells : List α) (value : α) (i : Nat) : Prop :=
  ∃ c, cells[i]? = some c ∧ (c == value) = true

/-- The cells from the position on start with cells that equal those of the run, one by one. -/
def RunStands (cells run : List α) (i : Nat) : Prop :=
  ((cells.drop i).take run.length == run) = true

theorem stands_iff_any : Stands cells value i ↔ (cells[i]?).any (· == value) = true :=
  (Option.any_eq_true _ _).symm

instance (cells : List α) (value : α) (i : Nat) : Decidable (Stands cells value i) :=
  decidable_of_iff _ stands_iff_any.symm

instance (cells run : List α) (i : Nat) : Decidable (RunStands cells run i) :=
  inferInstanceAs (Decidable (_ = true))

theorem Stands.lt_length (here : Stands cells value i) : i < cells.length := by
  obtain ⟨c, found, -⟩ := here
  exact (List.getElem?_eq_some_iff.1 found).1

theorem stands_iff_getElem (inside : i < cells.length) :
    Stands cells value i ↔ (cells[i] == value) = true := by
  rw [stands_iff_any, List.getElem?_eq_getElem inside, Option.any_some]

/-- A run that is not empty starts at one of the cells. -/
theorem RunStands.lt_length (here : RunStands cells run i) (nonempty : run ≠ []) :
    i < cells.length := by
  refine Nat.lt_of_not_le fun outside => nonempty ?_
  rw [RunStands, List.drop_eq_nil_of_le outside, List.take_nil] at here
  exact List.length_eq_zero_iff.1 (List.length_eq_of_beq here).symm

/-- A run of one cell stands where the cell does. -/
theorem runStands_singleton : RunStands cells [value] i ↔ Stands cells value i := by
  rw [RunStands, stands_iff_any, ← List.head?_drop, List.length_singleton]
  cases cells.drop i <;> simp

theorem runStands_iff [LawfulBEq α] :
    RunStands cells run i ↔ (cells.drop i).take run.length = run := beq_iff_eq

/-! ## Looking for a value -/

theorem index?_eq_firstTail? (value : α) (cells : List α) :
    index? value cells = firstTail? (fun rest => rest.head?.any (· == value)) cells := by
  induction cells with
  | nil => rfl
  | cons c rest ih => rw [index?, firstTail?, ih, List.head?_cons, Option.any_some]

theorem find?_eq_some_iff :
    (find? cells value start).1 = some i ↔
      IsLeast {j | start ≤ j ∧ Stands cells value j} i := by
  have positions : {j | start ≤ j ∧ j < cells.length ∧
      (cells.drop j).head?.any (· == value) = true} =
      {j | start ≤ j ∧ Stands cells value j} := by
    ext j
    refine and_congr_right fun _ => ?_
    rw [List.head?_drop, ← stands_iff_any]
    exact and_iff_right_of_imp Stands.lt_length
  have first :=
    firstTail?_eq_some_iff (fun rest => rest.head?.any (· == value)) cells start i
  rw [positions, ← index?_eq_firstTail?] at first
  rw [← first, find?]
  split
  · rfl
  · rename_i outside
    rw [List.drop_eq_nil_of_le (Nat.le_of_not_le outside)]
    exact iff_of_false (by rintro ⟨⟩) (by rintro ⟨⟩)

theorem find?_eq_none_iff :
    (find? cells value start).1 = none ↔ ∀ j, start ≤ j → ¬ Stands cells value j := by
  rw [eq_none_iff_of_isLeast fun i => find?_eq_some_iff]
  exact forall_congr' fun j => not_and

/-- Where the value does not stand, the search goes on behind. -/
theorem find?_succ (other : ¬ Stands cells value start) :
    (find? cells value (start + 1)).1 = (find? cells value start).1 := by
  ext i
  rw [find?_eq_some_iff, find?_eq_some_iff]
  have same : {j | start + 1 ≤ j ∧ Stands cells value j} =
      {j | start ≤ j ∧ Stands cells value j} := by
    ext j
    refine and_congr_left fun here => ⟨Nat.le_of_succ_le, fun above => ?_⟩
    refine Nat.lt_of_le_of_ne above ?_
    rintro rfl
    exact other here
  rw [same]

/-! ## Looking for it again and again -/

/-- A search from a position on, and another one right behind each hit, hits these positions and
then nothing more. -/
inductive Visits (cells : List α) (value : α) : Nat → List Nat → Prop
  | nothing {start : Nat} (absent : (find? cells value start).1 = none) :
      Visits cells value start []
  | hit {start i : Nat} {later : List Nat} (found : (find? cells value start).1 = some i)
      (behind : Visits cells value (i + 1) later) : Visits cells value start (i :: later)

/-- The positions of a value from `start` on, in ascending order. -/
def positionsFrom (cells : List α) (value : α) (start n : Nat) : List Nat :=
  (List.range' start n).filter fun i => Stands cells value i

theorem Visits.eq {is js : List Nat} (visits : Visits cells value start is)
    (visits' : Visits cells value start js) : is = js := by
  induction visits generalizing js with
  | nothing absent =>
      cases visits' with
      | nothing _ => rfl
      | hit found _ =>
          rw [absent] at found
          cases found
  | hit found _ ih =>
      cases visits' with
      | nothing absent =>
          rw [absent] at found
          cases found
      | hit found' behind =>
          obtain rfl := Option.some.inj (found.symm.trans found')
          rw [ih behind]

theorem visits_positions {n : Nat} (rest : cells.length = start + n) :
    Visits cells value start (positionsFrom cells value start n) := by
  induction n generalizing start with
  | zero =>
      refine .nothing (find?_eq_none_iff.2 fun j above here => ?_)
      have := here.lt_length
      omega
  | succ n ih =>
      have behind : Visits cells value (start + 1) (positionsFrom cells value (start + 1) n) :=
        ih (by omega)
      rw [positionsFrom, List.range'_succ]
      by_cases here : Stands cells value start
      · rw [List.filter_cons_of_pos (by simpa using here)]
        refine .hit (find?_eq_some_iff.2 ⟨⟨Nat.le_refl start, here⟩, fun j => And.left⟩) behind
      · rw [List.filter_cons_of_neg (by simpa using here)]
        -- the search from here on is the one from the next position on
        cases behind_eq : (List.range' (start + 1) n).filter fun i => Stands cells value i with
        | nil =>
            rw [positionsFrom, behind_eq] at behind
            cases behind with
            | nothing absent => exact .nothing ((find?_succ here).symm.trans absent)
        | cons i later =>
            rw [positionsFrom, behind_eq] at behind
            cases behind with
            | hit found later => exact .hit ((find?_succ here).symm.trans found) later

theorem length_positionsFrom {n : Nat} (rest : cells.length = start + n) :
    (positionsFrom cells value start n).length = occurrences (cells.drop start) value := by
  induction n generalizing start with
  | zero =>
      have outside : cells.length ≤ start := Nat.le_of_eq rest
      rw [List.drop_eq_nil_of_le outside]
      rfl
  | succ n ih =>
      have inside : start < cells.length := by omega
      have behind : (positionsFrom cells value (start + 1) n).length =
          (cells.drop (start + 1)).countP (· == value) := ih (by omega)
      rw [occurrences, List.drop_eq_getElem_cons inside, List.countP_cons, ← behind, positionsFrom,
        List.range'_succ, List.filter_cons, positionsFrom]
      simp only [stands_iff_getElem inside, decide_eq_true_eq]
      split <;> rfl

/-! ## Looking for a run -/

theorem startsWith_eq (cells run : List α) :
    startsWith cells run = (cells.take run.length == run) := by
  induction run generalizing cells with
  | nil => cases cells <;> rfl
  | cons r run ih =>
      cases cells with
      | nil => rfl
      | cons c cells =>
          rw [startsWith, ih, List.length_cons, List.take_succ_cons]
          rfl

theorem run?_eq_firstTail? (run cells : List α) :
    run? run cells = firstTail? (startsWith · run) cells := by
  induction cells with
  | nil => rfl
  | cons c rest ih => rw [run?, firstTail?, ih]

theorem runFrom?_eq_some_iff :
    runFrom? cells run start = some i ↔
      run ≠ [] ∧ IsLeast {j | start ≤ j ∧ RunStands cells run j} i := by
  rw [runFrom?]
  split
  · rename_i empty
    exact iff_of_false (by rintro ⟨⟩) fun nonempty => nonempty.1 (List.isEmpty_iff.1 empty)
  · rename_i nonempty
    rw [List.isEmpty_iff] at nonempty
    have positions : {j | start ≤ j ∧ j < cells.length ∧ startsWith (cells.drop j) run = true} =
        {j | start ≤ j ∧ RunStands cells run j} := by
      ext j
      refine and_congr_right fun _ => ?_
      rw [startsWith_eq]
      exact and_iff_right_of_imp fun here : RunStands cells run j => here.lt_length nonempty
    rw [run?_eq_firstTail?, firstTail?_eq_some_iff, positions]
    exact (and_iff_right nonempty).symm

theorem runFrom?_eq_none_iff :
    runFrom? cells run start = none ↔
      run = [] ∨ ∀ j, start ≤ j → ¬ RunStands cells run j := by
  by_cases empty : run = []
  · exact iff_of_true (if_pos (List.isEmpty_iff.2 empty)) (.inl empty)
  · rw [eq_none_iff_of_isLeast fun i => runFrom?_eq_some_iff.trans (and_iff_right empty),
      or_iff_right empty]
    exact forall_congr' fun j => not_and

theorem runFrom?_singleton : runFrom? cells [value] start = (find? cells value start).1 := by
  ext i
  rw [runFrom?_eq_some_iff, find?_eq_some_iff, and_iff_right (List.cons_ne_nil _ _)]
  simp only [runStands_singleton]

/-! ## Bytes -/

theorem startsAt_iff {hay w : Bytes} {i : Nat} :
    Needle.startsAt (· == ·) (.ofBytes hay) w i = true ↔ RunStands hay w i := by
  rw [runStands_iff]
  induction w generalizing i with
  | nil => simp [Needle.startsAt]
  | cons b w ih =>
      rw [Needle.startsAt, Bool.and_eq_true, ih, Subject.get?_eq, Subject.toList_ofBytes,
        List.length_cons]
      by_cases inside : i < hay.length
      · rw [List.drop_eq_getElem_cons inside, List.take_succ_cons, List.cons.injEq,
          List.getElem?_eq_getElem inside, Option.any_some, beq_iff_eq, eq_comm]
      · have outside := Nat.le_of_not_lt inside
        rw [List.drop_eq_nil_of_le outside, List.getElem?_eq_none outside]
        simp

theorem mem_occurrences_bytes {hay w : Bytes} {i : Nat} :
    i ∈ (Needle.bytes w).occurrences (.ofBytes hay) ↔ w ≠ [] ∧ RunStands hay w i := by
  simp only [Needle.mem_occurrences_iff, Needle.matchLength?, startsAt_iff]
  split
  · rename_i occurs
    exact iff_of_true rfl occurs
  · rename_i absent
    exact iff_of_false Bool.false_ne_true absent

/-- What is found first starts at the least occurrence. -/
theorem start_find?_eq_some_iff {n : Needle} {hay : Subject} :
    (n.find? hay start).map Pattern.Span.start = some i ↔
      IsLeast {j | j ∈ n.occurrences hay ∧ start ≤ j} i := by
  rw [Option.map_eq_some_iff]
  constructor
  · rintro ⟨span, found, rfl⟩
    exact (Needle.find?_eq_some_iff.1 found).1
  · intro least
    obtain ⟨length, here⟩ := Option.isSome_iff_exists.1 (Needle.mem_occurrences_iff.1 least.1.1)
    exact ⟨⟨i, length⟩, Needle.find?_eq_some_iff.2 ⟨least, here⟩, rfl⟩

/-- A run of bytes stands first where it occurs first as a needle. -/
theorem runFrom?_eq_find? (hay w : Bytes) (start : Nat) :
    runFrom? hay w start =
      ((Needle.bytes w).find? (.ofBytes hay) start).map Pattern.Span.start := by
  ext i
  rw [runFrom?_eq_some_iff, start_find?_eq_some_iff]
  by_cases empty : w = []
  · refine iff_of_false (fun nonempty => nonempty.1 empty) fun least => ?_
    exact (mem_occurrences_bytes.1 least.1.1).1 empty
  · have positions : {j | j ∈ (Needle.bytes w).occurrences (.ofBytes hay) ∧ start ≤ j} =
        {j | start ≤ j ∧ RunStands hay w j} := by
      ext j
      refine Iff.trans and_comm (and_congr_right fun _ => ?_)
      exact mem_occurrences_bytes.trans (and_iff_right empty)
    rw [positions]
    exact and_iff_right empty

end Shared.Search

namespace Shared

open Arrays (Edit Operand)
open Search (RunStands Stands Visits)

variable {α : Type} [Storable α]

/-- A copy of a view holds the cells of the view. -/
theorem Arrays.operandCells_ofView {a : Arrays α} (counted : a.held.Counted []) (name view : String)
    (seen : (a.views.get? view).isSome = true) :
    (a.apply (.ofView name view)).arrays.operandCells (.array name) =
      a.operandCells (.view view) := by
  obtain ⟨v, found⟩ := Option.isSome_iff_exists.1 seen
  have shows := (counted.bind_alloc name (a.viewCells v)).shows
  rw [operandCells, operandCells, found, apply, found, Holdings.cells_eq]
  exact congrArg (Option.getD · []) shows

/-- **Searches are complete.**  Let an array or a view, whichever it is, hold some cells, and let
cells be compared by whatever equality their type has.  From any position on, looking for a value
finds its least position, and nothing if there is none; looking again right behind each hit comes to
an end after as many hits as the value is counted, at every position of it, in ascending order.
Looking for a run finds the least position where it stands in the cells; an empty run stands
nowhere, and one of a single cell where the cell does.  Whoever holds the same cells gives the same
answers, as the copy of a view does; and bytes are found where a string finds them. -/
theorem searches_complete [BEq α] (edits : List (Edit α)) :
    let a := Arrays.empty.run edits
    (∀ x : Operand, let cells := a.operandCells x
      (∀ value start,
        (∀ i, (Search.find? cells value start).1 = some i ↔
          IsLeast {j | start ≤ j ∧ Stands cells value j} i) ∧
        ((Search.find? cells value start).1 = none ↔
          ∀ j, start ≤ j → ¬ Stands cells value j) ∧
        (cells.length < start → (Search.find? cells value start).1 = none)) ∧
      (∀ value, ∃ is, Visits cells value 0 is ∧ (∀ js, Visits cells value 0 js → js = is) ∧
        is.Pairwise (· < ·) ∧ (∀ i, i ∈ is ↔ Stands cells value i) ∧
        is.length = Search.occurrences cells value) ∧
      (∀ run start,
        (∀ i, Search.runFrom? cells run start = some i ↔
          run ≠ [] ∧ IsLeast {j | start ≤ j ∧ RunStands cells run j} i) ∧
        (Search.runFrom? cells run start = none ↔
          run = [] ∨ ∀ j, start ≤ j → ¬ RunStands cells run j)) ∧
      ∀ value start,
        Search.runFrom? cells [value] start = (Search.find? cells value start).1) ∧
    (∀ x y, a.operandCells x = a.operandCells y → ∀ value run start,
      Search.find? (a.operandCells x) value start = Search.find? (a.operandCells y) value start ∧
      Search.runFrom? (a.operandCells x) run start = Search.runFrom? (a.operandCells y) run start ∧
      Search.occurrences (a.operandCells x) value = Search.occurrences (a.operandCells y) value) ∧
    (∀ name view, (a.views.get? view).isSome = true →
      (a.apply (.ofView name view)).arrays.operandCells (.array name) =
        a.operandCells (.view view)) ∧
    ∀ (hay w : Bytes) start, Search.runFrom? hay w start =
      ((Needle.bytes w).find? (.ofBytes hay) start).map Pattern.Span.start := by
  intro a
  have counted : a.held.Counted [] := Arrays.counted_run Holdings.counted_empty edits
  refine ⟨fun x => ⟨fun value start => ?least, fun value => ?visits, fun run start => ?runs,
      fun value start => Search.runFrom?_singleton⟩,
    fun x y same value run start => ?same,
    fun name view seen => Arrays.operandCells_ofView counted name view seen,
    Search.runFrom?_eq_find?⟩
  case least =>
    refine ⟨fun i => Search.find?_eq_some_iff, Search.find?_eq_none_iff, fun outside => ?_⟩
    refine Search.find?_eq_none_iff.2 fun j above here => ?_
    have inside := here.lt_length
    omega
  case visits =>
    have all : (a.operandCells x).length = 0 + (a.operandCells x).length := (Nat.zero_add _).symm
    have visits : Visits (a.operandCells x) value 0
        (Search.positionsFrom (a.operandCells x) value 0 (a.operandCells x).length) :=
      Search.visits_positions all
    refine ⟨_, visits, fun js other => other.eq visits, ?_, fun i => ?_, ?_⟩
    · exact List.Pairwise.filter _ List.pairwise_lt_range'
    · rw [Search.positionsFrom, List.mem_filter, List.mem_range'_1, decide_eq_true_iff]
      refine and_iff_right_of_imp fun here => ?_
      have inside := here.lt_length
      omega
    · exact Search.length_positionsFrom all
  case runs => exact ⟨fun i => Search.runFrom?_eq_some_iff, Search.runFrom?_eq_none_iff⟩
  case same =>
    rw [same]
    exact ⟨rfl, rfl, rfl⟩

/-- Runs that overlap are all found, the second one by a search from behind the first. -/
example : Search.runFrom? [1, 2, 1, 2, 1] [1, 2, 1] 1 = some 2 := by decide

end Shared

end Bytewise
