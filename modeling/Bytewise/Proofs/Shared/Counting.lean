/-
# Bytewise.Proofs.Shared.Counting -- a heap that counts its handles

`Heap.Counted` says that the reference counts of a heap are those of a list of
handles, in which null handles do not matter: no matter in what order the
handles are counted in and out, a block has the count of its handles in the list.

An operation takes one handle, counted beside others, and gives a heap and the
handle in its place.  `Shows` is what all of them promise: the counts are right
again, and the other handles show the cells they did.  `Writes` adds that the
handle is alone with its block, which is why cells can be changed in place:

* `Counted.move`, `Counted.detach`, `Counted.own`, `Counted.modify`, `Counted.edit` are the ways
  to get there;
* `Counted.resize?`, `Counted.truncate?`, `Counted.fill?`, `Counted.duplicate`,
  `Counted.store?`, `Counted.setAt?` are the operations made of them, with the
  cells that each leaves.
-/
import Bytewise.Shared.Resize

namespace Bytewise.Shared.Heap

set_option autoImplicit false

variable {α : Type} {h : Heap α} {x y : Handle} {xs ys : List Handle}

/-! ## Blocks -/

theorem lt_of_block? {i : Nat} {b : Block α} (found : h.block? i = some b) :
    i < h.blocks.length := by
  rcases Nat.lt_or_ge i h.blocks.length with live | out
  · exact live
  · simp [block?, List.getElem?_eq_none out] at found

theorem block?_put_self {i : Nat} (live : i < h.blocks.length) (b : Option (Block α)) :
    (h.put i b).block? i = b := by
  simp [put, block?, live]

theorem block?_put_of_ne {i j : Nat} (other : i ≠ j) (b : Option (Block α)) :
    (h.put i b).block? j = h.block? j := by
  simp [put, block?, other]

theorem put_put (h : Heap α) (i : Nat) (a b : Option (Block α)) :
    (h.put i a).put i b = h.put i b := by
  simp [put]

theorem put_self {i : Nat} {b : Block α} (found : h.block? i = some b) : h.put i (some b) = h := by
  have stands : h.blocks[i]? = some (some b) := Option.join_eq_some_iff.1 found
  obtain ⟨bound, same⟩ := List.getElem?_eq_some_iff.1 stands
  rw [put, ← same, List.set_getElem_self]

theorem adjust_of_block? {i : Nat} {b : Block α} (found : h.block? i = some b)
    (f : Block α → Option (Block α)) : h.adjust (some i) f = h.put i (f b) := by
  simp [adjust, found]

theorem block?_adjust (h : Heap α) (x : Handle) (f : Block α → Option (Block α)) (j : Nat) :
    (h.adjust x f).block? j = if x = some j then (h.block? j).bind f else h.block? j := by
  cases x with
  | none => rfl
  | some i =>
      cases found : h.block? i with
      | none =>
          by_cases same : i = j
          · subst same
            simp [adjust, found]
          · simp [adjust, found, same]
      | some b =>
          rw [adjust_of_block? found]
          by_cases same : i = j
          · subst same
            simp [block?_put_self (lt_of_block? found), found]
          · simp [block?_put_of_ne same, same]

theorem block?_alloc (h : Heap α) (cells : List α) (j : Nat) :
    (h.alloc cells).1.block? j =
      if j = h.blocks.length then some ⟨cells, 1⟩ else h.block? j := by
  by_cases fresh : j = h.blocks.length
  · simp [alloc, block?, fresh]
  · by_cases old : j < h.blocks.length
    · simp [alloc, block?, fresh, List.getElem?_append_left old]
    · have before : h.blocks[j]? = none := List.getElem?_eq_none (Nat.le_of_not_lt old)
      have after : (h.blocks ++ [some ⟨cells, 1⟩])[j]? = none := by
        refine List.getElem?_eq_none ?_
        rw [List.length_append, List.length_singleton]
        omega
      rw [if_neg fresh, alloc, block?, block?, before, after]

@[simp] theorem refs_none (h : Heap α) : h.refs none = 0 := rfl

@[simp] theorem contents?_none (h : Heap α) : h.contents? none = none := rfl

theorem refs_some (h : Heap α) (i : Nat) :
    h.refs (some i) = ((h.block? i).map Block.refs).getD 0 := by
  cases found : h.block? i <;> simp [refs, found]

theorem contents?_some (h : Heap α) (i : Nat) :
    h.contents? (some i) = some (((h.block? i).map Block.cells).getD []) := by
  cases found : h.block? i <;> simp [contents?, cells, found]

theorem cells_eq (h : Heap α) (x : Handle) : h.cells x = (h.contents? x).getD [] := by
  cases x <;> rfl

theorem contents?_map (h : Heap α) (x : Handle) (f : List α → List α) :
    ((h.contents? x).map fun _ => f (h.cells x)) = (h.contents? x).map f := by
  cases x <;> rfl

/-! ## What counting leaves of the cells -/

theorem contents?_retain (h : Heap α) (x y : Handle) :
    (h.retain x).contents? y = h.contents? y := by
  cases y with
  | none => rfl
  | some j =>
      rw [contents?_some, contents?_some, retain, block?_adjust]
      split <;> cases h.block? j <;> rfl

theorem contents?_release (kept : y = x → 1 < h.refs x) :
    (h.release x).contents? y = h.contents? y := by
  cases y with
  | none => rfl
  | some j =>
      rw [contents?_some, contents?_some, release, block?_adjust]
      split
      case isTrue same =>
        have many := kept same.symm
        rw [same, refs_some] at many
        cases found : h.block? j with
        | none => simp [found] at many
        | some b =>
            have more : ¬ b.refs ≤ 1 := by simpa [found] using many
            simp [more]
      case isFalse other => rfl

theorem contents?_write_of_ne (cells : List α) (other : y ≠ x) :
    (h.write x cells).contents? y = h.contents? y := by
  cases y with
  | none => rfl
  | some j => rw [contents?_some, contents?_some, write, block?_adjust, if_neg (Ne.symm other)]

theorem contents?_write_self (cells : List α) (live : ∀ i, x = some i → 0 < h.refs x) :
    (h.write x cells).contents? x = (h.contents? x).map fun _ => cells := by
  cases x with
  | none => rfl
  | some i =>
      have counted := live i rfl
      rw [refs_some] at counted
      rw [contents?_some, contents?_some, write, block?_adjust, if_pos rfl]
      cases found : h.block? i with
      | none => simp [found] at counted
      | some b => rfl

theorem contents?_alloc_of_ne (cells : List α) (old : y ≠ (h.alloc cells).2) :
    (h.alloc cells).1.contents? y = h.contents? y := by
  cases y with
  | none => rfl
  | some j =>
      have index : j ≠ h.blocks.length := fun same => old (congrArg some same)
      rw [contents?_some, contents?_some, block?_alloc, if_neg index]

theorem contents?_alloc_self (h : Heap α) (cells : List α) :
    (h.alloc cells).1.contents? (h.alloc cells).2 = some cells := by
  have fresh := block?_alloc h cells h.blocks.length
  rw [if_pos rfl] at fresh
  rw [show (h.alloc cells).2 = some h.blocks.length from rfl, contents?_some, fresh]
  rfl

theorem refs_alloc_self (h : Heap α) (cells : List α) :
    (h.alloc cells).1.refs (h.alloc cells).2 = 1 := by
  have fresh := block?_alloc h cells h.blocks.length
  rw [if_pos rfl] at fresh
  rw [show (h.alloc cells).2 = some h.blocks.length from rfl, refs_some, fresh]
  rfl

/-! ## Counts -/

/-- The counts of the heap are those of a list of handles. -/
def Counted (h : Heap α) (xs : List Handle) : Prop := ∀ i, h.refs (some i) = xs.count (some i)

theorem Counted.congr (counted : h.Counted xs)
    (same : ∀ i, ys.count (some i) = xs.count (some i)) : h.Counted ys :=
  fun i => (counted i).trans (same i).symm

theorem Counted.live (counted : h.Counted xs) {i : Nat} (mem : some i ∈ xs) :
    0 < h.refs (some i) := by
  rw [counted i]
  exact List.count_pos_iff.2 mem

/-- The handle is null, or alone with its block. -/
def Alone (x : Handle) (xs : List Handle) : Prop := ∀ i, x = some i → some i ∉ xs

theorem Counted.alone_iff (counted : h.Counted (x :: xs)) : Alone x xs ↔ h.refs x ≤ 1 := by
  cases x with
  | none => simp [Alone]
  | some i =>
      have count := counted i
      rw [List.count_cons_self] at count
      have absent : some i ∉ xs ↔ xs.count (some i) = 0 := List.count_eq_zero.symm
      simp only [Alone, Option.some.injEq, forall_eq', absent, count]
      omega

theorem Counted.retain (counted : h.Counted xs) (held : y = none ∨ y ∈ xs) :
    (h.retain y).Counted (y :: xs) := by
  intro j
  rw [refs_some, Heap.retain, block?_adjust]
  split
  case isTrue same =>
    subst same
    have mem : some j ∈ xs := held.resolve_left (by simp)
    have live := counted.live mem
    have count := counted j
    rw [refs_some] at live count
    rw [List.count_cons_self, ← count]
    cases found : h.block? j with
    | none => simp [found] at live
    | some b => rfl
  case isFalse other =>
    rw [← refs_some, counted j, List.count_cons_of_ne other]

theorem Counted.release (counted : h.Counted (x :: xs)) : (h.release x).Counted xs := by
  intro j
  have count := counted j
  rw [refs_some] at count
  rw [refs_some, Heap.release, block?_adjust]
  split
  case isTrue same =>
    subst same
    rw [List.count_cons_self] at count
    cases found : h.block? j with
    | none => simp [found] at count
    | some b =>
        have refs : b.refs = xs.count (some j) + 1 := by simpa [found] using count
        by_cases last : b.refs ≤ 1
        · have gone : xs.count (some j) = 0 := by omega
          simp [last, gone]
        · rw [Option.bind_some, if_neg last]
          simp [refs]
  case isFalse other =>
    rw [count, List.count_cons_of_ne other]

theorem Counted.fresh (counted : h.Counted xs) (cells : List α) : (h.alloc cells).2 ∉ xs := by
  intro mem
  have live := counted.live mem
  simp [refs_some, block?] at live

theorem Counted.alloc (counted : h.Counted xs) (cells : List α) :
    (h.alloc cells).1.Counted ((h.alloc cells).2 :: xs) := by
  intro j
  have fresh := counted.fresh cells
  rw [refs_some, block?_alloc]
  split
  case isTrue same =>
    subst same
    have absent : xs.count (some h.blocks.length) = 0 := List.count_eq_zero.2 fresh
    have count : ((h.alloc cells).2 :: xs).count (some h.blocks.length) = 1 := by
      rw [Heap.alloc, List.count_cons_self, absent]
    rw [count]
    rfl
  case isFalse old =>
    have other : (h.alloc cells).2 ≠ some j := fun same => old (Option.some.inj same).symm
    rw [← refs_some, counted j, List.count_cons_of_ne other]

theorem Counted.write (counted : h.Counted xs) (x : Handle) (cells : List α) :
    (h.write x cells).Counted xs := by
  intro j
  rw [← counted j, refs_some, refs_some, Heap.write, block?_adjust]
  split
  · cases h.block? j <;> rfl
  · rfl

/-- A handle that is counted in and out again leaves the heap as it was. -/
theorem release_retain (live : ∀ i, y = some i → 0 < h.refs y) : (h.retain y).release y = h := by
  cases y with
  | none => rfl
  | some i =>
      have counted := live i rfl
      rw [refs_some] at counted
      cases found : h.block? i with
      | none => simp [found] at counted
      | some b =>
          have more : ¬ b.refs + 1 ≤ 1 := by
            rw [found] at counted
            exact Nat.not_le.2 (Nat.succ_lt_succ counted)
          rw [retain, adjust_of_block? found, release,
            adjust_of_block? (block?_put_self (lt_of_block? found) _), put_put, if_neg more,
            Nat.add_sub_cancel]
          exact put_self found

/-! ## What an operation promises -/

/-- `made` is a heap and a handle that shows `contents?` in it; the handles `xs` show there what
they show in `h`. -/
structure Shows (h : Heap α) (xs : List Handle) (made : Heap α × Handle)
    (contents? : Option (List α)) : Prop where
  counted : made.1.Counted (made.2 :: xs)
  shows : made.1.contents? made.2 = contents?
  frame : ∀ y ∈ xs, made.1.contents? y = h.contents? y

/-- As `Shows`, and no handle of `xs` is on the block of the one that was made. -/
structure Writes (h : Heap α) (xs : List Handle) (made : Heap α × Handle)
    (contents? : Option (List α)) : Prop extends Shows h xs made contents? where
  alone : Alone made.2 xs

theorem Writes.trans {made again : Heap α × Handle} {first second : Option (List α)}
    (one : Writes h xs made first) (two : Writes made.1 xs again second) :
    Writes h xs again second where
  counted := two.counted
  shows := two.shows
  alone := two.alone
  frame := fun y mem => (two.frame y mem).trans (one.frame y mem)

theorem Counted.shows_null (counted : h.Counted xs) : Shows h xs (h, none) none where
  counted := counted.congr fun i => List.count_cons_of_ne (by simp)
  shows := rfl
  frame := fun _ _ => rfl

theorem Counted.shows_retain (counted : h.Counted xs) (held : y = none ∨ y ∈ xs) :
    Shows h xs (h.retain y, y) (h.contents? y) where
  counted := counted.retain held
  shows := contents?_retain h y y
  frame := fun z _ => contents?_retain h y z

theorem Counted.writes_alloc (counted : h.Counted xs) (cells : List α) :
    Writes h xs (h.alloc cells) (some cells) where
  counted := counted.alloc cells
  shows := contents?_alloc_self h cells
  alone := fun _ same mem => counted.fresh cells (same ▸ mem)
  frame := fun _ mem => contents?_alloc_of_ne cells fun same => counted.fresh cells (same ▸ mem)

theorem Counted.frame_release (counted : h.Counted (x :: xs)) (mem : y ∈ xs) :
    (h.release x).contents? y = h.contents? y := by
  cases y with
  | none => rfl
  | some j =>
      refine contents?_release fun same => ?_
      subst same
      have count := counted j
      have more := List.count_pos_iff.2 mem
      rw [List.count_cons_self] at count
      omega

theorem Counted.move (counted : h.Counted (x :: xs)) (cells : List α) :
    Writes h xs (h.move x cells) (some cells) :=
  have moved := counted.release.writes_alloc cells
  { moved with frame := fun y mem => (moved.frame y mem).trans (counted.frame_release mem) }

theorem Counted.shows_self (counted : h.Counted (x :: xs)) : Shows h xs (h, x) (h.contents? x) where
  counted := counted
  shows := rfl
  frame := fun _ _ => rfl

theorem Counted.writes_self (counted : h.Counted (x :: xs)) (alone : Alone x xs) :
    Writes h xs (h, x) (h.contents? x) :=
  { counted.shows_self with alone := alone }

/-- Another handle, counted beside the one that was made, is let go of. -/
theorem Shows.release {made : Heap α × Handle} {contents? : Option (List α)}
    (shows : Shows h (x :: xs) made contents?) :
    Shows h xs (made.1.release x, made.2) contents? := by
  have both : made.1.Counted (x :: made.2 :: xs) :=
    shows.counted.congr fun i => (List.Perm.swap _ _ _).count_eq (some i)
  refine ⟨both.release, ?_, fun y mem => ?_⟩
  · exact (both.frame_release List.mem_cons_self).trans shows.shows
  · exact (both.frame_release (List.mem_cons_of_mem _ mem)).trans
      (shows.frame y (List.mem_cons_of_mem _ mem))

theorem Counted.writes_write (counted : h.Counted (x :: xs)) (alone : Alone x xs)
    (cells : List α) : Writes h xs (h.write x cells, x) ((h.contents? x).map fun _ => cells) where
  counted := counted.write x cells
  shows := contents?_write_self cells fun _ same => same ▸ counted.live (same ▸ List.mem_cons_self)
  alone := alone
  frame := by
    intro y mem
    cases y with
    | none => rfl
    | some j => exact contents?_write_of_ne cells fun same => alone j same.symm mem

theorem Counted.detach (counted : h.Counted (x :: xs)) :
    Writes h xs (h.detach x) (h.contents? x) := by
  rw [Heap.detach]
  split
  case isTrue shared =>
    cases x with
    | none => simp [isShared] at shared
    | some i => exact counted.move _
  case isFalse unshared =>
    refine counted.writes_self (counted.alone_iff.2 ?_)
    simpa [isShared] using unshared

theorem Counted.modify (counted : h.Counted (x :: xs)) (f : List α → List α) :
    Writes h xs (h.modify x f) ((h.contents? x).map f) := by
  have detached := counted.detach
  have written := detached.counted.writes_write detached.alone
    (f ((h.detach x).1.cells (h.detach x).2))
  rw [contents?_map, detached.shows] at written
  exact detached.trans written

/-- A block with one handle is kept. -/
theorem own_of_refs_eq_one (one : h.refs x = 1) : h.own x = (h, x) := by
  cases x with
  | none => exact absurd one (by simp)
  | some i => simp [own, detach, isShared, one]

theorem Counted.own (counted : h.Counted (x :: xs)) : Writes h xs (h.own x) (some (h.cells x)) := by
  cases x with
  | none => exact counted.release.writes_alloc []
  | some i => exact counted.detach

theorem Counted.edit (counted : h.Counted (x :: xs)) (f : List α → List α) :
    Writes h xs (h.edit x f) (some (f (h.cells x))) := by
  have owned := counted.own
  have written := owned.counted.writes_write owned.alone (f ((h.own x).1.cells (h.own x).2))
  rw [contents?_map, owned.shows] at written
  exact owned.trans written

/-- A block with one handle is alone, and written in place. -/
theorem Counted.writes_in_place (counted : h.Counted (x :: xs)) (one : h.refs x = 1)
    (cells : List α) : Writes h xs (h.write x cells, x) (some cells) := by
  have written := counted.writes_write (counted.alone_iff.2 (Nat.le_of_eq one)) cells
  cases x with
  | none => simp at one
  | some i => exact written

theorem Counted.duplicate (counted : h.Counted (x :: xs)) (cells : List α) :
    Writes h xs (h.duplicate x cells) (some cells) := by
  rw [Heap.duplicate]
  split
  case isTrue same => exact counted.writes_in_place same.1 cells
  case isFalse other => exact counted.move cells

theorem setAt?_of_lt {i : Nat} (inside : i < (h.cells x).length) (value : α) :
    h.setAt? x i value = some (h.modify x fun cells => cells.set i value) :=
  if_pos inside

theorem setAt?_of_le {i : Nat} (outside : (h.cells x).length ≤ i) (value : α) :
    h.setAt? x i value = none :=
  if_neg (Nat.not_lt.2 outside)

theorem Counted.setAt? {made : Heap α × Handle} (counted : h.Counted (x :: xs))
    {i : Nat} {value : α}
    (done : h.setAt? x i value = some made) :
    Writes h xs made ((h.contents? x).map fun cells => cells.set i value) := by
  rw [Heap.setAt?] at done
  split at done
  · obtain rfl := Option.some.inj done
    exact counted.modify _
  · simp at done

/-! ## Arrays of another size -/

variable [Storable α] {made : Heap α × Handle} {size : Nat}

theorem Counted.resize? (counted : h.Counted (x :: xs)) (done : h.resize? x size = some made) :
    Writes h xs made (some (resized (h.cells x) size)) := by
  rw [Heap.resize?] at done
  split at done
  case isTrue one =>
    split at done
    · simp at done
    · obtain rfl := Option.some.inj done
      exact counted.writes_in_place one _
  case isFalse shared =>
    split at done
    · obtain rfl := Option.some.inj done
      exact counted.move _
    · simp at done

theorem resize?_ne_none (x : Handle) (had : fits α size) : h.resize? x size ≠ none := by
  rw [Heap.resize?]
  split <;> simp [had]

/-- Memory is what a resizing can fail for, and all that it can fail for. -/
theorem resize?_eq_none_iff (fit : fits α (h.cells x).length) :
    h.resize? x size = none ↔ ¬ fits α size := by
  constructor
  · exact fun failed had => resize?_ne_none x had failed
  · intro lacking
    have longer : (h.cells x).length < size :=
      Nat.lt_of_not_le fun less => lacking (fits_of_le fit less)
    rw [Heap.resize?]
    split <;> simp [lacking, longer]

theorem truncate?_of_lt (less : size < (h.cells x).length) :
    h.truncate? x size = h.resize? x size :=
  if_pos less

theorem truncate?_of_le (enough : (h.cells x).length ≤ size) :
    h.truncate? x size = some (h, x) :=
  if_neg (Nat.not_lt.2 enough)

theorem Counted.truncate? (counted : h.Counted (x :: xs)) (less : size < (h.cells x).length)
    (done : h.truncate? x size = some made) :
    Writes h xs made ((h.contents? x).map fun cells => cells.take size) := by
  rw [truncate?_of_lt less] at done
  have written := counted.resize? done
  rw [resized, Nat.sub_eq_zero_of_le (Nat.le_of_lt less), List.replicate_zero,
    List.append_nil] at written
  cases x with
  | none => exact absurd less (Nat.not_lt_zero size)
  | some i => exact written

/-- Resizing and then setting all cells. -/
theorem Counted.resize?_modify {r : Heap α × Handle} (counted : h.Counted (x :: xs))
    (done : h.resize? x size = some r) (f : List α → List α) :
    Writes h xs (r.1.modify r.2 f) (some (f (resized (h.cells x) size))) := by
  have first := counted.resize? done
  have second := first.counted.modify f
  rw [first.shows] at second
  exact first.trans second

theorem length_resized (cells : List α) (size : Nat) : (resized cells size).length = size := by
  simp only [resized, List.length_append, List.length_take, List.length_replicate]
  omega

theorem Counted.fill? (counted : h.Counted (x :: xs)) (value : α)
    (done : h.fill? x value (some size) = some made) :
    Writes h xs made (some (List.replicate size value)) := by
  obtain ⟨r, first, rfl⟩ := Option.map_eq_some_iff.1 done
  have written := counted.resize?_modify first fun cells => cells.map fun _ => value
  rwa [List.map_const', length_resized] at written

theorem Counted.store? (counted : h.Counted (x :: xs)) {cells : List α}
    (done : h.store? x cells = some made) : Writes h xs made (some cells) := by
  obtain ⟨r, first, rfl⟩ := Option.map_eq_some_iff.1 done
  exact counted.resize?_modify first fun _ => cells

end Bytewise.Shared.Heap
