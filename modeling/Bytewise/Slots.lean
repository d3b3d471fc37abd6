/-
# Bytewise.Slots -- values kept under names

A list of named values in which every name stands once.  `set` keeps a name
where it is or adds it at the end; `erase` takes it out.
-/
namespace Bytewise

set_option autoImplicit false

abbrev Slots (α : Type) := List (String × α)

namespace Slots

variable {α : Type}

def get? (s : Slots α) (name : String) : Option α :=
  match s with
  | [] => none
  | (k, a) :: rest => if k = name then some a else get? rest name

def set (s : Slots α) (name : String) (a : α) : Slots α :=
  match s with
  | [] => [(name, a)]
  | (k, b) :: rest => if k = name then (name, a) :: rest else (k, b) :: set rest name a

def erase (s : Slots α) (name : String) : Slots α := s.filter fun entry => entry.1 != name

theorem get?_set_self (s : Slots α) (name : String) (a : α) :
    (s.set name a).get? name = some a := by
  induction s with
  | nil => simp [set, get?]
  | cons entry rest ih =>
    obtain ⟨k, b⟩ := entry
    by_cases h : k = name
    · simp [set, get?, h]
    · simpa [set, get?, h] using ih

theorem get?_set_of_ne (s : Slots α) {name other : String} (a : α) (h : other ≠ name) :
    (s.set name a).get? other = s.get? other := by
  induction s with
  | nil => simp [set, get?, Ne.symm h]
  | cons entry rest ih =>
    obtain ⟨k, b⟩ := entry
    by_cases hk : k = name
    · subst hk
      simp [set, get?, Ne.symm h]
    · simp [set, get?, hk, ih]

theorem erase_cons (k name : String) (b : α) (rest : Slots α) :
    Slots.erase ((k, b) :: rest) name =
      if k = name then Slots.erase rest name else (k, b) :: Slots.erase rest name := by
  by_cases h : k = name <;> simp [erase, h]

theorem get?_erase_self (s : Slots α) (name : String) : (s.erase name).get? name = none := by
  induction s with
  | nil => rfl
  | cons entry rest ih =>
    obtain ⟨k, b⟩ := entry
    rw [erase_cons]
    by_cases h : k = name
    · rwa [if_pos h]
    · rwa [if_neg h, get?, if_neg h]

theorem get?_erase_of_ne (s : Slots α) {name other : String} (h : other ≠ name) :
    (s.erase name).get? other = s.get? other := by
  induction s with
  | nil => rfl
  | cons entry rest ih =>
    obtain ⟨k, b⟩ := entry
    rw [erase_cons]
    by_cases hk : k = name
    · subst hk
      rwa [if_pos rfl, get?, if_neg (Ne.symm h)]
    · rw [if_neg hk, get?, get?, ih]

/-! ## Names that stand once -/

def names (s : Slots α) : List String := s.map Prod.fst

def values (s : Slots α) : List α := s.map Prod.snd

/-- Every name stands once. -/
def Distinct (s : Slots α) : Prop := s.names.Nodup

theorem get?_eq_none_iff (s : Slots α) (name : String) : s.get? name = none ↔ name ∉ s.names := by
  induction s with
  | nil => simp [get?, names]
  | cons entry rest ih =>
    obtain ⟨k, b⟩ := entry
    by_cases h : k = name
    · simp [get?, names, h]
    · simpa [get?, names, h, Ne.symm h] using ih

theorem erase_of_get?_eq_none {s : Slots α} {name : String} (absent : s.get? name = none) :
    s.erase name = s := by
  rw [get?_eq_none_iff] at absent
  refine List.filter_eq_self.2 fun entry mem => ?_
  have other : entry.1 ≠ name := fun same => absent (same ▸ List.mem_map_of_mem mem)
  simpa using other

theorem set_of_get? {s : Slots α} {name : String} {a : α} (found : s.get? name = some a) :
    s.set name a = s := by
  induction s with
  | nil => simp [get?] at found
  | cons entry rest ih =>
    obtain ⟨k, b⟩ := entry
    by_cases h : k = name
    · subst h
      have same : b = a := by simpa [get?] using found
      simp [set, same]
    · rw [set, if_neg h, ih (by simpa [get?, h] using found)]

theorem mem_values_of_get? {s : Slots α} {name : String} {a : α} (found : s.get? name = some a) :
    a ∈ s.values := by
  induction s with
  | nil => simp [get?] at found
  | cons entry rest ih =>
    obtain ⟨k, b⟩ := entry
    by_cases h : k = name
    · have same : b = a := by simpa [get?, h] using found
      simp [values, same]
    · exact List.mem_cons_of_mem _ (ih (by simpa [get?, h] using found))

theorem Distinct.get?_of_mem {s : Slots α} (distinct : s.Distinct) {entry : String × α}
    (mem : entry ∈ s) : s.get? entry.1 = some entry.2 := by
  induction s with
  | nil => exact absurd mem List.not_mem_nil
  | cons first rest ih =>
    obtain ⟨k, b⟩ := first
    obtain ⟨once, tail⟩ := List.nodup_cons.1 distinct
    rcases List.mem_cons.1 mem with rfl | later
    · simp [get?]
    · have named : entry.1 ∈ rest.map Prod.fst := List.mem_map_of_mem later
      have other : k ≠ entry.1 := fun same => once (same ▸ named)
      rw [get?, if_neg other, ih tail later]

theorem Distinct.erase {s : Slots α} (distinct : s.Distinct) (name : String) :
    (s.erase name).Distinct :=
  distinct.sublist (List.filter_sublist.map _)

theorem Distinct.set_perm {s : Slots α} (distinct : s.Distinct) (name : String) (a : α) :
    (s.set name a).Perm ((name, a) :: s.erase name) := by
  induction s with
  | nil => exact List.Perm.refl _
  | cons entry rest ih =>
    obtain ⟨k, b⟩ := entry
    obtain ⟨once, tail⟩ := List.nodup_cons.1 distinct
    by_cases h : k = name
    · subst h
      have absent : Slots.erase rest k = rest :=
        erase_of_get?_eq_none ((get?_eq_none_iff rest k).2 once)
      rw [erase_cons, if_pos rfl, absent, set, if_pos rfl]
    · rw [erase_cons, if_neg h, set, if_neg h]
      exact ((ih tail).cons _).trans (.swap _ _ _)

theorem Distinct.perm_of_get? {s : Slots α} (distinct : s.Distinct) {name : String} {a : α}
    (found : s.get? name = some a) : s.Perm ((name, a) :: s.erase name) := by
  have same := distinct.set_perm name a
  rwa [set_of_get? found] at same

theorem Distinct.set {s : Slots α} (distinct : s.Distinct) (name : String) (a : α) :
    (s.set name a).Distinct := by
  refine ((distinct.set_perm name a).map Prod.fst).nodup_iff.2 (List.nodup_cons.2 ⟨?_, ?_⟩)
  · exact (get?_eq_none_iff _ name).1 (get?_erase_self s name)
  · exact distinct.erase name

end Slots

end Bytewise
