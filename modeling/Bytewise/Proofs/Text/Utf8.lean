/-
# Bytewise.Proofs.Text.Utf8 -- well-formed bytes are the bytes of a text

`Character bs c` says that the reader takes the bytes `bs` for the character `c`:
one byte, or a lead byte and the bytes that it owes (`Pays`).  These are the bytes
that `c` is written as (`character_iff`), so

* `pieces_encode`: what was written is read back, in front of any bytes;
* `decode?_eq_some_iff`: bytes read as a text exactly if it is written so;
* `isValid_iff`: bytes are well-formed exactly if they are the bytes of some text.
-/
import Mathlib.Tactic.SplitIfs
import Bytewise.Text.Utf8

namespace Bytewise.Text.Utf8

set_option autoImplicit false

variable {b : UInt8} {o : Owed} {bs rest : Bytes} {n : Nat} {c : Char} {cs : List Char}

/-- The bytes that complete an owed character, and its value. -/
inductive Pays : Owed → Bytes → Nat → Prop
  | last {o : Owed} {b : UInt8} (count : o.count = 0) (low : o.low ≤ b) (high : b ≤ o.high) :
      Pays o [b] (o.next b)
  | more {o : Owed} {b : UInt8} {bs : Bytes} {n left : Nat} (count : o.count = left + 1)
      (low : o.low ≤ b) (high : b ≤ o.high) (rest : Pays ⟨o.next b, left, 0x80, 0xbf⟩ bs n) :
      Pays o (b :: bs) n

/-- The bytes that are read as a character. -/
inductive Character : Bytes → Char → Prop
  | one {b : UInt8} {c : Char} (reads : start b = .char c) : Character [b] c
  | lead {b : UInt8} {o : Owed} {bs : Bytes} {n : Nat} (reads : start b = .lead o)
      (pays : Pays o bs n) : Character (b :: bs) (Char.ofNat n)

/-! ## What is read as a character -/

theorem piecesFrom_of_pays (pays : Pays o bs n) (rest : Bytes) :
    piecesFrom (some o) (bs ++ rest) = some (Char.ofNat n) :: pieces rest := by
  induction pays with
  | last count low high => simp [piecesFrom, pieces, count, low, high]
  | more count low high _ ih => simpa [piecesFrom, count, low, high] using ih

theorem pieces_of_character (character : Character bs c) (rest : Bytes) :
    pieces (bs ++ rest) = some c :: pieces rest := by
  cases character with
  | one reads => simp [pieces, piecesFrom, reads]
  | lead reads pays => simpa [pieces, piecesFrom, reads] using piecesFrom_of_pays pays rest

theorem exists_pays (whole : none ∉ piecesFrom (some o) bs) :
    ∃ paid rest n, bs = paid ++ rest ∧ Pays o paid n := by
  induction bs generalizing o with
  | nil => simp [piecesFrom] at whole
  | cons b bs ih =>
      simp only [piecesFrom] at whole
      split at whole
      · rename_i range
        cases count : o.count with
        | zero => exact ⟨[b], bs, _, rfl, .last count range.1 range.2⟩
        | succ left =>
            rw [count] at whole
            obtain ⟨paid, rest, n, rfl, pays⟩ := ih whole
            exact ⟨b :: paid, rest, n, rfl, .more count range.1 range.2 pays⟩
      · split at whole <;> simp at whole

theorem exists_character (whole : none ∉ pieces (b :: bs)) :
    ∃ first rest c, b :: bs = first ++ rest ∧ Character first c := by
  simp only [pieces, piecesFrom] at whole
  split at whole
  · rename_i c reads
    exact ⟨[b], bs, c, rfl, .one reads⟩
  · rename_i o reads
    obtain ⟨paid, rest, n, rfl, pays⟩ := exists_pays whole
    exact ⟨b :: paid, rest, _, rfl, .lead reads pays⟩
  · simp at whole

/-! ## How many bytes a character takes -/

/-- The first byte says how many bytes a character has; the smallest and the largest of the lead bytes
of one length also say where the next byte begins or ends. -/
theorem start_eq (b : UInt8) :
    start b =
      if b.toNat ≤ 0x7f then .char (Char.ofNat b.toNat)
      else if b.toNat < 0xc2 then .none
      else if b.toNat ≤ 0xdf then .lead ⟨payload b 32, 0, 0x80, 0xbf⟩
      else if b.toNat ≤ 0xef then
        .lead ⟨payload b 16, 1, if b.toNat = 0xe0 then 0xa0 else 0x80,
          if b.toNat = 0xed then 0x9f else 0xbf⟩
      else if b.toNat ≤ 0xf4 then
        .lead ⟨payload b 8, 2, if b.toNat = 0xf0 then 0x90 else 0x80,
          if b.toNat = 0xf4 then 0x8f else 0xbf⟩
      else .none := by
  have bound := b.toNat_lt
  simp only [start, UInt8.le_iff_toNat_le, ← UInt8.toNat_inj, UInt8.reduceToNat]
  split_ifs <;> first | rfl | omega

theorem pays_zero_iff {value : Nat} {low high : UInt8} :
    Pays ⟨value, 0, low, high⟩ bs n ↔
      ∃ b : UInt8, bs = [b] ∧ low.toNat ≤ b.toNat ∧ b.toNat ≤ high.toNat ∧
        value * 64 + b.toNat % 64 = n := by
  constructor
  · intro pays
    cases pays with
    | last _ low high => exact ⟨_, rfl, low, high, rfl⟩
    | more count => cases count
  · rintro ⟨b, rfl, low, high, rfl⟩
    exact .last rfl low high

theorem pays_succ_iff {value count : Nat} {low high : UInt8} :
    Pays ⟨value, count + 1, low, high⟩ bs n ↔
      ∃ (b : UInt8) (rest : Bytes), bs = b :: rest ∧ low.toNat ≤ b.toNat ∧ b.toNat ≤ high.toNat ∧
        Pays ⟨value * 64 + b.toNat % 64, count, 0x80, 0xbf⟩ rest n := by
  constructor
  · intro pays
    cases pays with
    | last count => cases count
    | more count low high rest =>
        cases count
        exact ⟨_, _, rfl, low, high, rest⟩
  · rintro ⟨b, rest, rfl, low, high, rest⟩
    exact .more rfl low high rest

/-! ## What a character is written as -/

theorem toNat_ofNat_of_valid (valid : n.isValidChar) : (Char.ofNat n).val.toNat = n := by
  rw [Char.ofNat, dif_pos valid]
  rfl

section

variable {b₁ b₂ b₃ : UInt8}

/-- A character of two bytes, and the bytes. -/
structure Two (n : Nat) (b b₁ : UInt8) : Prop where
  low : 0x7f < n
  high : n ≤ 0x7ff
  first : b.toNat = n / 64 + 0xc0
  second : b₁.toNat = n % 64 + 0x80

/-- A character of three bytes, and the bytes. -/
structure Three (n : Nat) (b b₁ b₂ : UInt8) : Prop where
  low : 0x7ff < n
  high : n ≤ 0xffff
  valid : n.isValidChar
  first : b.toNat = n / 4096 + 0xe0
  second : b₁.toNat = n / 64 % 64 + 0x80
  third : b₂.toNat = n % 64 + 0x80

/-- A character of four bytes, and the bytes. -/
structure Four (n : Nat) (b b₁ b₂ b₃ : UInt8) : Prop where
  low : 0xffff < n
  high : n < 0x110000
  first : b.toNat = n / 262144 + 0xf0
  second : b₁.toNat = n / 4096 % 64 + 0x80
  third : b₂.toNat = n / 64 % 64 + 0x80
  fourth : b₃.toNat = n % 64 + 0x80

theorem Two.encode (two : Two n b b₁) : String.utf8EncodeChar (Char.ofNat n) = [b, b₁] := by
  obtain ⟨low, high, first, second⟩ := two
  have valid : n.isValidChar := .inl (by omega)
  simp only [String.utf8EncodeChar, toNat_ofNat_of_valid valid]
  rw [if_neg (by omega), if_pos high]
  simp only [List.cons.injEq, and_true, ← UInt8.toNat_inj, UInt8.toNat_ofNat']
  omega

theorem Three.encode (three : Three n b b₁ b₂) :
    String.utf8EncodeChar (Char.ofNat n) = [b, b₁, b₂] := by
  obtain ⟨low, high, valid, first, second, third⟩ := three
  simp only [String.utf8EncodeChar, toNat_ofNat_of_valid valid]
  rw [if_neg (by omega), if_neg (by omega), if_pos high]
  simp only [List.cons.injEq, and_true, ← UInt8.toNat_inj, UInt8.toNat_ofNat']
  omega

theorem Four.encode (four : Four n b b₁ b₂ b₃) :
    String.utf8EncodeChar (Char.ofNat n) = [b, b₁, b₂, b₃] := by
  obtain ⟨low, high, first, second, third, fourth⟩ := four
  have valid : n.isValidChar := .inr (by omega)
  simp only [String.utf8EncodeChar, toNat_ofNat_of_valid valid]
  rw [if_neg (by omega), if_neg (by omega), if_neg (by omega)]
  simp only [List.cons.injEq, and_true, ← UInt8.toNat_inj, UInt8.toNat_ofNat']
  omega

theorem Two.character (two : Two n b b₁) : Character [b, b₁] (Char.ofNat n) := by
  obtain ⟨low, high, first, second⟩ := two
  have reads : start b = .lead ⟨payload b 32, 0, 0x80, 0xbf⟩ := by
    rw [start_eq, if_neg (by omega), if_neg (by omega), if_pos (by omega)]
  refine .lead reads (pays_zero_iff.2 ⟨b₁, rfl, ?_⟩)
  simp only [payload, UInt8.reduceToNat]
  omega

theorem Three.character (three : Three n b b₁ b₂) : Character [b, b₁, b₂] (Char.ofNat n) := by
  obtain ⟨low, high, valid, first, second, third⟩ := three
  have reads : start b = .lead ⟨payload b 16, 1, if b.toNat = 0xe0 then 0xa0 else 0x80,
      if b.toNat = 0xed then 0x9f else 0xbf⟩ := by
    rw [start_eq, if_neg (by omega), if_neg (by omega), if_neg (by omega), if_pos (by omega)]
  have narrow : n < 0xd800 ∨ 0xdfff < n := by
    rcases valid with small | large
    · exact .inl small
    · exact .inr large.1
  refine .lead reads (pays_succ_iff.2 ⟨b₁, [b₂], rfl, ?_, ?_, pays_zero_iff.2 ⟨b₂, rfl, ?_⟩⟩)
  · split <;> simp only [UInt8.reduceToNat] <;> omega
  · split <;> simp only [UInt8.reduceToNat] <;> omega
  · simp only [payload, UInt8.reduceToNat]
    omega

theorem Four.character (four : Four n b b₁ b₂ b₃) :
    Character [b, b₁, b₂, b₃] (Char.ofNat n) := by
  obtain ⟨low, high, first, second, third, fourth⟩ := four
  have reads : start b = .lead ⟨payload b 8, 2, if b.toNat = 0xf0 then 0x90 else 0x80,
      if b.toNat = 0xf4 then 0x8f else 0xbf⟩ := by
    rw [start_eq, if_neg (by omega), if_neg (by omega), if_neg (by omega), if_neg (by omega),
      if_pos (by omega)]
  refine .lead reads (pays_succ_iff.2 ⟨b₁, [b₂, b₃], rfl, ?_, ?_, pays_succ_iff.2
    ⟨b₂, [b₃], rfl, ?_, ?_, pays_zero_iff.2 ⟨b₃, rfl, ?_⟩⟩⟩)
  · split <;> simp only [UInt8.reduceToNat] <;> omega
  · split <;> simp only [UInt8.reduceToNat] <;> omega
  · simp only [UInt8.reduceToNat]
    omega
  · simp only [UInt8.reduceToNat]
    omega
  · simp only [payload, UInt8.reduceToNat]
    omega

/-- What a lead byte owes, by the length of the character. -/
theorem lead_cases (reads : start b = .lead o) :
    (0xc2 ≤ b.toNat ∧ b.toNat ≤ 0xdf ∧ o = ⟨payload b 32, 0, 0x80, 0xbf⟩) ∨
    (0xe0 ≤ b.toNat ∧ b.toNat ≤ 0xef ∧
      o = ⟨payload b 16, 1, if b.toNat = 0xe0 then 0xa0 else 0x80,
        if b.toNat = 0xed then 0x9f else 0xbf⟩) ∨
    (0xf0 ≤ b.toNat ∧ b.toNat ≤ 0xf4 ∧
      o = ⟨payload b 8, 2, if b.toNat = 0xf0 then 0x90 else 0x80,
        if b.toNat = 0xf4 then 0x8f else 0xbf⟩) := by
  rw [start_eq] at reads
  split at reads
  · cases reads
  split at reads
  · cases reads
  split at reads
  · obtain rfl := Start.lead.inj reads
    exact .inl ⟨by omega, by omega, rfl⟩
  split at reads
  · obtain rfl := Start.lead.inj reads
    exact .inr (.inl ⟨by omega, by omega, rfl⟩)
  split at reads
  · obtain rfl := Start.lead.inj reads
    exact .inr (.inr ⟨by omega, by omega, rfl⟩)
  · cases reads

/-- The bounds of a byte that depend on the byte before it. -/
theorem toNat_ite_le {k l m : Nat} {narrow wide : UInt8}
    (bound : (if k = l then narrow else wide).toNat ≤ m) :
    (k = l → narrow.toNat ≤ m) ∧ (k ≠ l → wide.toNat ≤ m) := by
  split at bound <;> simp_all

theorem le_toNat_ite {k l m : Nat} {narrow wide : UInt8}
    (bound : m ≤ (if k = l then narrow else wide).toNat) :
    (k = l → m ≤ narrow.toNat) ∧ (k ≠ l → m ≤ wide.toNat) := by
  split at bound <;> simp_all

theorem encode_of_lead (reads : start b = .lead o) (pays : Pays o bs n) :
    String.utf8EncodeChar (Char.ofNat n) = b :: bs := by
  rcases lead_cases reads with ⟨low, high, rfl⟩ | ⟨low, high, rfl⟩ | ⟨low, high, rfl⟩
  · obtain ⟨b₁, rfl, low₁, high₁, rfl⟩ := pays_zero_iff.1 pays
    simp only [payload, UInt8.reduceToNat] at *
    exact Two.encode ⟨by omega, by omega, by omega, by omega⟩
  · obtain ⟨b₁, _, rfl, low₁, high₁, pays⟩ := pays_succ_iff.1 pays
    obtain ⟨b₂, rfl, low₂, high₂, rfl⟩ := pays_zero_iff.1 pays
    replace low₁ := toNat_ite_le low₁
    replace high₁ := le_toNat_ite high₁
    simp only [payload, UInt8.reduceToNat] at *
    have valid : ((b.toNat % 16 * 64 + b₁.toNat % 64) * 64 + b₂.toNat % 64).isValidChar := by
      rcases Nat.lt_or_ge b.toNat 0xee with small | large
      · exact .inl (by omega)
      · exact .inr (by omega)
    exact Three.encode ⟨by omega, by omega, valid, by omega, by omega, by omega⟩
  · obtain ⟨b₁, _, rfl, low₁, high₁, pays⟩ := pays_succ_iff.1 pays
    obtain ⟨b₂, _, rfl, low₂, high₂, pays⟩ := pays_succ_iff.1 pays
    obtain ⟨b₃, rfl, low₃, high₃, rfl⟩ := pays_zero_iff.1 pays
    replace low₁ := toNat_ite_le low₁
    replace high₁ := le_toNat_ite high₁
    simp only [payload, UInt8.reduceToNat] at *
    exact Four.encode ⟨by omega, by omega, by omega, by omega, by omega, by omega⟩

end

theorem encode_one (ascii : b.toNat ≤ 0x7f) :
    String.utf8EncodeChar (Char.ofNat b.toNat) = [b] := by
  have valid : b.toNat.isValidChar := .inl (by omega)
  simp only [String.utf8EncodeChar, toNat_ofNat_of_valid valid]
  rw [if_pos ascii, UInt8.ofNat_toNat]

/-- The bytes that a character is written as are read as one. -/
theorem character_encode (valid : n.isValidChar) :
    Character (String.utf8EncodeChar (Char.ofNat n)) (Char.ofNat n) := by
  have bound : n < 0x110000 := by
    rcases valid with small | large
    · omega
    · exact large.2
  have value : ∀ m < 256, (UInt8.ofNat m).toNat = m := fun m small => by
    rw [UInt8.toNat_ofNat']
    omega
  rcases Nat.lt_or_ge 0x7f n with above | ascii
  rcases Nat.lt_or_ge 0x7ff n with above' | two
  rcases Nat.lt_or_ge 0xffff n with above'' | three
  · have four : Four n (UInt8.ofNat (n / 262144 + 0xf0)) (UInt8.ofNat (n / 4096 % 64 + 0x80))
        (UInt8.ofNat (n / 64 % 64 + 0x80)) (UInt8.ofNat (n % 64 + 0x80)) :=
      ⟨above'', bound, value _ (by omega), value _ (by omega), value _ (by omega),
        value _ (by omega)⟩
    rw [four.encode]
    exact four.character
  · have three : Three n (UInt8.ofNat (n / 4096 + 0xe0)) (UInt8.ofNat (n / 64 % 64 + 0x80))
        (UInt8.ofNat (n % 64 + 0x80)) :=
      ⟨above', three, valid, value _ (by omega), value _ (by omega), value _ (by omega)⟩
    rw [three.encode]
    exact three.character
  · have two : Two n (UInt8.ofNat (n / 64 + 0xc0)) (UInt8.ofNat (n % 64 + 0x80)) :=
      ⟨above, two, value _ (by omega), value _ (by omega)⟩
    rw [two.encode]
    exact two.character
  · have same := value n (by omega)
    have one : String.utf8EncodeChar (Char.ofNat n) = [UInt8.ofNat n] := by
      have := encode_one (b := UInt8.ofNat n) (by omega)
      rwa [same] at this
    rw [one]
    refine .one ?_
    rw [start_eq, same, if_pos ascii]

/-- What is read as a character is what the character is written as. -/
theorem character_iff : Character bs c ↔ String.utf8EncodeChar c = bs := by
  constructor
  · intro character
    cases character with
    | @one b c reads =>
        rw [start_eq] at reads
        split at reads
        · rename_i ascii
          obtain rfl := Start.char.inj reads
          exact encode_one ascii
        · split_ifs at reads
    | lead reads pays => exact encode_of_lead reads pays
  · rintro rfl
    have character := character_encode (n := c.val.toNat) c.valid
    have same : Char.ofNat c.val.toNat = c := Char.ofNat_toNat c
    rwa [same] at character

/-! ## Texts -/

@[simp] theorem encode_cons (c : Char) (cs : List Char) :
    encode (c :: cs) = String.utf8EncodeChar c ++ encode cs := rfl

theorem pieces_encode_append (cs : List Char) (rest : Bytes) :
    pieces (encode cs ++ rest) = cs.map some ++ pieces rest := by
  induction cs with
  | nil => rfl
  | cons c cs ih =>
      rw [encode_cons, List.append_assoc, pieces_of_character (character_iff.2 rfl), ih]
      rfl

theorem pieces_encode (cs : List Char) : pieces (encode cs) = cs.map some := by
  have whole := pieces_encode_append cs []
  rwa [List.append_nil, show pieces [] = [] from rfl, List.append_nil] at whole

theorem encode_of_pieces (whole : pieces bs = cs.map some) : encode cs = bs := by
  induction cs generalizing bs with
  | nil =>
      cases bs with
      | nil => rfl
      | cons b bs =>
          have complete : none ∉ pieces (b :: bs) := by simp [whole]
          obtain ⟨first, rest, c, split, character⟩ := exists_character complete
          rw [split, pieces_of_character character] at whole
          cases whole
  | cons c cs ih =>
      cases bs with
      | nil => cases whole
      | cons b bs =>
          have complete : none ∉ pieces (b :: bs) := by simp [whole]
          obtain ⟨first, rest, c', split, character⟩ := exists_character complete
          rw [split, pieces_of_character character] at whole
          obtain ⟨same, later⟩ := List.cons.inj whole
          obtain rfl := Option.some.inj same
          rw [encode_cons, character_iff.1 character, ih later, split]

theorem mapM_id_eq_some_iff {l : List (Option Char)} : l.mapM id = some cs ↔ l = cs.map some := by
  induction l generalizing cs with
  | nil => cases cs <;> simp
  | cons c? l ih =>
      cases c? with
      | none => cases cs <;> simp
      | some c =>
          simp only [List.mapM_cons, id, Option.pure_def, Option.bind_eq_bind, Option.bind_some,
            Option.bind_eq_some_iff, Option.some.injEq, ih]
          constructor
          · rintro ⟨ds, rfl, rfl⟩
            rfl
          · intro same
            cases cs with
            | nil => cases same
            | cons d ds =>
                obtain ⟨head, rest⟩ := List.cons.inj same
                obtain rfl := Option.some.inj head
                exact ⟨ds, rest, rfl⟩

/-- Bytes read as a text exactly if the text is written so. -/
theorem decode?_eq_some_iff : decode? bs = some cs ↔ encode cs = bs := by
  rw [decode?, mapM_id_eq_some_iff]
  constructor
  · exact encode_of_pieces
  · rintro rfl
    exact pieces_encode cs

theorem toString?_eq_some_iff {s : String} : toString? bs = some s ↔ ofString s = bs := by
  rw [toString?, Option.map_eq_some_iff, ofString]
  constructor
  · rintro ⟨cs, read, rfl⟩
    rw [String.toList_ofList]
    exact decode?_eq_some_iff.1 read
  · intro written
    exact ⟨s.toList, decode?_eq_some_iff.2 written, String.ofList_toList⟩

/-- Bytes are well-formed exactly if they are the bytes of some text. -/
theorem isValid_iff : isValid bs = true ↔ ∃ s, ofString s = bs := by
  rw [isValid, Option.isSome_iff_exists]
  constructor
  · rintro ⟨cs, read⟩
    exact ⟨String.ofList cs, by rw [ofString, String.toList_ofList, decode?_eq_some_iff.1 read]⟩
  · rintro ⟨s, written⟩
    exact ⟨s.toList, decode?_eq_some_iff.2 written⟩

end Bytewise.Text.Utf8
