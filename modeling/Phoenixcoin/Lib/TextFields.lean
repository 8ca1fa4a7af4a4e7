import Mathlib.Algebra.Group.Nat.Defs
import Mathlib.Data.List.TakeWhile

/-!
# Text in fields

Bytes as ASCII text: decimal numbers as they are printed and read, and the words between blanks.
What was printed is read back, also with zeros in front, up to the first byte that is no digit.
-/

set_option autoImplicit false

namespace Phoenixcoin.Lib

open List

/-! ## Numbers -/

def isDigit (c : UInt8) : Bool := 48 ≤ c ∧ c ≤ 57

/-- The white space of the C locale. -/
def isBlank (c : UInt8) : Bool := c = 32 ∨ 9 ≤ c ∧ c ≤ 13

def charByte (c : Char) : UInt8 := UInt8.ofNat c.toNat

/-- The bytes of an ASCII text. -/
def ascii (s : String) : List UInt8 := s.toList.map charByte

/-- A number in decimal. -/
def numeral (n : ℕ) : List UInt8 := (Nat.toDigits 10 n).map charByte

/-- A number in decimal with zeros in front up to a width. -/
def paddedNumeral (width n : ℕ) : List UInt8 :=
  replicate (width - (numeral n).length) 48 ++ numeral n

/-- What `printf` makes of an integer with zeros in front up to a width. -/
def printInt (width : ℕ) (v : ℤ) : List UInt8 :=
  if v < 0 then 45 :: paddedNumeral (width - 1) v.natAbs else paddedNumeral width v.toNat

/-- The number that digits stand for. -/
def ofNumeral (digits : List UInt8) : ℕ :=
  Nat.ofDigitChars 10 (digits.map fun c => Char.ofNat c.toNat) 0

theorem charByte_of_isDigit {c : Char} (h : c.isDigit) :
    isDigit (charByte c) ∧ Char.ofNat (charByte c).toNat = c := by
  obtain ⟨hlow, hhigh⟩ : 48 ≤ c.toNat ∧ c.toNat ≤ 57 := by
    simpa [Char.isDigit, UInt32.le_iff_toNat_le] using h
  have hbyte : (charByte c).toNat = c.toNat := by
    rw [charByte, UInt8.toNat_ofNat']
    omega
  constructor
  · simp only [isDigit, UInt8.le_iff_toNat_le, hbyte, decide_eq_true_eq]
    exact ⟨hlow, hhigh⟩
  · rw [hbyte, Char.ofNat_toNat]

variable {c : UInt8} {n width : ℕ}

theorem numeral_isDigit (h : c ∈ numeral n) : isDigit c := by
  obtain ⟨d, hd, rfl⟩ := mem_map.mp h
  exact (charByte_of_isDigit (Nat.isDigit_of_mem_toDigits (by decide) (by decide) hd)).1

theorem numeral_ne_nil (n : ℕ) : numeral n ≠ [] := by
  simp [numeral, Nat.toDigits_ne_nil]

theorem chars_numeral (n : ℕ) :
    (numeral n).map (fun c => Char.ofNat c.toNat) = Nat.toDigits 10 n := by
  rw [numeral, map_map]
  have hback : ∀ c ∈ Nat.toDigits 10 n,
      ((fun c : UInt8 => Char.ofNat c.toNat) ∘ charByte) c = id c := by
    intro c hc
    exact (charByte_of_isDigit (Nat.isDigit_of_mem_toDigits (by decide) (by decide) hc)).2
  rw [map_congr_left hback, map_id]

theorem paddedNumeral_isDigit {width n : ℕ} {c : UInt8} (h : c ∈ paddedNumeral width n) :
    isDigit c := by
  rcases mem_append.mp h with h | h
  · rw [eq_of_mem_replicate h]
    decide
  · exact numeral_isDigit h

theorem paddedNumeral_ne_nil (width n : ℕ) : paddedNumeral width n ≠ [] := by
  simp [paddedNumeral, numeral_ne_nil]

theorem ofNumeral_append (s t : List UInt8) :
    ofNumeral (s ++ t) = ofNumeral s * 10 ^ t.length + ofNumeral t := by
  unfold ofNumeral
  rw [map_append, Nat.ofDigitChars_append, Nat.ofDigitChars_eq_ofDigitChars_zero,
    length_map, Nat.mul_comm]

theorem toNat_ofNat_byte (c : UInt8) : (Char.ofNat c.toNat).toNat = c.toNat := by
  have hvalid : c.toNat.isValidChar := Or.inl (c.toNat_lt.trans (by decide))
  rw [Char.ofNat, dif_pos hvalid]
  rfl

theorem ofNumeral_singleton (c : UInt8) : ofNumeral [c] = c.toNat - 48 := by
  rw [ofNumeral, map_singleton, Nat.ofDigitChars_cons, toNat_ofNat_byte, Nat.zero_add]
  rfl

theorem ofNumeral_cons (c : UInt8) (s : List UInt8) :
    ofNumeral (c :: s) = (c.toNat - 48) * 10 ^ s.length + ofNumeral s := by
  rw [← ofNumeral_singleton, ← ofNumeral_append, singleton_append]

theorem ofNumeral_lt {s : List UInt8} (hs : ∀ c ∈ s, isDigit c) : ofNumeral s < 10 ^ s.length := by
  induction s with
  | nil => decide
  | cons c s ih =>
    have hc := hs c mem_cons_self
    have hrest := ih fun d hd => hs d (mem_cons_of_mem c hd)
    rw [ofNumeral_cons, length_cons]
    simp only [isDigit, decide_eq_true_eq, UInt8.le_iff_toNat_le, UInt8.reduceToNat] at hc
    have hdigit := Nat.mul_le_mul_right (10 ^ s.length) (show c.toNat - 48 ≤ 9 by omega)
    omega

theorem ofNumeral_zeros (k : ℕ) : ofNumeral (replicate k 48) = 0 := by
  rw [ofNumeral, map_replicate, show Char.ofNat (48 : UInt8).toNat = '0' by decide,
    Nat.ofDigitChars_replicate_zero, Nat.mul_zero]

theorem length_numeral_le (hwidth : 0 < width) (h : n < 10 ^ width) :
    (numeral n).length ≤ width := by
  rwa [numeral, length_map, Nat.length_toDigits_le_iff (by decide) hwidth]

theorem length_paddedNumeral (hwidth : 0 < width) (h : n < 10 ^ width) :
    (paddedNumeral width n).length = width := by
  have hlength := length_numeral_le hwidth h
  rw [paddedNumeral, length_append, length_replicate]
  omega

theorem ofNumeral_paddedNumeral (width n : ℕ) : ofNumeral (paddedNumeral width n) = n := by
  rw [paddedNumeral, ofNumeral_append, ofNumeral_zeros, Nat.zero_mul, Nat.zero_add, ofNumeral,
    chars_numeral, Nat.ofDigitChars_ten_toDigits]

/-- A number that fills the width is printed as it is. -/
theorem paddedNumeral_of_le (hwidth : 0 < width) (h : 10 ^ width ≤ n) :
    paddedNumeral (width + 1) n = numeral n := by
  have hlength : ¬(Nat.toDigits 10 n).length ≤ width := by
    rw [Nat.length_toDigits_le_iff (by decide) hwidth]
    omega
  have hzero : width + 1 - (numeral n).length = 0 := by
    rw [numeral, length_map]
    omega
  rw [paddedNumeral, hzero, replicate_zero, nil_append]

/-- What `%d` of `scanf` reads: blanks, a sign, and one digit at least. -/
def readInt (s : List UInt8) : Option (ℤ × List UInt8) :=
  let s := s.dropWhile isBlank
  let unsigned := if s.head? = some 45 ∨ s.head? = some 43 then s.tail else s
  let digits := unsigned.takeWhile isDigit
  if digits = [] then none
  else some (if s.head? = some 45 then -(ofNumeral digits : ℤ) else ofNumeral digits,
    unsigned.dropWhile isDigit)

theorem takeWhile_dropWhile_append {p : UInt8 → Bool} {s rest : List UInt8} (hs : ∀ c ∈ s, p c)
    (hrest : ∀ c ∈ rest.head?, p c = false) :
    (s ++ rest).takeWhile p = s ∧ (s ++ rest).dropWhile p = rest := by
  rw [takeWhile_append_of_pos hs, dropWhile_append_of_pos hs]
  cases rest with
  | nil => simp
  | cons c rest =>
    have hc : p c = false := hrest c rfl
    simp [hc]

theorem not_sign_of_isDigit (h : isDigit c) : isBlank c = false ∧ c ≠ 45 ∧ c ≠ 43 := by
  simp only [isDigit, isBlank, decide_eq_true_eq, decide_eq_false_iff_not,
    UInt8.le_iff_toNat_le, ne_eq, ← UInt8.toNat_inj, UInt8.reduceToNat] at h ⊢
  omega

theorem readInt_paddedNumeral (width n : ℕ) {rest : List UInt8}
    (hrest : ∀ c ∈ rest.head?, isDigit c = false) :
    readInt (paddedNumeral width n ++ rest) = some ((n : ℤ), rest) := by
  have hdigits : ∀ c ∈ paddedNumeral width n, isDigit c := fun c => paddedNumeral_isDigit
  obtain ⟨htake, hdrop⟩ := takeWhile_dropWhile_append hdigits hrest
  have hne := paddedNumeral_ne_nil width n
  have hvalue := ofNumeral_paddedNumeral width n
  generalize paddedNumeral width n = s at hdigits htake hdrop hne hvalue
  cases s with
  | nil => exact absurd rfl hne
  | cons d s =>
    have hd : isDigit d := hdigits d mem_cons_self
    obtain ⟨hblank, hminus, hplus⟩ := not_sign_of_isDigit hd
    rw [readInt, cons_append, dropWhile_cons_of_neg (by simp [hblank])]
    simp only [head?_cons, Option.some.injEq, hminus, hplus, or_self, if_false]
    rw [← cons_append, htake, hdrop, if_neg hne, hvalue]

/-! ## Words -/

/-- The words between blanks. -/
def words (s : List UInt8) : List (List UInt8) := (s.splitOnP isBlank).filter (· ≠ [])

theorem words_append_cons {word rest : List UInt8} {blank : UInt8} (hne : word ≠ [])
    (hword : ∀ c ∈ word, isBlank c = false) (hblank : isBlank blank) :
    words (word ++ blank :: rest) = word :: words rest := by
  unfold words
  rw [splitOnP_append_cons_of_forall_mem hword _ hblank, filter_cons_of_pos]
  simpa using hne

end Phoenixcoin.Lib
