import Mathlib.Data.Nat.Digits.Lemmas

/-!
# Digits in groups of bits

A list of digits of one width is read as digits of another; what is left over stays behind as a
number of fewer bits than a digit has. In other bases, a list of digits is converted as a whole.
-/

set_option autoImplicit false

namespace Phoenixcoin.Lib

open List

/-- The number that digits of `w` bits stand for, the highest first. -/
def digitsValue (w : ℕ) (ds : List ℕ) : ℕ := Nat.ofDigits (2 ^ w) ds.reverse

theorem digitsValue_concat (w : ℕ) (ds : List ℕ) (d : ℕ) :
    digitsValue w (ds ++ [d]) = digitsValue w ds * 2 ^ w + d := by
  rw [digitsValue, reverse_concat, Nat.ofDigits_cons, ← digitsValue, mul_comm, add_comm]

theorem digitsValue_inj {w : ℕ} {ds ds' : List ℕ} (hw : 0 < w) (hlength : ds.length = ds'.length)
    (hds : ∀ d ∈ ds, d < 2 ^ w) (hds' : ∀ d ∈ ds', d < 2 ^ w)
    (h : digitsValue w ds = digitsValue w ds') : ds = ds' := by
  have hbase : 1 < 2 ^ w := Nat.one_lt_two_pow hw.ne'
  exact reverse_injective (Nat.ofDigits_inj_of_len_eq hbase
    (by rw [length_reverse, length_reverse, hlength])
    (fun d hd => hds d (mem_reverse.mp hd)) (fun d hd => hds' d (mem_reverse.mp hd)) h)

theorem mul_add_inj {n q q' r r' : ℕ} (h : n * q + r = n * q' + r') (hr : r < n) (hr' : r' < n) :
    q = q' ∧ r = r' := by
  have hpos : 0 < n := Nat.zero_lt_of_lt hr
  have hquot := (Nat.div_mod_unique hpos).mpr ⟨add_comm r (n * q), hr⟩
  have hquot' := (Nat.div_mod_unique hpos).mpr ⟨(add_comm r' (n * q')).trans h.symm, hr'⟩
  exact ⟨hquot.1.symm.trans hquot'.1, hquot.2.symm.trans hquot'.2⟩

/-- Digits of `w` bits come to digits of `w'` bits and `bits` bits behind them. -/
structure Regrouped (w w' : ℕ) (ins outs : List ℕ) (bits rest : ℕ) : Prop where
  value_eq : digitsValue w ins = digitsValue w' outs * 2 ^ bits + rest
  length_eq : w * ins.length = w' * outs.length + bits
  rest_lt : rest < 2 ^ bits
  small : ∀ d ∈ outs, d < 2 ^ w'

namespace Regrouped

variable {w w' bits bits' rest rest' d : ℕ} {ins ins' outs outs' : List ℕ}

theorem nil (w w' : ℕ) : Regrouped w w' [] [] 0 0 :=
  ⟨rfl, rfl, Nat.one_pos, fun _ h => by cases h⟩

theorem feed (h : Regrouped w w' ins outs bits rest) (hd : d < 2 ^ w) :
    Regrouped w w' (ins ++ [d]) outs (w + bits) (rest * 2 ^ w + d) := by
  have hrest := h.rest_lt
  refine ⟨?_, ?_, ?_, h.small⟩
  · rw [digitsValue_concat, h.value_eq]
    ring
  · rw [length_append, mul_add, h.length_eq, length_singleton]
    ring
  · calc rest * 2 ^ w + d < (rest + 1) * 2 ^ w := by linarith
      _ ≤ 2 ^ bits * 2 ^ w := Nat.mul_le_mul_right _ hrest
      _ = 2 ^ (w + bits) := by rw [pow_add, mul_comm]

theorem emit (h : Regrouped w w' ins outs (w' + bits) rest) :
    Regrouped w w' ins (outs ++ [rest / 2 ^ bits]) bits (rest % 2 ^ bits) := by
  have hsplit := Nat.div_add_mod' rest (2 ^ bits)
  refine ⟨?_, ?_, Nat.mod_lt _ (Nat.two_pow_pos bits), ?_⟩
  · rw [digitsValue_concat, h.value_eq, pow_add]
    linarith
  · rw [length_append, h.length_eq, length_singleton]
    ring
  · intro d hd
    rcases mem_append.mp hd with hd | hd
    · exact h.small d hd
    · rw [mem_singleton.mp hd]
      exact Nat.div_lt_of_lt_mul (h.rest_lt.trans_eq (by rw [pow_add, mul_comm]))

/-- Less than a digit is left over in one way only. -/
theorem unique (hw : 0 < w') (h : Regrouped w w' ins outs bits rest)
    (h' : Regrouped w w' ins outs' bits' rest') (hbits : bits < w') (hbits' : bits' < w') :
    outs = outs' ∧ bits = bits' ∧ rest = rest' := by
  obtain ⟨hcount, rfl⟩ := mul_add_inj (h.length_eq.symm.trans h'.length_eq) hbits hbits'
  have hvalue := h.value_eq.symm.trans h'.value_eq
  rw [mul_comm, mul_comm (digitsValue w' outs')] at hvalue
  obtain ⟨hhigh, hrest⟩ := mul_add_inj hvalue h.rest_lt h'.rest_lt
  exact ⟨digitsValue_inj hw hcount h.small h'.small hhigh, rfl, hrest⟩

/-- With nothing left over, the digits are read back. -/
theorem turn (h : Regrouped w w' ins outs 0 rest) (hins : ∀ d ∈ ins, d < 2 ^ w) :
    Regrouped w' w outs ins 0 0 := by
  have hrest : rest = 0 := Nat.lt_one_iff.mp h.rest_lt
  refine ⟨?_, h.length_eq.symm, Nat.one_pos, hins⟩
  rw [h.value_eq, hrest]
  simp

/-- Zeros fill the last digit up, and the digits are read back but for these. -/
theorem fill (h : Regrouped w w' ins outs bits rest) (hins : ∀ d ∈ ins, d < 2 ^ w)
    (hfill : bits + bits' = w') :
    Regrouped w' w (outs ++ [rest * 2 ^ bits']) ins bits' 0 ∧ rest * 2 ^ bits' < 2 ^ w' := by
  subst hfill
  have hpos := Nat.two_pow_pos bits'
  refine ⟨⟨?_, ?_, hpos, hins⟩, ?_⟩
  · rw [digitsValue_concat, h.value_eq]
    ring
  · rw [length_append, h.length_eq, length_singleton]
    ring
  · rw [pow_add]
    exact Nat.mul_lt_mul_of_pos_right h.rest_lt hpos

theorem inputs_unique (hw : 0 < w) (h : Regrouped w w' ins outs bits 0)
    (h' : Regrouped w w' ins' outs bits' 0) (hbits : bits < w) (hbits' : bits' < w)
    (hins : ∀ d ∈ ins, d < 2 ^ w) (hins' : ∀ d ∈ ins', d < 2 ^ w) : ins = ins' ∧ bits = bits' := by
  have hlength : w * ins.length + bits' = w * ins'.length + bits := by
    rw [h.length_eq, h'.length_eq, Nat.add_right_comm]
  obtain ⟨hcount, rfl⟩ := mul_add_inj hlength hbits' hbits
  exact ⟨digitsValue_inj hw hcount hins hins' (h.value_eq.trans h'.value_eq.symm), rfl⟩

end Regrouped

/-! ## Leading zeros

A list of digits is the number that it stands for and how many zeros it begins with.
-/

section LeadingZeros

variable {b : ℕ} {ds : List ℕ}

def placeValue (b : ℕ) (ds : List ℕ) : ℕ × ℕ :=
  ((ds.takeWhile (· = 0)).length, Nat.ofDigits b ds.reverse)

def placeDigits (b : ℕ) (p : ℕ × ℕ) : List ℕ := replicate p.1 0 ++ (Nat.digits b p.2).reverse

theorem placeDigits_lt (hb : 1 < b) (p : ℕ × ℕ) : ∀ d ∈ placeDigits b p, d < b := by
  intro d hd
  rcases mem_append.mp hd with hd | hd
  · rw [eq_of_mem_replicate hd]
    exact Nat.zero_lt_of_lt hb
  · exact Nat.digits_lt_base hb (mem_reverse.mp hd)

theorem placeDigits_placeValue (hb : 1 < b) (hds : ∀ d ∈ ds, d < b) :
    placeDigits b (placeValue b ds) = ds := by
  unfold placeDigits placeValue
  induction ds with
  | nil => simp
  | cons d ds ih =>
    by_cases hd : d = 0
    · subst hd
      rw [reverse_cons, Nat.ofDigits_append, Nat.ofDigits_singleton, mul_zero]
      exact congrArg _ (ih fun d hd => hds d (mem_cons_of_mem _ hd))
    · rw [takeWhile_cons_of_neg (by simpa using hd), Nat.digits_ofDigits b hb _
        (fun d hd => hds d (mem_reverse.mp hd)) fun _ => by simpa using hd, reverse_reverse]
      rfl

theorem placeValue_placeDigits (p : ℕ × ℕ) : placeValue b (placeDigits b p) = p := by
  obtain ⟨z, n⟩ := p
  unfold placeDigits placeValue
  induction z with
  | zero =>
    rw [replicate_zero, nil_append, reverse_reverse, Nat.ofDigits_digits]
    cases hrev : (Nat.digits b n).reverse with
    | nil => rfl
    | cons d rest =>
      have hne : n ≠ 0 := by
        rintro rfl
        simp at hrev
      have hlast := Nat.getLast_digit_ne_zero b hne
      rw [← head_reverse (by rw [hrev]; exact cons_ne_nil d rest)] at hlast
      simp only [hrev, head_cons] at hlast
      rw [takeWhile_cons_of_neg (by simpa using hlast)]
      rfl
  | succ z ih =>
    rw [replicate_succ, cons_append, reverse_cons,
      Nat.ofDigits_append, Nat.ofDigits_singleton, mul_zero]
    exact Prod.ext (congrArg (· + 1) (Prod.mk.inj ih).1) (Prod.mk.inj ih).2

end LeadingZeros

end Phoenixcoin.Lib
