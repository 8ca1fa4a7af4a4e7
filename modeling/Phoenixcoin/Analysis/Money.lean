import Phoenixcoin.Analysis.AccountMoves
import Phoenixcoin.Program.Money

/-!
# Printing and reading amounts

The texts that `ParseMoney` reads: blanks, at most ten digits, perhaps a point with at most eight
digits, and blanks. What `FormatMoney` prints is such a text and is read back.
-/

set_option autoImplicit false

namespace Phoenixcoin.Analysis

open Lib Program List Option

def Digits (s : List UInt8) : Prop := ∀ c ∈ s, isDigit c

def Blanks (s : List UInt8) : Prop := ∀ c ∈ s, isBlank c

def ShowsMoney (s whole fraction : List UInt8) : Prop :=
  Digits whole ∧ whole.length ≤ 10 ∧ Digits fraction ∧ fraction.length ≤ 8 ∧
    ∃ before point after, Blanks before ∧ Blanks after ∧
      (point = [] ∧ fraction = [] ∨ point = [46]) ∧
      s = before ++ (whole ++ point ++ fraction ++ after)

/-- The amount that the digits stand for. -/
def moneyOf (whole fraction : List UInt8) : ℤ :=
  ofNumeral whole * COIN + (ofNumeral fraction * 10 ^ (8 - fraction.length) : ℕ)

section Reading

variable {s t p whole fraction strWhole : List UInt8} {k u : ℕ} {n : ℤ}

theorem digits_cons {c : UInt8} : Digits (c :: s) ↔ isDigit c ∧ Digits s := forall_mem_cons

theorem isDigit_bounds {c : UInt8} (hc : isDigit c) : 48 ≤ c.toNat ∧ c.toNat ≤ 57 := by
  simpa [isDigit, UInt8.le_iff_toNat_le] using hc

/-! ## Behind the point -/

def unitOf : ℕ → ℤ
  | 0 => 0
  | k + 1 => 10 ^ k

theorem unitOf_succ_div (k : ℕ) : unitOf (k + 1) / 10 = unitOf k := by
  cases k with
  | zero => decide
  | succ k =>
    show (10 : ℤ) ^ (k + 1) / 10 = 10 ^ k
    rw [pow_succ]
    exact Int.mul_ediv_cancel _ (by decide)

theorem parseFraction_digit {c : UInt8} (hc : isDigit c) (hu : u + 10 ^ (k + 1) ≤ 2 ^ 63) :
    parseFraction (unitOf (k + 1)) u (c :: t) =
      parseFraction (unitOf k) (u + 10 ^ k * (c.toNat - 48) : ℕ) t := by
  have hpos : (0 : ℤ) < unitOf (k + 1) := pow_pos (by decide) k
  have hvalue : (u : ℤ) + unitOf (k + 1) * (c.toNat - 48 : ℕ) =
      (u + 10 ^ k * (c.toNat - 48) : ℕ) := by
    simp [unitOf]
  have hdigit : 10 ^ k * (c.toNat - 48) ≤ 10 ^ k * 9 :=
    Nat.mul_le_mul_left _ (by have := (isDigit_bounds hc).2; omega)
  have hfits : int64 (u + 10 ^ k * (c.toNat - 48) : ℕ) =
      some ((u + 10 ^ k * (c.toNat - 48) : ℕ) : ℤ) := by
    have hpow : 0 < 10 ^ k := Nat.pow_pos (by decide)
    exact if_pos (by omega)
  rw [parseFraction, if_pos ⟨hc, hpos⟩, hvalue, hfits, unitOf_succ_div]
  rfl

/-- The digits behind the point, up to the first other byte or as many as count. -/
theorem parseFraction_eq_some_iff (hu : u + 10 ^ k ≤ 2 ^ 63) :
    parseFraction (unitOf k) u t = some (n, p) ↔
      ∃ fraction, t = fraction ++ p ∧ Digits fraction ∧ fraction.length ≤ k ∧
        (fraction.length = k ∨ ∀ c ∈ p.head?, ¬ isDigit c) ∧
        n = (u + ofNumeral fraction * 10 ^ (k - fraction.length) : ℕ) := by
  induction t generalizing k u with
  | nil =>
    rw [parseFraction]
    constructor
    · intro h
      cases h
      exact ⟨[], rfl, by simp [Digits], Nat.zero_le k, by simp, by simp [ofNumeral]⟩
    · rintro ⟨fraction, ht, -, -, -, rfl⟩
      obtain ⟨rfl, rfl⟩ := append_eq_nil_iff.mp ht.symm
      simp [ofNumeral]
  | cons c t ih =>
    by_cases hc : isDigit c ∧ 0 < k
    · obtain ⟨k, rfl⟩ := Nat.exists_eq_succ_of_ne_zero hc.2.ne'
      have hdigit : 10 ^ k * (c.toNat - 48) ≤ 10 ^ k * 9 :=
        Nat.mul_le_mul_left _ (by have := (isDigit_bounds hc.1).2; omega)
      rw [parseFraction_digit hc.1 hu, ih (by omega)]
      have hvalue (f : List UInt8) (hf : f.length ≤ k) :
          u + ofNumeral (c :: f) * 10 ^ (k + 1 - (f.length + 1)) =
            u + 10 ^ k * (c.toNat - 48) + ofNumeral f * 10 ^ (k - f.length) := by
        have hpow : 10 ^ f.length * 10 ^ (k - f.length) = 10 ^ k := by
          rw [← pow_add, Nat.add_sub_cancel' hf]
        rw [ofNumeral_cons, Nat.add_sub_add_right, add_mul, mul_assoc, hpow]
        ring
      constructor
      · rintro ⟨f, rfl, hf, hlength, hstop, rfl⟩
        refine ⟨c :: f, rfl, digits_cons.mpr ⟨hc.1, hf⟩, by simpa using hlength, ?_, ?_⟩
        · simpa using hstop
        · rw [length_cons, hvalue f hlength]
      · rintro ⟨fraction, ht, hf, hlength, hstop, hn⟩
        cases fraction with
        | nil =>
          rw [nil_append] at ht
          rw [← ht] at hstop
          simp [hc.1] at hstop
        | cons d f =>
          obtain ⟨rfl, rfl⟩ := List.cons.inj ht
          rw [length_cons, Nat.add_le_add_iff_right] at hlength
          rw [length_cons, hvalue f hlength] at hn
          exact ⟨f, rfl, (digits_cons.mp hf).2, hlength, by simpa using hstop, hn⟩
    · have hstop : ¬ (isDigit c ∧ unitOf k > 0) := by
        rintro ⟨hdigit, hpos⟩
        cases k with
        | zero => exact absurd hpos (by decide)
        | succ k => exact hc ⟨hdigit, Nat.succ_pos k⟩
      rw [parseFraction, if_neg hstop]
      constructor
      · intro h
        cases h
        refine ⟨[], rfl, by simp [Digits], Nat.zero_le k, ?_, by simp [ofNumeral]⟩
        by_cases hk : k = 0
        · exact Or.inl hk.symm
        · exact Or.inr (by simpa using fun h => hc ⟨h, Nat.pos_of_ne_zero hk⟩)
      · rintro ⟨fraction, ht, hf, hlength, -, rfl⟩
        cases fraction with
        | nil =>
          simp [ht, ofNumeral]
        | cons d f =>
          obtain ⟨rfl, rfl⟩ := List.cons.inj ht
          exact absurd ⟨(digits_cons.mp hf).1, (Nat.succ_pos _).trans_le hlength⟩ hc

/-! ## Before the point -/

def EndsWhole (whole t : List UInt8) (n : ℤ) (p : List UInt8) : Prop :=
  (n = 0 ∧ t = whole ++ p ∧ ∀ c ∈ p.head?, isBlank c) ∨
    ∃ rest, t = whole ++ 46 :: rest ∧ parseFraction (CENT * 10) 0 rest = some (n, p)

theorem endsWhole_nil {c : UInt8} : EndsWhole [] (c :: t) n p ↔
    (n = 0 ∧ p = c :: t ∧ isBlank c) ∨ (c = 46 ∧ parseFraction (CENT * 10) 0 t = some (n, p)) := by
  constructor
  · rintro (⟨rfl, rfl, hp⟩ | ⟨rest, ht, hrest⟩)
    · exact Or.inl ⟨rfl, rfl, hp c rfl⟩
    · obtain ⟨rfl, rfl⟩ := List.cons.inj ht
      exact Or.inr ⟨rfl, hrest⟩
  · rintro (⟨rfl, rfl, hc⟩ | ⟨rfl, hrest⟩)
    · exact Or.inl ⟨rfl, rfl, by simpa using hc⟩
    · exact Or.inr ⟨t, rfl, hrest⟩

theorem endsWhole_cons {c d : UInt8} :
    EndsWhole (d :: whole) (c :: t) n p ↔ d = c ∧ EndsWhole whole t n p := by
  unfold EndsWhole
  simp only [cons_append, List.cons.injEq, and_assoc, @eq_comm _ c d]
  constructor
  · rintro (⟨hn, hd, h⟩ | ⟨rest, hd, h⟩)
    · exact ⟨hd, Or.inl ⟨hn, h⟩⟩
    · exact ⟨hd, Or.inr ⟨rest, h⟩⟩
  · rintro ⟨hd, ⟨hn, h⟩ | ⟨rest, h⟩⟩
    · exact Or.inl ⟨hn, hd, h⟩
    · exact Or.inr ⟨rest, hd, h⟩

theorem parseWhole_eq_some_iff {acc : List UInt8} : parseWhole acc t = some (strWhole, n, p) ↔
    ∃ whole, strWhole = acc ++ whole ∧ Digits whole ∧ EndsWhole whole t n p := by
  induction t generalizing acc with
  | nil =>
    rw [parseWhole]
    constructor
    · intro h
      cases h
      exact ⟨[], by simp, by simp [Digits], Or.inl ⟨rfl, rfl, by simp⟩⟩
    · rintro ⟨whole, rfl, -, ⟨rfl, ht, -⟩ | ⟨rest, ht, -⟩⟩
      · obtain ⟨rfl, rfl⟩ := append_eq_nil_iff.mp ht.symm
        simp
      · simp at ht
  | cons c t ih =>
    -- the first byte is a digit, or no digit is read
    have hsplit : (∃ whole, strWhole = acc ++ whole ∧ Digits whole ∧
        EndsWhole whole (c :: t) n p) ↔ (strWhole = acc ∧ EndsWhole [] (c :: t) n p) ∨
          (isDigit c ∧ parseWhole (acc ++ [c]) t = some (strWhole, n, p)) := by
      rw [ih]
      constructor
      · rintro ⟨whole, rfl, hdigits, hends⟩
        cases whole with
        | nil => exact Or.inl ⟨by simp, hends⟩
        | cons d whole =>
          obtain ⟨rfl, hrest⟩ := endsWhole_cons.mp hends
          obtain ⟨hd, hdigits⟩ := digits_cons.mp hdigits
          exact Or.inr ⟨hd, whole, by simp, hdigits, hrest⟩
      · rintro (⟨rfl, hends⟩ | ⟨hc, whole, rfl, hdigits, hends⟩)
        · exact ⟨[], by simp, by simp [Digits], hends⟩
        · exact ⟨c :: whole, by simp, digits_cons.mpr ⟨hc, hdigits⟩,
            endsWhole_cons.mpr ⟨rfl, hends⟩⟩
    rw [hsplit, parseWhole, endsWhole_nil]
    split_ifs with hpoint hblank hdigit
    · subst hpoint
      have hbyte : isBlank 46 = false ∧ isDigit 46 = false := by decide
      simp [hbyte.1, hbyte.2, and_comm, eq_comm]
    · have hc : isDigit c = false := by
        by_contra hdigit
        simp [(not_sign_of_isDigit (by simpa using hdigit)).1] at hblank
      simp [hpoint, hblank, hc, and_comm, eq_comm]
    · simp [hpoint, hblank, hdigit]
    · simp [hpoint, hblank, hdigit]

/-! ## The whole text -/

theorem ofNumeral_le_of_length (hdigits : Digits s) {m : ℕ} (hlength : s.length ≤ m) :
    ofNumeral s < 10 ^ m :=
  (ofNumeral_lt hdigits).trans_le (Nat.pow_le_pow_right (by decide) hlength)

theorem fraction_lt (hdigits : Digits fraction) (hlength : fraction.length ≤ 8) :
    ofNumeral fraction * 10 ^ (8 - fraction.length) < 10 ^ 8 := by
  have hpow : 10 ^ fraction.length * 10 ^ (8 - fraction.length) = 10 ^ 8 := by
    rw [← pow_add, Nat.add_sub_cancel' hlength]
  rw [← hpow]
  exact Nat.mul_lt_mul_of_pos_right (ofNumeral_lt hdigits) (Nat.pow_pos (by decide))

theorem parseFraction_money : parseFraction (CENT * 10) 0 t = some (n, p) ↔
    ∃ fraction, t = fraction ++ p ∧ Digits fraction ∧ fraction.length ≤ 8 ∧
      (fraction.length = 8 ∨ ∀ c ∈ p.head?, ¬ isDigit c) ∧
      n = (ofNumeral fraction * 10 ^ (8 - fraction.length) : ℕ) := by
  have h := @parseFraction_eq_some_iff t p 8 0 n (by decide)
  simpa [unitOf, CENT] using h

theorem endsWhole_bounds (h : EndsWhole whole t n p) : 0 ≤ n ∧ n < 10 ^ 8 := by
  rcases h with ⟨rfl, -, -⟩ | ⟨rest, -, hrest⟩
  · decide
  · obtain ⟨fraction, -, hdigits, hlength, -, rfl⟩ := parseFraction_money.mp hrest
    exact ⟨Int.natCast_nonneg _, by exact_mod_cast fraction_lt hdigits hlength⟩

theorem not_isDigit_of_blanks (hblanks : Blanks s) : ∀ c ∈ s.head?, ¬ isDigit c := by
  intro c hc hdigit
  have hblank := hblanks c (mem_of_mem_head? hc)
  simp [(not_sign_of_isDigit hdigit).1] at hblank

theorem parseWhole_iff_showsMoney :
    (∃ p, parseWhole [] (s.dropWhile isBlank) = some (whole, n, p) ∧ Blanks p) ∧
        whole.length ≤ 10 ↔
      ∃ fraction, ShowsMoney s whole fraction ∧
        n = (ofNumeral fraction * 10 ^ (8 - fraction.length) : ℕ) := by
  simp only [parseWhole_eq_some_iff, nil_append, exists_eq_left']
  constructor
  · rintro ⟨⟨p, ⟨hdigits, hends⟩, hblanks⟩, hlength⟩
    have hbefore : Blanks (s.takeWhile isBlank) := fun c hc => mem_takeWhile_imp hc
    rcases hends with ⟨rfl, ht, -⟩ | ⟨rest, ht, hrest⟩
    · refine ⟨[], ⟨hdigits, hlength, by simp [Digits], by simp, _, [], p, hbefore, hblanks,
        Or.inl ⟨rfl, rfl⟩, ?_⟩, by simp [ofNumeral]⟩
      simp [← ht]
    · obtain ⟨fraction, rfl, hfraction, hshort, -, hn⟩ := parseFraction_money.mp hrest
      refine ⟨fraction, ⟨hdigits, hlength, hfraction, hshort, _, [46], p, hbefore, hblanks,
        Or.inr rfl, ?_⟩, hn⟩
      simp [← ht]
  · rintro ⟨fraction, ⟨hdigits, hlength, hfraction, hshort, before, point, after, hbefore, hafter,
      hpoint, rfl⟩, rfl⟩
    rw [dropWhile_append_of_pos hbefore]
    refine ⟨?_, hlength⟩
    rcases hpoint with ⟨rfl, rfl⟩ | rfl
    · cases whole with
      | nil =>
        have hdrop : after.dropWhile isBlank = [] := dropWhile_eq_nil_iff.mpr hafter
        refine ⟨[], ⟨hdigits, Or.inl ⟨by simp [ofNumeral], ?_, by simp⟩⟩, by simp [Blanks]⟩
        simpa using hdrop
      | cons d whole =>
        refine ⟨after, ⟨hdigits, Or.inl ⟨by simp [ofNumeral], ?_, ?_⟩⟩, hafter⟩
        · rw [cons_append]
          simp [(not_sign_of_isDigit (digits_cons.mp hdigits).1).1]
        · exact fun c hc => hafter c (mem_of_mem_head? hc)
    · have hfirst : (whole ++ [46] ++ fraction ++ after).dropWhile isBlank =
          whole ++ 46 :: (fraction ++ after) := by
        cases whole with
        | nil => exact dropWhile_cons_of_neg (by decide)
        | cons d whole =>
          rw [cons_append, cons_append, cons_append, dropWhile_cons_of_neg]
          · simp
          · simp [(not_sign_of_isDigit (digits_cons.mp hdigits).1).1]
      refine ⟨after, ⟨hdigits, Or.inr ⟨fraction ++ after, hfirst, ?_⟩⟩, hafter⟩
      exact parseFraction_money.mpr
        ⟨fraction, rfl, hfraction, hshort, Or.inr (not_isDigit_of_blanks hafter), rfl⟩

theorem takeWhile_of_zero_notMem (hzero : 0 ∉ s) : s.takeWhile (· ≠ 0) = s := by
  rw [takeWhile_eq_self_iff]
  intro c hc
  simpa using fun h : c = 0 => hzero (h ▸ hc)

/-- The guards and the sum behind the two loops. -/
theorem parseMoney_of_parts (hzero : 0 ∉ s) (hwhole : Digits whole) (hlow : 0 ≤ n)
    (hhigh : n < 10 ^ 8) (hparse : parseWhole [] (s.dropWhile isBlank) = some (whole, n, p))
    {m : ℤ} : ParseMoney s = some m ↔
      Blanks p ∧ whole.length ≤ 10 ∧ m = ofNumeral whole * COIN + n := by
  have hcoin : COIN = 10 ^ 8 := by decide
  have hunits : ¬ (n < 0 ∨ n > COIN) := by omega
  rw [ParseMoney, takeWhile_of_zero_notMem hzero]
  simp only [hparse, hunits, bind_eq_bind, bind_some, bind_eq_some_iff,
    exists_guard_eq_some, not_false_eq_true, true_and, not_lt]
  refine and_congr (by simp [Blanks]) (and_congr_right fun hlength => ?_)
  have hlt : ofNumeral whole < 10 ^ 10 := ofNumeral_le_of_length hwhole hlength
  have hatoi : atoi64 whole = ofNumeral whole := by
    rw [atoi64_of_isDigit hwhole]
    omega
  have hmul : int64 (ofNumeral whole * COIN) = some (ofNumeral whole * COIN) :=
    if_pos (by rw [hcoin]; omega)
  have hsum : int64 (ofNumeral whole * COIN + n) = some (ofNumeral whole * COIN + n) :=
    if_pos (by rw [hcoin]; omega)
  simp [hatoi, hmul, hsum, eq_comm]

theorem parseMoney_eq_some_iff (hzero : 0 ∉ s) {m : ℤ} : ParseMoney s = some m ↔
    ∃ whole fraction, ShowsMoney s whole fraction ∧ m = moneyOf whole fraction := by
  constructor
  · intro h
    obtain ⟨⟨whole, n, p⟩, hparse, -⟩ := bind_eq_some_iff.mp h
    rw [takeWhile_of_zero_notMem hzero] at hparse
    obtain ⟨_, rfl, hdigits, hends⟩ := parseWhole_eq_some_iff.mp hparse
    obtain ⟨hlow, hhigh⟩ := endsWhole_bounds hends
    obtain ⟨hblanks, hlength, rfl⟩ :=
      (parseMoney_of_parts hzero hdigits hlow hhigh hparse).mp h
    obtain ⟨fraction, hshows, rfl⟩ := parseWhole_iff_showsMoney.mp ⟨⟨p, hparse, hblanks⟩, hlength⟩
    exact ⟨_, fraction, hshows, rfl⟩
  · rintro ⟨whole, fraction, hshows, rfl⟩
    obtain ⟨⟨p, hparse, hblanks⟩, hlength⟩ := parseWhole_iff_showsMoney.mpr ⟨fraction, hshows, rfl⟩
    have hhigh := fraction_lt hshows.2.2.1 hshows.2.2.2.1
    rw [parseMoney_of_parts hzero hshows.1 (Int.natCast_nonneg _) (by exact_mod_cast hhigh) hparse]
    exact ⟨hblanks, hlength, rfl⟩

end Reading

/-! ## What is printed -/

theorem trimZeros_append {digits : List UInt8} (hlength : 2 ≤ digits.length) (rest : List UInt8) :
    ∃ k f, digits = List.replicate k 48 ++ f ∧
      trimZeros (digits ++ 46 :: rest) = f ++ 46 :: rest := by
  induction digits with
  | nil => exact absurd hlength (by decide)
  | cons c digits ih =>
    match digits with
    | [] => exact absurd hlength (by simp)
    | [d] =>
      refine ⟨0, [c, d], rfl, ?_⟩
      exact if_neg fun h => absurd h.2 (by decide)
    | d :: e :: f =>
      by_cases hzero : c = 48 ∧ isDigit e
      · obtain ⟨k, g, hsplit, htrim⟩ := ih (by simp)
        refine ⟨k + 1, g, by rw [hsplit, hzero.1, replicate_succ, cons_append], ?_⟩
        exact (if_pos hzero).trans htrim
      · exact ⟨0, c :: d :: e :: f, rfl, if_neg hzero⟩

theorem FormatMoney_eq_some {n : ℤ} (hlow : 0 ≤ n) (hhigh : n < 2 ^ 63) :
    ∃ k f, paddedNumeral 8 (n % COIN).toNat = f ++ List.replicate k 48 ∧
      FormatMoney n false = some (paddedNumeral 0 (n / COIN).toNat ++ 46 :: f) := by
  have hcoin : (0 : ℤ) < COIN := by decide
  have habs : (if n > 0 then some n else int64 (-n)) = some n := by
    split_ifs with hpos
    · rfl
    · rw [show n = 0 by omega]
      rfl
  have hwidth : (paddedNumeral 8 (n % COIN).toNat).length = 8 := by
    apply length_paddedNumeral (by decide)
    have hlt := Int.emod_lt_of_pos n hcoin
    have hvalue : COIN = 10 ^ 8 := by decide
    omega
  obtain ⟨k, f, hsplit, htrim⟩ := @trimZeros_append (paddedNumeral 8 (n % COIN).toNat).reverse
    (by rw [length_reverse, hwidth]; decide) (paddedNumeral 0 (n / COIN).toNat).reverse
  refine ⟨k, f.reverse, ?_, ?_⟩
  · rw [← reverse_reverse (paddedNumeral 8 _), hsplit, reverse_append, reverse_replicate]
  · have hprint : (printInt 0 (n / COIN) ++ 46 :: printInt 8 (n % COIN)).reverse =
        (paddedNumeral 8 (n % COIN).toNat).reverse ++
          46 :: (paddedNumeral 0 (n / COIN).toNat).reverse := by
      rw [printInt, printInt, if_neg (not_lt.mpr (Int.ediv_nonneg hlow hcoin.le)),
        if_neg (not_lt.mpr (Int.emod_nonneg n hcoin.ne'))]
      simp
    rw [FormatMoney, habs]
    simp only [bind_eq_bind, bind_some, hprint, htrim, not_lt.mpr hlow, if_false,
      Bool.false_eq_true, false_and, Option.pure_def]
    simp

/-- What is printed shows the amount. -/
theorem FormatMoney_shows {n : ℤ} (hlow : 0 ≤ n) (hhigh : n < 10 ^ 18) :
    ∃ s whole fraction, FormatMoney n false = some s ∧ 0 ∉ s ∧ ShowsMoney s whole fraction ∧
      n = moneyOf whole fraction := by
  have hcoin : COIN = 10 ^ 8 := by decide
  obtain ⟨k, f, hsplit, hformat⟩ := FormatMoney_eq_some hlow (hhigh.trans (by decide))
  have hremainder : (n % COIN).toNat < 10 ^ 8 := by
    have hlt := Int.emod_lt_of_pos n (show 0 < COIN by decide)
    omega
  have hquotient : (n / COIN).toNat < 10 ^ 10 := by
    rw [hcoin]
    omega
  generalize hwhole : paddedNumeral 0 (n / COIN).toNat = whole at hformat
  have hwidth : f.length + k = 8 := by
    rw [← length_paddedNumeral (by decide) hremainder, hsplit, length_append, length_replicate]
  have hdigits : Digits whole := fun c hc => paddedNumeral_isDigit (hwhole ▸ hc)
  have hfraction : Digits f := by
    intro c hc
    apply @paddedNumeral_isDigit 8 (n % COIN).toNat
    rw [hsplit]
    exact mem_append_left _ hc
  have hvalue : ofNumeral f * 10 ^ (8 - f.length) = (n % COIN).toNat := by
    have hnumeral := ofNumeral_paddedNumeral 8 (n % COIN).toNat
    rw [hsplit, ofNumeral_append, ofNumeral_zeros, length_replicate] at hnumeral
    rw [← hnumeral, show 8 - f.length = k by omega]
    rfl
  refine ⟨_, whole, f, hformat, ?_, ⟨hdigits, ?_, hfraction, by omega, [], [46], [], ?_⟩, ?_⟩
  · intro hmem
    rcases mem_append.mp hmem with hmem | hmem
    · exact absurd (hdigits 0 hmem) (by decide)
    · rcases mem_cons.mp hmem with hmem | hmem
      · exact absurd hmem (by decide)
      · exact absurd (hfraction 0 hmem) (by decide)
  · have hlength := length_numeral_le (by decide) hquotient
    simpa [← hwhole, paddedNumeral] using hlength
  · simp [Blanks]
  · rw [moneyOf, hvalue, ← hwhole, ofNumeral_paddedNumeral]
    have hdiv := Int.mul_ediv_add_emod n COIN
    have hpos := Int.ediv_nonneg hlow (show 0 ≤ COIN by decide)
    have hmod := Int.emod_nonneg n (show COIN ≠ 0 by decide)
    rw [Int.toNat_of_nonneg hpos, Int.toNat_of_nonneg hmod, mul_comm, hdiv]

/-- Amounts are printed and read exactly, and exactly the texts that show an amount are read. -/
theorem money_round_trip :
    (∀ n : ℤ, 0 ≤ n → n < 10 ^ 18 → (FormatMoney n false).bind ParseMoney = some n) ∧
      ∀ s : List UInt8, 0 ∉ s → ∀ n, ParseMoney s = some n ↔
        ∃ whole fraction, ShowsMoney s whole fraction ∧ n = moneyOf whole fraction := by
  constructor
  · intro n hlow hhigh
    obtain ⟨s, whole, fraction, hformat, hzero, hshows, hn⟩ := FormatMoney_shows hlow hhigh
    rw [hformat, bind_some, parseMoney_eq_some_iff hzero]
    exact ⟨whole, fraction, hshows, hn⟩
  · exact fun s hzero n => parseMoney_eq_some_iff hzero

/-- One and a half coins, printed and read back, and read from `" 1.5 "`. -/
theorem money_round_trip_half :
    (FormatMoney 150000000 false).bind ParseMoney = some 150000000 ∧
      ParseMoney [32, 49, 46, 53, 32] = some 150000000 := by
  refine ⟨money_round_trip.1 150000000 (by decide) (by decide), ?_⟩
  rw [money_round_trip.2 [32, 49, 46, 53, 32] (by decide)]
  refine ⟨[49], [53], ⟨by simp [Digits, isDigit], by decide, by simp [Digits, isDigit], by decide,
    [32], [46], [32], ?_⟩, by decide⟩
  simp [Blanks, isBlank]

end Phoenixcoin.Analysis
