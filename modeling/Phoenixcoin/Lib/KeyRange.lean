import Mathlib.Data.List.Basic

/-!
# Ranges of sorted records

Records in the order of their keys, where the keys of a group share a prefix. A scan that starts
at the first key of the group and stops at the first record outside it meets exactly the records
of the group.
-/

set_option autoImplicit false

namespace Phoenixcoin.Lib

open List

/-! ## Byte strings in their order -/

theorem append_le_append_left {p s t : List UInt8} (h : s ≤ t) : p ++ s ≤ p ++ t := by
  induction p with
  | nil => exact h
  | cons b p ih => exact cons_le_cons_iff.mpr (Or.inr ⟨rfl, ih⟩)

/-- What lies between two strings with a prefix has it too. -/
theorem isPrefix_of_between {p s k t : List UInt8} (hlow : p ++ s ≤ k) (hhigh : k ≤ p ++ t) :
    p <+: k := by
  induction p generalizing k with
  | nil => exact List.nil_prefix
  | cons b p ih =>
    cases k with
    | nil => exact absurd (nil_lt_cons b (p ++ s)) hlow
    | cons c k =>
      rw [cons_append, cons_le_cons_iff] at hlow hhigh
      rcases hlow with hlt | ⟨rfl, hlow⟩
      · rcases hhigh with hlt' | ⟨rfl, _⟩
        · exact absurd hlt' (UInt8.lt_asymm hlt)
        · exact absurd hlt (UInt8.lt_irrefl c)
      · have hhigh : k ≤ p ++ t := by
          rcases hhigh with hlt' | ⟨_, hhigh⟩
          · exact absurd hlt' (UInt8.lt_irrefl b)
          · exact hhigh
        exact (prefix_cons_inj b).mpr (ih hlow hhigh)

theorem replicate_zero_le {n : ℕ} {s : List UInt8} (h : n ≤ s.length) : List.replicate n 0 ≤ s := by
  induction n generalizing s with
  | zero => exact nil_le s
  | succ n ih =>
    cases s with
    | nil => simp at h
    | cons b s =>
      rw [replicate_succ, cons_le_cons_iff]
      have hs : List.replicate n 0 ≤ s := ih (by simpa using h)
      by_cases hb : b = 0
      · exact Or.inr ⟨hb.symm, hs⟩
      · exact Or.inl (UInt8.lt_of_le_of_ne UInt8.zero_le (Ne.symm hb))

/-! ## The scan -/

variable {A : Type} {key : A → List UInt8} {seek : List UInt8} {p : A → Bool}

/-- A scan from the first key that is not below `seek` to the first record outside a group, where
no record outside the group stands between `seek` and one in the group. -/
theorem takeWhile_dropWhile_eq_filter {l : List A} (hsorted : l.Pairwise fun a b => key a < key b)
    (hseek : ∀ a ∈ l, p a = true → seek ≤ key a)
    (hblock : ∀ a ∈ l, ∀ b ∈ l, p b = true → seek ≤ key a → key a < key b → p a = true) :
    (l.dropWhile fun a => key a < seek).takeWhile p = l.filter p := by
  induction l with
  | nil => rfl
  | cons a l ih =>
    rw [List.pairwise_cons] at hsorted
    by_cases hlow : key a < seek
    · have hout : p a = false := by
        by_contra h
        exact hseek a List.mem_cons_self (by simpa using h) hlow
      rw [dropWhile_cons_of_pos (by simpa using hlow), List.filter_cons_of_neg (by simp [hout])]
      exact ih hsorted.2 (fun b hb => hseek b (List.mem_cons_of_mem a hb))
        fun b hb c hc => hblock b (List.mem_cons_of_mem a hb) c (List.mem_cons_of_mem a hc)
    · have hhigh : seek ≤ key a := hlow
      have hall : l.dropWhile (fun b => key b < seek) = l := by
        cases l with
        | nil => rfl
        | cons b l =>
          have hb : ¬ key b < seek := by
            intro hlt
            exact hlow (List.lt_trans (hsorted.1 b List.mem_cons_self) hlt)
          exact dropWhile_cons_of_neg (by simpa using hb)
      have ih := ih hsorted.2 (fun b hb => hseek b (List.mem_cons_of_mem a hb))
        fun b hb c hc => hblock b (List.mem_cons_of_mem a hb) c (List.mem_cons_of_mem a hc)
      rw [hall] at ih
      rw [dropWhile_cons_of_neg (by simpa using hlow)]
      cases hp : p a with
      | true => rw [takeWhile_cons_of_pos hp, List.filter_cons_of_pos hp, ih]
      | false =>
        have hnone : l.filter p = [] := by
          rw [filter_eq_nil_iff]
          intro b hb hpb
          have hpa := hblock a List.mem_cons_self b (List.mem_cons_of_mem a hb) hpb hhigh
            (hsorted.1 b hb)
          simp [hp] at hpa
        rw [takeWhile_cons_of_neg (by simp [hp]), List.filter_cons_of_neg (by simp [hp]), hnone]

end Phoenixcoin.Lib
