import Mathlib.Data.Nat.Notation

/-!
# Loops that go round until they end

The body of a loop gives the result of the loop or the state of the next round. A loop whose
rounds lower a measure ends, and a version of it with fuel gives its result as soon as the fuel
is enough for all rounds.
-/

set_option autoImplicit false

namespace Phoenixcoin.Lib

variable {S R : Type*} {body : S → R ⊕ S}

/-- From `s` the loop ends with `r` in its `n`-th round. -/
inductive LoopEnds (body : S → R ⊕ S) : ℕ → S → R → Prop where
  | now {s : S} {r : R} (h : body s = .inl r) : LoopEnds body 1 s r
  | later {n : ℕ} {s s' : S} {r : R} (h : body s = .inr s') (hrest : LoopEnds body n s' r) :
      LoopEnds body (n + 1) s r

namespace LoopEnds

/-- Where an invariant is kept, only rounds that start with it have to lower the measure, and the
last one starts with it too. -/
theorem of_measure_of_invariant {I : S → Prop} (μ : S → ℕ)
    (hkeep : ∀ s s', I s → body s = .inr s' → I s')
    (hlower : ∀ s s', I s → body s = .inr s' → μ s' < μ s) {s : S} (hI : I s) :
    ∃ n r last, n ≤ μ s + 1 ∧ LoopEnds body n s r ∧ I last ∧ body last = .inl r := by
  induction hμ : μ s using Nat.strongRecOn generalizing s with
  | ind m ih =>
    cases hbody : body s with
    | inl r => exact ⟨1, r, s, Nat.le_add_left 1 m, .now hbody, hI, hbody⟩
    | inr s' =>
      have hless : μ s' < m := hμ ▸ hlower s s' hI hbody
      obtain ⟨n, r, last, hn, hends, hlast⟩ := ih (μ s') hless (hkeep s s' hI hbody) rfl
      exact ⟨n + 1, r, last, by omega, .later hbody hends, hlast⟩

theorem of_measure (μ : S → ℕ) (hlower : ∀ s s', body s = .inr s' → μ s' < μ s) (s : S) :
    ∃ n r, n ≤ μ s + 1 ∧ LoopEnds body n s r := by
  obtain ⟨n, r, -, hn, hends, -⟩ := of_measure_of_invariant (I := fun _ => True) μ
    (fun _ _ _ _ => trivial) (fun s s' _ => hlower s s') (s := s) trivial
  exact ⟨n, r, hn, hends⟩

/-- `run` is the loop with fuel. -/
theorem run_eq {run : ℕ → S → R} (hrun : ∀ fuel s, run (fuel + 1) s = (body s).elim id (run fuel))
    {n : ℕ} {s : S} {r : R} (h : LoopEnds body n s r) {fuel : ℕ} (hfuel : n ≤ fuel) :
    run fuel s = r := by
  induction h generalizing fuel with
  | @now s r hbody =>
    obtain ⟨fuel, rfl⟩ := Nat.exists_eq_add_of_le' hfuel
    rw [hrun, hbody]
    rfl
  | @later n s s' r hbody _ ih =>
    obtain ⟨fuel, rfl⟩ : ∃ fuel', fuel = fuel' + 1 := ⟨fuel - 1, by omega⟩
    rw [hrun, hbody]
    exact ih (by omega)

end LoopEnds

end Phoenixcoin.Lib
