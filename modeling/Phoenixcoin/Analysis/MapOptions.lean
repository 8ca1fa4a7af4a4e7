import Phoenixcoin.Program.MapSize

/-!
# Map sizes are safe

On both word sizes no number of the three functions wraps around. A parsed size is the one the
option names, resolved sizes are ordered, and a copied wallet gets a map that is large enough and
aligned.
-/

set_option autoImplicit false

namespace Phoenixcoin.Analysis

open Lib Program

section Sizes

variable {p : Platform} {nPageSize nBytes n m : ℕ}

variable {bits k : ℕ} {A : Type} {f : ℕ → Option A}

theorem unsigned_of_lt (h : n < 2 ^ bits) : unsigned bits n = some n := if_pos h

theorem unsigned_bind (h : n < 2 ^ bits) : unsigned bits n >>= f = f n := by
  rw [unsigned_of_lt h]
  rfl

theorem some_bind : some n >>= f = f n := rfl

theorem unsignedSub_bind (h : m ≤ n) : unsignedSub n m >>= f = f (n - m) := by
  rw [unsignedSub, if_pos h]
  rfl

/-- The largest size of the platform. -/
def platformMax (p : Platform) : ℕ := p.LMDB_MAX_MAPSIZE_MIB * (1024 * 1024)

theorem platformMax_lt (p : Platform) : platformMax p < 2 ^ p.sizeBits := by
  cases p <;> decide

theorem sizeBits_le (p : Platform) : 2 ^ p.sizeBits ≤ 2 ^ 64 := by
  cases p <;> decide

theorem page_le (hk : k < p.sizeBits) : 2 ^ k ≤ platformMax p := by
  have hmono : 2 ^ k ≤ 2 ^ (p.sizeBits - 1) := Nat.pow_le_pow_right (by decide) (by omega)
  apply hmono.trans
  cases p <;> decide

/-- A size with a multiple of `MiB` has a value, or an error is reported. -/
theorem parseLMDBMapSize_cases (hpage : 0 < nPageSize) (strValue : List UInt8) :
    (∃ strError, ParseLMDBMapSize p nPageSize strValue = some (.error strError)) ∨
      ∃ nMiB n : ℕ, ParseInt64Strict strValue = some (nMiB : ℤ) ∧ 0 < nMiB ∧
        n = nMiB * (1024 * 1024) ∧ n ≤ platformMax p ∧ (nPageSize ≤ n → nPageSize ∣ n) ∧
        ParseLMDBMapSize p nPageSize strValue = some (.ok n) := by
  unfold ParseLMDBMapSize
  cases hparse : ParseInt64Strict strValue with
  | none => exact Or.inl ⟨_, rfl⟩
  | some nMiB =>
    dsimp only
    by_cases hpos : nMiB ≤ 0
    · exact Or.inl ⟨_, if_pos hpos⟩
    · rw [if_neg hpos]
      by_cases hlarge : nMiB > p.LMDB_MAX_MAPSIZE_MIB
      · exact Or.inl ⟨_, if_pos hlarge⟩
      · obtain ⟨nMiB, rfl⟩ := Int.eq_ofNat_of_zero_le (show 0 ≤ nMiB by omega)
        have hle : nMiB * (1024 * 1024) ≤ platformMax p := by
          exact Nat.mul_le_mul_right _ (by omega)
        have hlt := hle.trans_lt (platformMax_lt p)
        have hsmall : nMiB < 2 ^ p.sizeBits :=
          (Nat.le_mul_of_pos_right nMiB (by decide)).trans_lt hlt
        rw [Int.toNat_natCast, unsigned_bind hsmall,
          unsigned_bind (hlt.trans_le (sizeBits_le p)), unsigned_bind hlt]
        split_ifs with haligned
        · exact Or.inl ⟨_, rfl⟩
        · refine Or.inr ⟨nMiB, _, rfl, by omega, rfl, hle, fun hfits => ?_, rfl⟩
          apply Nat.dvd_of_mod_eq_zero
          by_contra hrest
          exact haligned ⟨hpage, hfits, hrest⟩

theorem resolveLMDBMapSizes_cases (hpage : 0 < nPageSize) (strMapSize strMaxMapSize : List UInt8)
    (nDefaultInitialMiB : ℤ) (fAutoGrow : Bool) : ∃ r,
      ResolveLMDBMapSizes p nPageSize strMapSize strMaxMapSize nDefaultInitialMiB fAutoGrow =
        some r ∧ ∀ sizes, r = .ok sizes → sizes.1 ≤ sizes.2 := by
  unfold ResolveLMDBMapSizes
  dsimp only
  obtain ⟨strError, herror⟩ | ⟨-, nMapSize, -, -, -, -, -, hok⟩ :=
    @parseLMDBMapSize_cases p nPageSize hpage
      (if strMapSize = [] then printInt 0 nDefaultInitialMiB else strMapSize)
  · rw [herror]
    exact ⟨_, rfl, nofun⟩
  · rw [hok]
    cases fAutoGrow with
    | false => exact ⟨_, rfl, fun sizes h => by cases h; exact le_rfl⟩
    | true =>
      obtain ⟨strError, herror⟩ | ⟨-, nMaxMapSize, -, -, -, -, -, hmax⟩ :=
        @parseLMDBMapSize_cases p nPageSize hpage
          (if strMaxMapSize = [] then printInt 0 p.GetLMDBDefaultMaxMapSizeMiB else strMaxMapSize)
      · simp only [not_true_eq_false, if_false, herror]
        exact ⟨_, rfl, nofun⟩
      · simp only [not_true_eq_false, if_false, hmax]
        by_cases hsmall : nMaxMapSize < nMapSize
        · exact ⟨_, if_pos hsmall, nofun⟩
        · exact ⟨_, if_neg hsmall, fun sizes h => by cases h; exact not_lt.mp hsmall⟩

/-! ## The size for a copied wallet -/

/-- Twice the source and the margin, up to the largest number. -/
theorem needed_eq (nSourceBytes : ℕ) :
    (if nSourceBytes > (2 ^ 64 - 1 - 16 * 1024 * 1024) / 2 then some (2 ^ 64 - 1) else do
      let nDouble ← unsigned 64 (nSourceBytes * 2)
      unsigned 64 (nDouble + 16 * 1024 * 1024)) =
      some (min (nSourceBytes * 2 + 16 * 1024 * 1024) (2 ^ 64 - 1)) := by
  split_ifs with hlarge
  · rw [min_eq_right (by omega)]
  · rw [unsigned_bind (by omega), unsigned_of_lt (by omega), min_eq_left (by omega)]

theorem rounded_spec {nMax : ℕ} (hpage : 0 < nPageSize) (hfits : nPageSize ≤ nMax)
    (hmax : nMax < 2 ^ 64) (hn : n ≤ nMax) :
    ∃ r, (if nPageSize > 0 ∧ n < nMax then do
        let nRound ← unsignedSub nPageSize 1 let nLimit ← unsignedSub nMax nRound
        if n ≤ nLimit then do
          let nSum ← unsigned 64 (n + nRound)
          unsigned 64 (nSum / nPageSize * nPageSize)
        else some nMax
      else some n) = some r ∧ n ≤ r ∧ r ≤ nMax ∧ (nPageSize ∣ nMax → nPageSize ∣ r) := by
  by_cases hlt : n < nMax
  · rw [if_pos ⟨hpage, hlt⟩, unsignedSub_bind (show 1 ≤ nPageSize from hpage),
      unsignedSub_bind (by omega)]
    by_cases hlimit : n ≤ nMax - (nPageSize - 1)
    · have hup := Nat.div_add_mod' (n + (nPageSize - 1)) nPageSize
      have hrest := Nat.mod_lt (n + (nPageSize - 1)) hpage
      rw [if_pos hlimit, unsigned_bind (by omega), unsigned_of_lt (by omega)]
      exact ⟨_, rfl, by omega, by omega, fun _ => Nat.dvd_mul_left ..⟩
    · rw [if_neg hlimit]
      exact ⟨nMax, rfl, hn, le_rfl, id⟩
  · rw [if_neg (fun h => hlt h.2)]
    have heq : n = nMax := by omega
    exact ⟨n, rfl, le_rfl, hn, fun h => heq ▸ h⟩

theorem migrationSize_spec {nConfigured nSourceBytes : ℕ} (hk : k < p.sizeBits) :
    ∃ size, GetLMDBWalletMapSizeForMigration p (2 ^ k) nConfigured nSourceBytes = some size ∧
      nConfigured ≤ size ∧ min (2 * nSourceBytes + 16 * 1024 * 1024) (platformMax p) ≤ size ∧
      (2 ^ k ∣ nConfigured → 2 ^ k ∣ platformMax p → 2 ^ k ∣ size) := by
  have hmax : platformMax p < 2 ^ 64 := (platformMax_lt p).trans_le (sizeBits_le p)
  have hproduct : p.LMDB_MAX_MAPSIZE_MIB * 1024 * 1024 = platformMax p := Nat.mul_assoc ..
  unfold GetLMDBWalletMapSizeForMigration
  dsimp only
  rw [needed_eq, some_bind, hproduct, unsigned_bind hmax]
  generalize hneeded : min (nSourceBytes * 2 + 16 * 1024 * 1024) (2 ^ 64 - 1) = nNeeded
  have hclamp : (if nNeeded > platformMax p then platformMax p else nNeeded) ≤ platformMax p ∧
      min (2 * nSourceBytes + 16 * 1024 * 1024) (platformMax p) ≤
        if nNeeded > platformMax p then platformMax p else nNeeded := by
    split_ifs <;> omega
  obtain ⟨r, hr, hle, hrmax, hdvd⟩ := rounded_spec (Nat.two_pow_pos k) (page_le hk) hmax hclamp.1
  rw [hr, some_bind]
  split_ifs with hlarge
  · exact ⟨r, unsigned_of_lt (hrmax.trans_lt (platformMax_lt p)), hlarge.le, hclamp.2.trans hle,
      fun _ => hdvd⟩
  · exact ⟨nConfigured, rfl, le_rfl, hclamp.2.trans (hle.trans (not_lt.mp hlarge)), fun h _ => h⟩

end Sizes

/-- The sizes are safe on both platforms, for every page size that is a power of two. -/
theorem map_sizes_safe (p : Platform) (k : ℕ) (hk : k < p.sizeBits) :
    (∀ strValue, (∃ strError, ParseLMDBMapSize p (2 ^ k) strValue = some (.error strError)) ∨
      ∃ nMiB n : ℕ, ParseInt64Strict strValue = some (nMiB : ℤ) ∧ 0 < nMiB ∧
        n = nMiB * (1024 * 1024) ∧ n ≤ platformMax p ∧ (2 ^ k ≤ n → 2 ^ k ∣ n) ∧
        ParseLMDBMapSize p (2 ^ k) strValue = some (.ok n)) ∧
      (∀ strMapSize strMaxMapSize nDefaultInitialMiB fAutoGrow,
        ∃ r, ResolveLMDBMapSizes p (2 ^ k) strMapSize strMaxMapSize nDefaultInitialMiB fAutoGrow =
          some r ∧ ∀ sizes, r = .ok sizes → sizes.1 ≤ sizes.2) ∧
      ∀ nConfigured nSourceBytes : ℕ,
        ∃ size, GetLMDBWalletMapSizeForMigration p (2 ^ k) nConfigured nSourceBytes = some size ∧
          nConfigured ≤ size ∧ min (2 * nSourceBytes + 16 * 1024 * 1024) (platformMax p) ≤ size ∧
          (2 ^ k ∣ nConfigured → 2 ^ k ∣ platformMax p → 2 ^ k ∣ size) :=
  ⟨parseLMDBMapSize_cases (Nat.two_pow_pos k), resolveLMDBMapSizes_cases (Nat.two_pow_pos k),
    fun _ _ => migrationSize_spec hk⟩

/-- Pages of 4096 bytes, 4 GiB configured and a wallet of 3 GB. -/
theorem map_sizes_safe_64 : ∃ size, GetLMDBWalletMapSizeForMigration .bits64 4096 4294967296
    3000000000 = some size ∧ 6000000000 ≤ size := by
  obtain ⟨size, hsize, -, hle, -⟩ :=
    (map_sizes_safe .bits64 12 (by decide)).2.2 4294967296 3000000000
  exact ⟨size, hsize, le_trans (by decide) hle⟩

end Phoenixcoin.Analysis
