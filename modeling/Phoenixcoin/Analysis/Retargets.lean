import Phoenixcoin.Analysis.CompactTargets

/-!
# Changes of the difficulty

`GetNextWorkRequired` on a chain that starts at the genesis block finds every entry that it goes
back to, and its target lies above zero and within the limit. Where the difficulty changes, the
new target differs from the last one by the bounds of the time span, up to the rounding of the
compact form.
-/

set_option autoImplicit false

namespace Phoenixcoin.Analysis

open Program List

/-- A positive target in the compact form: how far its rounding goes. -/
structure RoundsTo (bn bnRounded : ℤ) : Prop where
  pos : 0 < bnRounded
  le : bnRounded ≤ bn
  close : (bn - bnRounded) * 2 ^ 15 ≤ bn

theorem roundsTo_getCompact {bn : ℤ} (hpos : 0 < bn) (hlt : bn < 2 ^ 256) :
    RoundsTo bn (setCompact (getCompact bn)) := by
  obtain ⟨n, rfl⟩ := Int.eq_ofNat_of_zero_le hpos.le
  have hn : mpiSize n ≤ 33 := mpiSize_le (by exact_mod_cast hlt : n < 2 ^ 256)
  have hle := roundDown_le n
  have hloss := sub_roundDown_lt n
  rw [setCompact_getCompact (hn.trans (by decide))]
  refine ⟨?_, by exact_mod_cast hle, ?_⟩
  · exact_mod_cast lt_of_lt_of_le (Nat.two_pow_pos _) (le_roundDown (by omega : n ≠ 0))
  · by_cases hsize : 3 ≤ mpiSize n
    · have hunit := compactUnit_le hsize
      omega
    · have hone : compactUnit n = 1 := by
        rw [compactUnit, Nat.sub_eq_zero_of_le (Nat.le_of_not_le hsize)]
        rfl
      omega

/-! ## The rules of the eras -/

/-- `nTargetTimespan` where the difficulty changes: from the fourth fork on five times that of
`nInterval` blocks. -/
def getTargetTimespan (fTestNet : Bool) (nHeight : ℕ) : ℤ :=
  let nTargetTimespan : ℤ := getTargetBlocks fTestNet nHeight * getTargetSpacing fTestNet nHeight
  if isForked fTestNet nForkFour nTestnetForkOne nHeight then nTargetTimespan * 5
  else nTargetTimespan

/-- The heights at which the difficulty is computed from the time stamps. -/
def Retargets (fTestNet : Bool) (nHeight : ℕ) : Prop :=
  nHeight ≠ nForkFive ∧
    (nHeight % getTargetBlocks fTestNet nHeight = 0 ∨ isHardFork fTestNet nHeight)

section

variable (fTestNet : Bool) (nHeight : ℕ)
include fTestNet nHeight

theorem getTargetBlocks_pos : 0 < getTargetBlocks fTestNet nHeight := by
  unfold getTargetBlocks
  split_ifs
  all_goals decide

theorem getTargetSpacing_pos : 0 < getTargetSpacing fTestNet nHeight := by
  unfold getTargetSpacing
  split_ifs
  all_goals decide

theorem le_getTargetTimespan : 900 ≤ getTargetTimespan fTestNet nHeight := by
  have hblocks : 20 ≤ getTargetBlocks fTestNet nHeight := by
    unfold getTargetBlocks
    split_ifs
    all_goals decide
  have hspacing : 45 ≤ getTargetSpacing fTestNet nHeight := by
    unfold getTargetSpacing
    split_ifs
    all_goals decide
  have hproduct : 20 * 45 ≤ getTargetBlocks fTestNet nHeight * getTargetSpacing fTestNet nHeight :=
    Nat.mul_le_mul hblocks hspacing
  unfold getTargetTimespan
  dsimp only
  split
  · omega
  · omega

/-- The limits of the time span lie around it and are far from zero. -/
theorem getTimespanBounds_spec {nTargetTimespan : ℤ} (h : 900 ≤ nTargetTimespan) :
    let bounds := getTimespanBounds fTestNet nHeight nTargetTimespan
    0 < bounds.1 ∧ bounds.1 ≤ nTargetTimespan ∧ nTargetTimespan ≤ bounds.2 ∧
      nTargetTimespan ≤ 256 * bounds.1 := by
  unfold getTimespanBounds
  split_ifs
  all_goals omega

end

/-! ## The chain -/

def Consecutive (chain : List CBlockIndex) : Prop :=
  ∀ i pindex, chain[i]? = some pindex → pindex.nHeight + i + 1 = chain.length

/-- The target of an entry is positive and within the limit. -/
def HasTarget (pindex : CBlockIndex) : Prop :=
  256 ≤ setCompact pindex.nBits ∧ setCompact pindex.nBits ≤ bnProofOfWorkLimit

theorem lastRegularBits_mem (nInterval nProofOfWorkLimit : ℕ) (pindex : CBlockIndex)
    (pprevs : List CBlockIndex) :
    ∃ e ∈ pindex :: pprevs,
      lastRegularBits nInterval nProofOfWorkLimit pindex pprevs = e.nBits := by
  induction pprevs generalizing pindex with
  | nil => exact ⟨pindex, mem_cons_self, rfl⟩
  | cons pprev pprevs ih =>
    unfold lastRegularBits
    split
    · obtain ⟨e, hmem, heq⟩ := ih pprev
      exact ⟨e, mem_cons_of_mem _ hmem, heq⟩
    · exact ⟨pindex, mem_cons_self, rfl⟩

/-- Both windows lie within the chain. -/
theorem getActualTimespan_isSome {fExtended : Bool} {nInterval : ℕ} (nTargetTimespan : ℤ)
    {pindexLast : CBlockIndex} {pprevs : List CBlockIndex}
    (hbasic : nInterval < (pindexLast :: pprevs).length)
    (hextended : fExtended → nInterval + nInterval * 4 < (pindexLast :: pprevs).length) :
    ∃ nActualTimespan, getActualTimespan fExtended nInterval nTargetTimespan pindexLast pprevs =
      some nActualTimespan := by
  rw [getActualTimespan, getElem?_eq_getElem hbasic, Option.bind_eq_bind]
  cases fExtended with
  | false => exact ⟨_, rfl⟩
  | true =>
    rw [getElem?_eq_getElem (hextended rfl)]
    exact ⟨_, rfl⟩

/-- The new target `bnNew` for a last target, before and after its rounding. -/
def WithinBounds (fTestNet : Bool) (nHeight : ℕ) (bnLast bnRounded : ℤ) : Prop :=
  let nTargetTimespan := getTargetTimespan fTestNet nHeight
  let bounds := getTimespanBounds fTestNet nHeight nTargetTimespan
  ∃ bnNew, bnLast * bounds.1 / nTargetTimespan ≤ bnNew ∧
    bnNew ≤ bnLast * bounds.2 / nTargetTimespan ∧ RoundsTo bnNew bnRounded

theorem retargetWork_spec {fTestNet : Bool} {pindexLast : CBlockIndex}
    {pprevs : List CBlockIndex} (hheight : pindexLast.nHeight + 1 = (pindexLast :: pprevs).length)
    (htarget : HasTarget pindexLast) :
    let nHeight := pindexLast.nHeight + 1
    let nInterval := getTargetBlocks fTestNet nHeight
    ∃ nBits, retargetWork fTestNet nInterval (nInterval * getTargetSpacing fTestNet nHeight)
        pindexLast pprevs = some nBits ∧
      setCompact nBits ≤ bnProofOfWorkLimit ∧
      WithinBounds fTestNet nHeight (setCompact pindexLast.nBits) (setCompact nBits) := by
  generalize hn : pindexLast.nHeight + 1 = nHeight at hheight
  have hfork (hforked : isForked fTestNet nForkFour nTestnetForkOne nHeight = true) :
      600 ≤ nHeight ∧ getTargetBlocks fTestNet nHeight = 20 := by
    constructor
    · unfold isForked nForkFour nTestnetForkOne at hforked
      simp only [Bool.or_eq_true, Bool.and_eq_true, decide_eq_true_eq] at hforked
      omega
    · rw [getTargetBlocks, if_pos hforked]
  have hspan := le_getTargetTimespan fTestNet nHeight
  have hspec := getTimespanBounds_spec fTestNet nHeight hspan
  obtain ⟨hlow, hhigh⟩ := htarget
  unfold WithinBounds retargetWork
  dsimp only at hspec ⊢
  rw [hn]
  have htimespan : (if isForked fTestNet nForkFour nTestnetForkOne nHeight = true then
      (getTargetBlocks fTestNet nHeight : ℤ) * getTargetSpacing fTestNet nHeight * 5
      else (getTargetBlocks fTestNet nHeight : ℤ) * getTargetSpacing fTestNet nHeight) =
        getTargetTimespan fTestNet nHeight := rfl
  rw [htimespan]
  generalize getTargetTimespan fTestNet nHeight = nTargetTimespan at hspan hspec ⊢
  generalize getTimespanBounds fTestNet nHeight nTargetTimespan = bounds at hspec ⊢
  generalize setCompact pindexLast.nBits = bnLast at hlow hhigh ⊢
  have hinterval (hforked : isForked fTestNet nForkFour nTestnetForkOne nHeight = true) :
      (if isForked fTestNet nForkFour nTestnetForkOne nHeight = true then
        getTargetBlocks fTestNet nHeight * 5 else getTargetBlocks fTestNet nHeight) = 100 := by
    rw [if_pos hforked, (hfork hforked).2]
  generalize (if isForked fTestNet nForkFour nTestnetForkOne nHeight = true then
    getTargetBlocks fTestNet nHeight * 5 else getTargetBlocks fTestNet nHeight) = nInterval
    at hinterval ⊢
  obtain ⟨nActualTimespan, hactual⟩ := @getActualTimespan_isSome
    (isForked fTestNet nForkFour nTestnetForkOne nHeight)
    (if nInterval ≥ nHeight then nHeight - 1 else nInterval) nTargetTimespan pindexLast pprevs
    (by
      split
      · omega
      · omega)
    (by
      intro hforked
      have hheight600 := (hfork hforked).1
      rw [hinterval hforked, if_neg (by omega)]
      omega)
  rw [hactual, Option.bind_eq_bind, Option.bind_some]
  generalize hclamped : min (max nActualTimespan bounds.1) bounds.2 = nClamped
  have hmin : bounds.1 ≤ nClamped := by omega
  have hmax : nClamped ≤ bounds.2 := by omega
  have hnonneg : 0 ≤ bnLast * nClamped := mul_nonneg (by omega) (by omega)
  have hdiv : (bnLast * nClamped).tdiv nTargetTimespan = bnLast * nClamped / nTargetTimespan :=
    Int.tdiv_eq_ediv_of_nonneg hnonneg
  have hlower : bnLast * bounds.1 / nTargetTimespan ≤ bnLast * nClamped / nTargetTimespan := by
    apply Int.ediv_le_ediv (by omega)
    exact mul_le_mul_of_nonneg_left hmin (by omega)
  have hupper : bnLast * nClamped / nTargetTimespan ≤ bnLast * bounds.2 / nTargetTimespan := by
    apply Int.ediv_le_ediv (by omega)
    exact mul_le_mul_of_nonneg_left hmax (by omega)
  have hlimit : bnLast * bounds.1 / nTargetTimespan ≤ bnProofOfWorkLimit := by
    refine le_trans ?_ hhigh
    apply Int.ediv_le_of_le_mul (by omega)
    exact mul_le_mul_of_nonneg_left hspec.2.1 (by omega)
  have hleast : 1 ≤ bnLast * bounds.1 / nTargetTimespan := by
    rw [Int.le_ediv_iff_mul_le (by omega)]
    calc 1 * nTargetTimespan ≤ 256 * bounds.1 := by omega
      _ ≤ bnLast * bounds.1 := mul_le_mul_of_nonneg_right hlow hspec.1.le
  have hmaxlimit : bnProofOfWorkLimit < 2 ^ 256 := by decide
  have hrounds := @roundsTo_getCompact
    (min (bnLast * nClamped / nTargetTimespan) bnProofOfWorkLimit) (by omega) (by omega)
  rw [hdiv]
  refine ⟨_, rfl, ?_, _, ?_, ?_, hrounds⟩
  · exact hrounds.le.trans (min_le_right _ _)
  · exact le_min hlower hlimit
  · exact (min_le_left _ _).trans hupper

theorem setCompact_limit : setCompact (getCompact bnProofOfWorkLimit) ≤ bnProofOfWorkLimit ∧
    0 < setCompact (getCompact bnProofOfWorkLimit) := by
  decide

theorem setCompact_neoScryptSwitch :
    setCompact (getCompact bnNeoScryptSwitch) ≤ bnProofOfWorkLimit ∧
      0 < setCompact (getCompact bnNeoScryptSwitch) := by
  decide

/-- No divisor of the computation is zero: `nInterval`, the time spans, and the time span between
its bounds, by which a message divides. -/
def DivisorsPositive (fTestNet : Bool) (nHeight : ℕ) : Prop :=
  0 < getTargetSpacing fTestNet nHeight ∧ 0 < getTargetBlocks fTestNet nHeight ∧
    0 < getTargetTimespan fTestNet nHeight ∧
    0 < (getTimespanBounds fTestNet nHeight (getTargetTimespan fTestNet nHeight)).1

theorem divisorsPositive (fTestNet : Bool) (nHeight : ℕ) : DivisorsPositive fTestNet nHeight := by
  have hspan := le_getTargetTimespan fTestNet nHeight
  exact ⟨getTargetSpacing_pos fTestNet nHeight, getTargetBlocks_pos fTestNet nHeight, by omega,
    (getTimespanBounds_spec fTestNet nHeight hspan).1⟩

/-- The work that the next block needs is defined on every chain from the genesis block, with a
target that is positive and within the limit, and where it changes it keeps to its bounds. -/
theorem getNextWorkRequired_bounded {fTestNet : Bool} {chain : List CBlockIndex}
    (hchain : Consecutive chain) (htargets : ∀ pindex ∈ chain, HasTarget pindex) (nTime : ℕ) :
    ∃ nBits, getNextWorkRequired fTestNet nTime chain = some nBits ∧ 0 < setCompact nBits ∧
      setCompact nBits ≤ bnProofOfWorkLimit ∧
      ∀ pindexLast pprevs, chain = pindexLast :: pprevs →
        DivisorsPositive fTestNet (pindexLast.nHeight + 1) ∧
          (Retargets fTestNet (pindexLast.nHeight + 1) →
            WithinBounds fTestNet (pindexLast.nHeight + 1) (setCompact pindexLast.nBits)
              (setCompact nBits)) := by
  have htarget {pindex : CBlockIndex} (hmem : pindex ∈ chain) :
      0 < setCompact pindex.nBits ∧ setCompact pindex.nBits ≤ bnProofOfWorkLimit := by
    have hbounds := htargets pindex hmem
    exact ⟨lt_of_lt_of_le (by decide) hbounds.1, hbounds.2⟩
  cases chain with
  | nil =>
    exact ⟨_, rfl, setCompact_limit.2, setCompact_limit.1, fun _ _ h => absurd h (by simp)⟩
  | cons pindexLast pprevs =>
    have hregular {nBits : ℕ} (hnot : ¬ Retargets fTestNet (pindexLast.nHeight + 1)) :
        ∀ last rest, pindexLast :: pprevs = last :: rest →
          DivisorsPositive fTestNet (last.nHeight + 1) ∧
            (Retargets fTestNet (last.nHeight + 1) →
              WithinBounds fTestNet (last.nHeight + 1) (setCompact last.nBits)
                (setCompact nBits)) := by
      intro last rest hcons
      cases hcons
      exact ⟨divisorsPositive _ _, fun hretargets => absurd hretargets hnot⟩
    unfold getNextWorkRequired
    dsimp only
    by_cases hfive : pindexLast.nHeight + 1 = nForkFive
    · rw [if_pos hfive]
      exact ⟨_, rfl, setCompact_neoScryptSwitch.2, setCompact_neoScryptSwitch.1,
        hregular fun hretargets => hretargets.1 hfive⟩
    · rw [if_neg hfive]
      by_cases hkeep : (pindexLast.nHeight + 1) %
            getTargetBlocks fTestNet (pindexLast.nHeight + 1) ≠ 0 ∧
          ¬ isHardFork fTestNet (pindexLast.nHeight + 1)
      · have hnot : ¬ Retargets fTestNet (pindexLast.nHeight + 1) := by
          intro hretargets
          rcases hretargets.2 with hzero | hfork
          · exact hkeep.1 hzero
          · exact hkeep.2 hfork
        rw [if_pos hkeep]
        split
        · have hlast := htarget mem_cons_self
          exact ⟨_, rfl, hlast.1, hlast.2, hregular hnot⟩
        · split
          · exact ⟨_, rfl, setCompact_limit.2, setCompact_limit.1, hregular hnot⟩
          · obtain ⟨e, hmem, heq⟩ := lastRegularBits_mem
              (getTargetBlocks fTestNet (pindexLast.nHeight + 1))
              (getCompact bnProofOfWorkLimit) pindexLast pprevs
            have he := htarget hmem
            rw [heq]
            exact ⟨_, rfl, he.1, he.2, hregular hnot⟩
      · rw [if_neg hkeep]
        have hheight : pindexLast.nHeight + 1 = (pindexLast :: pprevs).length :=
          hchain 0 pindexLast rfl
        obtain ⟨nBits, hwork, hlimit, hwithin⟩ := @retargetWork_spec fTestNet pindexLast pprevs
          hheight (htargets pindexLast mem_cons_self)
        have hpos : 0 < setCompact nBits := by
          obtain ⟨bnNew, -, -, hrounds⟩ := hwithin
          exact hrounds.pos
        refine ⟨nBits, hwork, hpos, hlimit, ?_⟩
        intro last rest hcons
        cases hcons
        exact ⟨divisorsPositive _ _, fun _ => hwithin⟩

namespace RetargetExample

/-- Blocks from the genesis block on, ten seconds apart. -/
def blocks : ℕ → List CBlockIndex
  | 0 => []
  | n + 1 =>
    ⟨some (n + 1), none, none, 1, 0, n, 0, 2, 0, 1317972665 + 10 * n, 0x1d00ffff, 0⟩ :: blocks n

theorem length_blocks (n : ℕ) : (blocks n).length = n := by
  induction n with
  | zero => rfl
  | succ n ih => rw [blocks, length_cons, ih]

theorem consecutive_blocks (n : ℕ) : Consecutive (blocks n) := by
  induction n with
  | zero =>
    intro i pindex h
    simp [blocks] at h
  | succ n ih =>
    intro i pindex h
    rw [length_blocks]
    cases i with
    | zero =>
      cases h
      rfl
    | succ i =>
      have hrest := ih i pindex h
      rw [length_blocks] at hrest
      omega

theorem hasTarget_blocks (n : ℕ) : ∀ pindex ∈ blocks n, HasTarget pindex := by
  induction n with
  | zero =>
    intro pindex h
    cases h
  | succ n ih =>
    intro pindex h
    rcases mem_cons.mp h with rfl | h
    · have hbits : 256 ≤ setCompact 0x1d00ffff ∧ setCompact 0x1d00ffff ≤ bnProofOfWorkLimit := by
        decide
      exact hbits
    · exact ih pindex h

end RetargetExample

open RetargetExample in
/-- The first change of the difficulty on testnet; the window is shortened to the chain. -/
theorem getNextWorkRequired_testnet :
    ∃ nBits, getNextWorkRequired true 1317974000 (blocks 126) = some nBits ∧
      0 < setCompact nBits ∧ setCompact nBits ≤ bnProofOfWorkLimit ∧
      WithinBounds true 126 (setCompact 0x1d00ffff) (setCompact nBits) := by
  obtain ⟨nBits, hwork, hpos, hlimit, hlast⟩ :=
    @getNextWorkRequired_bounded true (blocks 126) (consecutive_blocks 126)
      (hasTarget_blocks 126) 1317974000
  have hretargets : Retargets true 126 := ⟨by decide, Or.inl (by decide)⟩
  exact ⟨nBits, hwork, hpos, hlimit, (hlast _ _ rfl).2 hretargets⟩

end Phoenixcoin.Analysis
