import Phoenixcoin.Program.EvalScript

/-!
# Signature operations are counted from above

The signature verifications that a script run makes, against the static count that blocks are
limited by. The interpreter takes the number of keys from the stack and skips the branches that
are not taken; the count walks over all opcodes and remembers the last one. What connects them is
`NumberOnTop`: after a number opcode that was executed, its number is on top of the stack.
-/

set_option autoImplicit false

namespace Phoenixcoin.Analysis

open Program EvalState List

/-! ## One verification -/

section Checks

variable (C : SignatureCrypto) (scriptCode : CScript) (txTo : CTransaction) (nIn nHashType : ℕ)

theorem CheckSig_total (vchSig vchPubKey : valtype) (sighash : Option uint256)
    (checks : SignatureChecks) :
    (CheckSig C vchSig vchPubKey scriptCode txTo nIn nHashType sighash checks).2.total ≤
      checks.total + 1 := by
  have hcached (hash : uint256) (sig : valtype) :
      (verifyCached C hash sig vchPubKey checks).2.total ≤ checks.total + 1 := by
    unfold verifyCached
    simp only [SignatureChecks.total]
    split_ifs <;> dsimp only <;> omega
  unfold CheckSig
  simp only [SignatureChecks.total] at hcached ⊢
  split_ifs
  all_goals first | exact Nat.le_succ _ | exact hcached _ _

theorem VerifyMLDSA_total (mldsaSig mldsaPubKey : valtype) (msg : List UInt8)
    (checks : SignatureChecks) :
    (VerifyMLDSA C mldsaSig mldsaPubKey msg checks).2.total ≤ checks.total + 1 := by
  unfold VerifyMLDSA
  simp only [SignatureChecks.total]
  split_ifs <;> dsimp only <;> omega

theorem checkHybridPair_total (sigPair pubPair : valtype × valtype) (preimage : List UInt8)
    (checks : SignatureChecks) :
    (checkHybridPair C sigPair pubPair scriptCode txTo nIn nHashType preimage checks).2.total ≤
      checks.total + 2 := by
  have hsig := CheckSig_total C scriptCode txTo nIn nHashType sigPair.1 pubPair.1
    (some (C.Hash preimage)) checks
  unfold checkHybridPair
  split
  · next heq =>
    rw [heq] at hsig
    omega
  · next checks₁ heq =>
    rw [heq] at hsig
    have hmldsa := VerifyMLDSA_total C sigPair.2.dropLast pubPair.2 (BuildHybridMessage preimage)
      checks₁
    dsimp only at hsig
    omega

theorem VerifyHybridSignature_total (sigPair pubPair : valtype × valtype)
    (checks : SignatureChecks) :
    (VerifyHybridSignature C sigPair pubPair scriptCode txTo nIn nHashType checks).2.total ≤
      checks.total + 2 := by
  unfold VerifyHybridSignature
  split_ifs
  any_goals exact Nat.le_add_right _ _
  split
  · exact Nat.le_add_right _ _
  · apply checkHybridPair_total

/-- Every key is tried once at most. -/
theorem matchSignatures_total (sigs keys : List valtype) (checks : SignatureChecks) :
    (matchSignatures C scriptCode txTo nIn nHashType sigs keys checks).2.total ≤
      checks.total + keys.length := by
  induction keys generalizing sigs checks with
  | nil => cases sigs <;> exact Nat.le_add_right _ _
  | cons key keys ih =>
    cases sigs with
    | nil => exact Nat.le_add_right _ _
    | cons sig sigs =>
      have hsig := CheckSig_total C scriptCode txTo nIn nHashType sig key none checks
      unfold matchSignatures
      generalize CheckSig C sig key scriptCode txTo nIn nHashType none checks = result at hsig
      obtain ⟨fMatch, checks₁⟩ := result
      dsimp only at hsig ⊢
      have hrest := ih (if fMatch = true then sigs else sig :: sigs) checks₁
      rw [length_cons]
      by_cases hmore : (if fMatch = true then sigs else sig :: sigs).length > keys.length
      · rw [if_pos hmore]
        dsimp only
        omega
      · rw [if_neg hmore]
        omega

theorem matchHybridSignatures_total (preimage : List UInt8)
    (sigs keys : List (valtype × valtype)) (checks : SignatureChecks) :
    (matchHybridSignatures C scriptCode txTo nIn nHashType preimage sigs keys checks).2.total ≤
      checks.total + 2 * keys.length := by
  induction keys generalizing sigs checks with
  | nil => cases sigs <;> exact Nat.le_add_right _ _
  | cons key keys ih =>
    cases sigs with
    | nil => exact Nat.le_add_right _ _
    | cons sig sigs =>
      have hpair := checkHybridPair_total C scriptCode txTo nIn nHashType sig key preimage checks
      unfold matchHybridSignatures
      generalize checkHybridPair C sig key scriptCode txTo nIn nHashType preimage checks = result
        at hpair
      obtain ⟨fMatch, checks₁⟩ := result
      dsimp only at hpair ⊢
      have hrest := ih (if fMatch = true then sigs else sig :: sigs) checks₁
      rw [length_cons]
      omega

end Checks

/-! ## One opcode -/

/-- The signature checks that a step or a run ends with, whether it succeeds or fails. -/
def checksAfter (result : Except EvalFailure EvalState) : SignatureChecks :=
  match result with
  | .ok st => st.checks
  | .error failure => failure.checks

@[simp]
theorem checksAfter_onStack (st : EvalState) (result : StackResult) :
    checksAfter (st.onStack result) = st.checks := by
  cases result <;> rfl

@[simp]
theorem checksAfter_pushResult (st : EvalState) (fVerify : Bool) (rest : Stack)
    (result : Bool × SignatureChecks) :
    checksAfter (st.pushResult fVerify rest result) = result.2 := by
  rw [pushResult, checksAfter_onStack]

variable {n : ℕ} {st : EvalState} {lastOpcode : opcodetype}

theorem stackCount_eq_some {bound : ℕ} {stack rest : Stack}
    (h : stackCount bound stack = some (n, rest)) :
    n ≤ bound ∧ ∃ vch, stack = vch :: rest ∧ CastToBigNum vch = some (n : ℤ) := by
  cases stack with
  | nil => cases h
  | cons vch stack =>
    rw [stackCount] at h
    cases hcast : CastToBigNum vch with
    | none =>
      rw [hcast] at h
      cases h
    | some k =>
      rw [hcast] at h
      dsimp only at h
      by_cases hrange : k < 0 ∨ k > bound
      · rw [if_pos hrange] at h
        cases h
      · rw [if_neg hrange] at h
        cases h
        refine ⟨by omega, vch, rfl, ?_⟩
        rw [Int.toNat_of_nonneg (by omega), hcast]

theorem length_hybridPairs (stack : Stack) : 2 * (hybridPairs stack).length ≤ stack.length := by
  induction stack using hybridPairs.induct with
  | case1 vchML vchEC stack ih =>
    rw [hybridPairs, length_cons, length_cons, length_cons]
    omega
  | case2 stack hshort =>
    cases stack with
    | nil => exact Nat.le_refl _
    | cons x stack =>
      cases stack with
      | nil => exact Nat.zero_le _
      | cons y stack => exact absurd rfl (hshort x y stack)

section Opcodes

variable (C : SignatureCrypto) (txTo : CTransaction) (nIn nHashType : ℕ) (st : EvalState)

theorem opCheckSig_total (fVerify : Bool) :
    (checksAfter (st.opCheckSig C txTo nIn nHashType fVerify)).total ≤ st.checks.total + 1 := by
  unfold opCheckSig
  split
  · rw [checksAfter_pushResult]
    apply CheckSig_total
  · exact Nat.le_succ _

theorem opCheckHybridSig_total (fVerify : Bool) :
    (checksAfter (st.opCheckHybridSig C txTo nIn nHashType fVerify)).total ≤
      st.checks.total + 2 := by
  unfold opCheckHybridSig
  split
  · rw [checksAfter_pushResult]
    apply VerifyHybridSignature_total
  · exact Nat.le_add_right _ _

/-- The keys that a multisig opcode can read are bounded by the number on top of the stack. -/
def KeysAtMost (n : ℕ) (stack : Stack) : Prop :=
  ∀ nKeysCount rest, stackCount 20 stack = some (nKeysCount, rest) → nKeysCount ≤ n

theorem keysAtMost_twenty (stack : Stack) : KeysAtMost 20 stack :=
  fun _ _ h => (stackCount_eq_some h).1

variable {n : ℕ}

theorem opCheckMultisig_total (fVerify : Bool) (hkeys : KeysAtMost n st.stack) :
    (checksAfter (st.opCheckMultisig C txTo nIn nHashType fVerify)).total ≤
      st.checks.total + n := by
  unfold opCheckMultisig
  split
  · exact Nat.le_add_right _ _
  · next nKeysCount stack₁ hcount =>
    have hn := hkeys nKeysCount stack₁ hcount
    dsimp only
    split
    · exact Nat.le_add_right _ _
    · split
      · exact Nat.le_add_right _ _
      · next nSigsCount stack₂ _ =>
        split
        · exact Nat.le_add_right _ _
        · rw [checksAfter_pushResult]
          have hmatch := matchSignatures_total C
            (dropSignatures st.pbegincodehash (stack₂.take nSigsCount)) txTo nIn nHashType
            (stack₂.take nSigsCount) (stack₁.take nKeysCount) st.checks
          have htake := length_take_le nKeysCount stack₁
          omega

theorem checkMultiHybrid_total (sigs keys : List (valtype × valtype)) (rest : Stack) :
    (checksAfter (st.checkMultiHybrid C txTo nIn nHashType sigs keys rest)).total ≤
      st.checks.total + 2 * keys.length := by
  unfold checkMultiHybrid
  split
  · exact Nat.le_add_right _ _
  · dsimp only
    split
    · exact Nat.le_add_right _ _
    · split
      · exact Nat.le_add_right _ _
      · apply matchHybridSignatures_total

theorem opCheckMultiHybridSig_total (hkeys : KeysAtMost n st.stack) :
    (checksAfter (st.opCheckMultiHybridSig C txTo nIn nHashType)).total ≤
      st.checks.total + n * 2 := by
  unfold opCheckMultiHybridSig
  split
  · exact Nat.le_add_right _ _
  · next nKeysCount stack₁ hcount =>
    have hn := hkeys nKeysCount stack₁ hcount
    dsimp only
    split
    · exact Nat.le_add_right _ _
    · split
      · exact Nat.le_add_right _ _
      · next nSigsCount stack₂ _ =>
        split
        · exact Nat.le_add_right _ _
        · split
          · exact Nat.le_add_right _ _
          · have hmatch := checkMultiHybrid_total C txTo nIn nHashType
              { st with nOpCount := st.nOpCount + nKeysCount }
              (hybridPairs (stack₂.take (nSigsCount * 2)))
              (hybridPairs (stack₁.take (nKeysCount * 2))) (stack₂.drop (nSigsCount * 2))
            have hpairs := length_hybridPairs (stack₁.take (nKeysCount * 2))
            have htake := length_take_le (nKeysCount * 2) stack₁
            dsimp only at hmatch
            omega

theorem opIf_checks (opcode : opcodetype) : checksAfter (st.opIf opcode) = st.checks := by
  unfold opIf
  split
  · split <;> rfl
  · rfl

end Opcodes

/-! ## The number before a multisig opcode -/

def NumberOnTop (lastOpcode : opcodetype) (st : EvalState) : Prop :=
  OP_1 ≤ lastOpcode → lastOpcode ≤ OP_16 → st.fExec = true →
    ∃ rest, st.stack = bnGetvch (lastOpcode.toNat - (OP_1.toNat - 1)) :: rest

variable {opcode : opcodetype}

/-- A number opcode as the number it stands for. -/
theorem toNat_number (hlow : OP_1 ≤ opcode) (hhigh : opcode ≤ OP_16) :
    ∃ k < 16, opcode.toNat = OP_1.toNat + k ∧ DecodeOP_N opcode = k + 1 := by
  have hlow' : OP_1.toNat ≤ opcode.toNat := UInt8.le_iff_toNat_le.mp hlow
  have hhigh' : opcode.toNat ≤ OP_16.toNat := UInt8.le_iff_toNat_le.mp hhigh
  have hfirst : OP_1.toNat = 0x51 := rfl
  have hlast : OP_16.toNat = 0x60 := rfl
  have hzero : opcode ≠ OP_0 := by
    intro h
    rw [h] at hlow'
    exact absurd hlow' (by decide)
  refine ⟨opcode.toNat - 0x51, by omega, by omega, ?_⟩
  rw [DecodeOP_N, if_neg hzero]
  omega

/-- The numbers of the opcodes read back as themselves. -/
theorem castToBigNum_number (hlow : OP_1 ≤ opcode) (hhigh : opcode ≤ OP_16) :
    CastToBigNum (bnGetvch (opcode.toNat - (OP_1.toNat - 1))) = some (DecodeOP_N opcode : ℤ) := by
  obtain ⟨k, hk, hnat, hdecode⟩ := toNat_number hlow hhigh
  have hread : ∀ k < 16, CastToBigNum (bnGetvch (k + 1 : ℕ)) = some ((k + 1 : ℕ) : ℤ) := by
    decide
  have hnumber : (opcode.toNat : ℤ) - (OP_1.toNat - 1) = (k + 1 : ℕ) := by omega
  rw [hnumber, hdecode, hread k hk]

theorem keysAtMost_number (h : NumberOnTop opcode st) (hlow : OP_1 ≤ opcode)
    (hhigh : opcode ≤ OP_16) (hexec : st.fExec = true) :
    KeysAtMost (DecodeOP_N opcode) st.stack := by
  intro nKeysCount rest hcount
  obtain ⟨_, vch, hstack, hcast⟩ := stackCount_eq_some hcount
  obtain ⟨rest', hnumber⟩ := h hlow hhigh hexec
  rw [hnumber] at hstack
  cases hstack
  rw [castToBigNum_number hlow hhigh] at hcast
  have heq : (DecodeOP_N opcode : ℤ) = nKeysCount := Option.some.inj hcast
  omega

def countedKeys (lastOpcode : opcodetype) : ℕ :=
  if OP_1 ≤ lastOpcode ∧ lastOpcode ≤ OP_16 then DecodeOP_N lastOpcode else 20

theorem keysAtMost_counted (h : NumberOnTop lastOpcode st) (hexec : st.fExec = true) :
    KeysAtMost (countedKeys lastOpcode) st.stack := by
  unfold countedKeys
  by_cases hnumber : OP_1 ≤ lastOpcode ∧ lastOpcode ≤ OP_16
  · rw [if_pos hnumber]
    exact keysAtMost_number h hnumber.1 hnumber.2 hexec
  · rw [if_neg hnumber]
    exact keysAtMost_twenty st.stack

theorem sigOps_multisig (h : opcode = OP_CHECKMULTISIG ∨ opcode = OP_CHECKMULTISIGVERIFY) :
    sigOps true lastOpcode opcode = countedKeys lastOpcode := by
  rcases h with rfl | rfl <;> simp [sigOps, countedKeys, OP_CHECKSIG, OP_CHECKSIGVERIFY,
    OP_CHECKMULTISIG, OP_CHECKMULTISIGVERIFY]

theorem sigOps_multiHybrid (lastOpcode : opcodetype) :
    sigOps true lastOpcode OP_CHECKMULTIHYBRIDSIG = countedKeys lastOpcode * 2 := by
  rw [sigOps, countedKeys, if_neg (by decide), if_neg (by decide), if_neg (by decide)]
  simp only [true_and]
  split_ifs <;> rfl

section Step

variable (C : SignatureCrypto) (txTo : CTransaction) (nIn nHashType : ℕ) {st : EvalState}
  {lastOpcode opcode : opcodetype}

theorem execOp_total (pc : CScript) (hnumber : NumberOnTop lastOpcode st)
    (hexec : st.fExec = true ∨ (OP_IF ≤ opcode ∧ opcode ≤ OP_ENDIF)) :
    (checksAfter (st.execOp C txTo nIn nHashType opcode pc)).total ≤
      st.checks.total + sigOps true lastOpcode opcode := by
  have hsame {result : Except EvalFailure EvalState} (h : checksAfter result = st.checks) :
      (checksAfter result).total ≤ st.checks.total + sigOps true lastOpcode opcode := by
    rw [h]
    exact Nat.le_add_right _ _
  -- Only the control opcodes are executed in a branch that is not taken.
  have hkeys (hcontrol : ¬ (OP_IF ≤ opcode ∧ opcode ≤ OP_ENDIF)) :
      KeysAtMost (countedKeys lastOpcode) st.stack :=
    keysAtMost_counted hnumber (hexec.resolve_right hcontrol)
  unfold execOp
  split
  · exact hsame (opIf_checks st opcode)
  split
  · apply hsame
    split <;> rfl
  split
  · apply hsame
    split <;> rfl
  split
  · apply hsame
    split <;> rfl
  split
  · apply hsame
    split <;> rfl
  split
  · exact hsame rfl
  split
  · next hop =>
    have hone : sigOps true lastOpcode opcode = 1 := by rw [sigOps, if_pos hop]
    rw [hone]
    apply opCheckSig_total
  split
  · next hop =>
    rw [sigOps_multisig hop]
    apply opCheckMultisig_total
    apply hkeys
    rcases hop with rfl | rfl <;> decide
  split
  · next hop =>
    have htwo : sigOps true lastOpcode opcode = 2 := by
      rcases hop with rfl | rfl <;> rfl
    rw [htwo]
    apply opCheckHybridSig_total
  split
  · next hop =>
    subst hop
    rw [sigOps_multiHybrid]
    apply opCheckMultiHybridSig_total
    exact hkeys (by decide)
  · exact hsame (checksAfter_onStack st _)

/-- One instruction verifies no more than the count has for it. -/
theorem boundedStep_total (opcode : opcodetype) (vchPushValue : valtype) (pc : CScript)
    (hnumber : NumberOnTop lastOpcode st) :
    (checksAfter (st.boundedStep C txTo nIn nHashType opcode vchPushValue pc)).total ≤
      st.checks.total + sigOps true lastOpcode opcode := by
  have hstep : (checksAfter (st.step C txTo nIn nHashType opcode vchPushValue pc)).total ≤
      st.checks.total + sigOps true lastOpcode opcode := by
    unfold step
    split
    · exact Nat.le_add_right _ _
    split
    · exact Nat.le_add_right _ _
    extract_lets counted
    have hcounted : counted.checks = st.checks ∧ NumberOnTop lastOpcode counted := by
      unfold counted
      split
      · exact ⟨rfl, hnumber⟩
      · exact ⟨rfl, hnumber⟩
    rw [← hcounted.1]
    split
    · exact Nat.le_add_right _ _
    split
    · exact Nat.le_add_right _ _
    split
    · next hexec =>
      exact execOp_total C txTo nIn nHashType pc hcounted.2 hexec
    · exact Nat.le_add_right _ _
  unfold boundedStep
  split
  · next heq =>
    rw [heq] at hstep
    exact hstep
  · next st' heq =>
    rw [heq] at hstep
    split
    · exact hstep
    · exact hstep

theorem execOp_push (pc : CScript) (h : opcode ≤ OP_16) :
    st.execOp C txTo nIn nHashType opcode pc =
      st.onStack (stackOp C.toDigests opcode st.stack) := by
  have hne {other : opcodetype} (hother : OP_16 < other) : opcode ≠ other := by
    intro heq
    rw [heq] at h
    exact absurd h (UInt8.not_le.mpr hother)
  have hneither {a b : opcodetype} (ha : OP_16 < a) (hb : OP_16 < b) :
      ¬ (opcode = a ∨ opcode = b) := not_or.mpr ⟨hne ha, hne hb⟩
  rw [execOp, if_neg (hneither (by decide) (by decide)), if_neg (hne (by decide)),
    if_neg (hne (by decide)), if_neg (hne (by decide)), if_neg (hne (by decide)),
    if_neg (hne (by decide)), if_neg (hneither (by decide) (by decide)),
    if_neg (hneither (by decide) (by decide)), if_neg (hneither (by decide) (by decide)),
    if_neg (hne (by decide))]

def Pushed (opcode : opcodetype) (vchPushValue vch : valtype) : Prop :=
  (opcode ≤ OP_PUSHDATA4 ∧ vch = vchPushValue) ∨
    (isPushNumber opcode ∧ vch = bnGetvch (opcode.toNat - (OP_1.toNat - 1)))

theorem push_cases (h : opcode ≤ OP_16) :
    opcode ≤ OP_PUSHDATA4 ∨ isPushNumber opcode ∨ opcode = 0x50 := by
  by_cases hplain : opcode ≤ OP_PUSHDATA4
  · exact Or.inl hplain
  · have hmore : OP_PUSHDATA4.toNat < opcode.toNat := by
      rw [UInt8.le_iff_toNat_le] at hplain
      omega
    have hpush : OP_PUSHDATA4.toNat = 0x4e := rfl
    by_cases hneg : opcode.toNat = 0x4f
    · exact Or.inr (Or.inl (Or.inl (UInt8.toNat_inj.mp hneg)))
    · by_cases hreserved : opcode.toNat = 0x50
      · exact Or.inr (Or.inr (UInt8.toNat_inj.mp hreserved))
      · have hone : OP_1.toNat = 0x51 := rfl
        have hlow : OP_1 ≤ opcode := UInt8.le_iff_toNat_le.mpr (by omega)
        exact Or.inr (Or.inl (Or.inr ⟨hlow, h⟩))

variable {pc : CScript} {st' : EvalState} {vchPushValue : valtype}

theorem step_of_boundedStep
    (h : st.boundedStep C txTo nIn nHashType opcode vchPushValue pc = .ok st') :
    st.step C txTo nIn nHashType opcode vchPushValue pc = .ok st' := by
  unfold boundedStep at h
  split at h
  · cases h
  · next heq =>
    split at h
    · cases h
    · cases h
      exact heq

theorem step_push (pc : CScript) (hpush : opcode ≤ OP_16) :
    st.step C txTo nIn nHashType opcode vchPushValue pc =
      if vchPushValue.length > MAX_SCRIPT_ELEMENT_SIZE then st.fail
      else if isDisabled opcode then st.fail
      else if st.fExec = true ∧ opcode ≤ OP_PUSHDATA4 then
        .ok { st with stack := vchPushValue :: st.stack }
      else if st.fExec = true then st.execOp C txTo nIn nHashType opcode pc
      else .ok st := by
  have hcount : ¬ opcode > OP_16 := UInt8.not_lt.mpr hpush
  have hcontrol : ¬ (OP_IF ≤ opcode ∧ opcode ≤ OP_ENDIF) := by
    intro hand
    exact absurd (UInt8.le_trans hand.1 hpush) (by decide)
  unfold step
  simp [hcount, hcontrol]

/-- A push opcode that is executed puts one value on the stack. -/
theorem boundedStep_push (hpush : opcode ≤ OP_16) (hexec : st.fExec = true)
    (h : st.boundedStep C txTo nIn nHashType opcode vchPushValue pc = .ok st') :
    st'.vfExec = st.vfExec ∧
      ∃ vch, Pushed opcode vchPushValue vch ∧ st'.stack = vch :: st.stack := by
  have hstep := step_of_boundedStep C txTo nIn nHashType h
  rw [step_push C txTo nIn nHashType pc hpush] at hstep
  split at hstep
  · cases hstep
  split at hstep
  · cases hstep
  split at hstep
  · next hplain =>
    cases hstep
    exact ⟨rfl, vchPushValue, Or.inl ⟨hplain.2, rfl⟩, rfl⟩
  · next hplain =>
    rw [execOp_push C txTo nIn nHashType pc hpush] at hstep
    rcases push_cases hpush with hle | hnumber | hreserved
    · exact absurd ⟨hexec, hle⟩ hplain
    · unfold stackOp at hstep
      rw [if_pos hnumber] at hstep
      cases hstep
      exact ⟨rfl, _, Or.inr ⟨hnumber, rfl⟩, rfl⟩
    · subst hreserved
      cases hstep

theorem boundedStep_numberOnTop
    (h : st.boundedStep C txTo nIn nHashType opcode vchPushValue pc = .ok st') :
    NumberOnTop opcode st' := by
  intro hlow hhigh hexec'
  by_cases hexec : st.fExec = true
  · obtain ⟨_, vch, hpushed, hstack⟩ := boundedStep_push C txTo nIn nHashType hhigh hexec h
    rcases hpushed with ⟨hplain, _⟩ | ⟨_, hvch⟩
    · exact absurd (UInt8.le_trans hlow hplain) (by decide)
    · exact ⟨st.stack, by rw [hstack, hvch]⟩
  · -- A number opcode that is skipped leaves the branch as it is.
    have hstep := step_of_boundedStep C txTo nIn nHashType h
    rw [step_push C txTo nIn nHashType pc hhigh] at hstep
    have hskip : st' = st := by
      split at hstep
      · cases hstep
      split at hstep
      · cases hstep
      split at hstep
      · next hplain => exact absurd hplain.1 hexec
      · cases hstep
        rfl
    rw [hskip] at hexec'
    exact absurd hexec' hexec

end Step

/-! ## The count without its width -/

/-- The loop of `GetSigOpCount` over natural numbers. -/
def sigOpsFrom (fAccurate : Bool) : ℕ → opcodetype → CScript → ℕ
  | 0, _, _ => 0
  | fuel + 1, lastOpcode, pc =>
    if pc = [] then 0
    else
      match GetOp pc with
      | none => 0
      | some (opcode, _, pc) =>
        sigOps fAccurate lastOpcode opcode + sigOpsFrom fAccurate fuel opcode pc

theorem getSigOpCountFrom_eq (fAccurate : Bool) (fuel : ℕ) (lastOpcode : opcodetype) (pc : CScript)
    (hn : n < 2 ^ 32) :
    getSigOpCountFrom fAccurate fuel lastOpcode pc n =
      (n + sigOpsFrom fAccurate fuel lastOpcode pc) % 2 ^ 32 := by
  induction fuel generalizing lastOpcode pc n with
  | zero => exact (Nat.mod_eq_of_lt hn).symm
  | succ fuel ih =>
    unfold getSigOpCountFrom sigOpsFrom
    split
    · exact (Nat.mod_eq_of_lt hn).symm
    · generalize GetOp pc = read
      obtain _ | ⟨opcode, _, pc₁⟩ := read
      · exact (Nat.mod_eq_of_lt hn).symm
      · dsimp only
        have hmod : (n + sigOps fAccurate lastOpcode opcode) % 2 ^ 32 < 2 ^ 32 :=
          Nat.mod_lt _ (by norm_num)
        rw [ih opcode pc₁ hmod, Nat.mod_add_mod, Nat.add_assoc]

theorem GetSigOpCount_eq (fAccurate : Bool) (script : CScript) :
    GetSigOpCount fAccurate script =
      sigOpsFrom fAccurate script.length OP_INVALIDOPCODE script % 2 ^ 32 := by
  rw [GetSigOpCount, getSigOpCountFrom_eq fAccurate _ _ _ (by norm_num), Nat.zero_add]

theorem countedKeys_le (lastOpcode : opcodetype) : countedKeys lastOpcode ≤ 20 := by
  unfold countedKeys
  split
  · next hnumber =>
    obtain ⟨k, hk, _, hdecode⟩ := toNat_number hnumber.1 hnumber.2
    omega
  · exact Nat.le_refl _

theorem sigOps_true_le_false (lastOpcode opcode : opcodetype) :
    sigOps true lastOpcode opcode ≤ sigOps false lastOpcode opcode := by
  have hkeys := countedKeys_le lastOpcode
  unfold countedKeys at hkeys
  unfold sigOps
  simp only [true_and, Bool.false_eq_true, false_and, if_false]
  split_ifs at hkeys ⊢ <;> omega

theorem sigOps_false_le (lastOpcode opcode : opcodetype) : sigOps false lastOpcode opcode ≤ 40 := by
  unfold sigOps
  simp only [Bool.false_eq_true, false_and, if_false]
  split_ifs <;> omega

theorem sigOpsFrom_true_le_false (fuel : ℕ) (lastOpcode : opcodetype) (pc : CScript) :
    sigOpsFrom true fuel lastOpcode pc ≤ sigOpsFrom false fuel lastOpcode pc := by
  induction fuel generalizing lastOpcode pc with
  | zero => exact Nat.le_refl _
  | succ fuel ih =>
    unfold sigOpsFrom
    split
    · exact Nat.le_refl _
    · split
      · exact Nat.le_refl _
      · exact Nat.add_le_add (sigOps_true_le_false _ _) (ih _ _)

theorem sigOpsFrom_false_le (fuel : ℕ) (lastOpcode : opcodetype) (pc : CScript) :
    sigOpsFrom false fuel lastOpcode pc ≤ 40 * pc.length := by
  induction fuel generalizing lastOpcode pc with
  | zero => exact Nat.zero_le _
  | succ fuel ih =>
    unfold sigOpsFrom
    split
    · exact Nat.zero_le _
    · split
      · exact Nat.zero_le _
      · next opcode _ pc₁ heq =>
        have hone := sigOps_false_le lastOpcode opcode
        have hrest := ih opcode pc₁
        have hlength := length_GetOp heq
        omega

/-! ## The whole run -/

section Run

variable (C : SignatureCrypto) (txTo : CTransaction) (nIn nHashType : ℕ)

theorem evalFrom_total (fuel : ℕ) {lastOpcode : opcodetype} {st : EvalState}
    (pc : CScript) (hnumber : NumberOnTop lastOpcode st) :
    (checksAfter (evalFrom C txTo nIn nHashType fuel pc st)).total ≤
      st.checks.total + sigOpsFrom true fuel lastOpcode pc := by
  induction fuel generalizing lastOpcode st pc with
  | zero => exact Nat.le_refl _
  | succ fuel ih =>
    unfold evalFrom sigOpsFrom
    split
    · exact Nat.le_refl _
    · generalize GetOp pc = read
      obtain _ | ⟨opcode, vchPushValue, pc₁⟩ := read
      · exact Nat.le_refl _
      · have hstep := boundedStep_total C txTo nIn nHashType opcode vchPushValue pc₁ hnumber
        dsimp only
        split
        · next heq =>
          rw [heq] at hstep
          omega
        · next st₁ heq =>
          have hnext := boundedStep_numberOnTop C txTo nIn nHashType heq
          rw [heq] at hstep
          have hrest := ih pc₁ hnext
          dsimp only [checksAfter] at hstep
          omega

/-- The signature checks that `EvalScript` ends with. -/
def runChecks (result : Except EvalFailure (Stack × SignatureChecks)) : SignatureChecks :=
  match result with
  | .ok (_, checks) => checks
  | .error failure => failure.checks

theorem GetSigOpCount_of_length {script : CScript} (h : script.length ≤ MAX_SCRIPT_SIZE) :
    GetSigOpCount true script = sigOpsFrom true script.length OP_INVALIDOPCODE script := by
  have hle := sigOpsFrom_true_le_false script.length OP_INVALIDOPCODE script
  have hlength := sigOpsFrom_false_le script.length OP_INVALIDOPCODE script
  have hmax : MAX_SCRIPT_SIZE = 200000 := rfl
  rw [GetSigOpCount_eq, Nat.mod_eq_of_lt (by omega)]

theorem EvalScript_total (stack : Stack) (script : CScript) (checks : SignatureChecks) :
    (runChecks (EvalScript C txTo nIn nHashType stack script checks)).total ≤
      checks.total + GetSigOpCount true script := by
  unfold EvalScript
  split
  · exact Nat.le_add_right _ _
  · next hlength =>
    have hfirst : NumberOnTop OP_INVALIDOPCODE
        { stack, pbegincodehash := script, checks } := fun _ hhigh => absurd hhigh (by decide)
    have hrun := evalFrom_total C txTo nIn nHashType script.length script hfirst
    rw [GetSigOpCount_of_length (not_lt.mp hlength)]
    split
    · next heq =>
      rw [heq] at hrun
      exact hrun
    · next st heq =>
      rw [heq] at hrun
      split
      · exact hrun
      · exact hrun

end Run

/-! ## Accurate and rough count -/

/-- Where the two counts differ, some byte of the script counts for nothing. -/
theorem sigOpsFrom_eq_or_lt (fuel : ℕ) (lastOpcode : opcodetype) (pc : CScript)
    (hlast : ¬ (OP_1 ≤ lastOpcode ∧ lastOpcode ≤ OP_16)) :
    sigOpsFrom true fuel lastOpcode pc = sigOpsFrom false fuel lastOpcode pc ∨
      sigOpsFrom false fuel lastOpcode pc + 40 ≤ 40 * pc.length := by
  induction fuel generalizing lastOpcode pc with
  | zero => exact Or.inl rfl
  | succ fuel ih =>
    unfold sigOpsFrom
    split
    · exact Or.inl rfl
    · cases hget : GetOp pc with
      | none => exact Or.inl rfl
      | some read =>
        obtain ⟨opcode, vch, pc₁⟩ := read
        dsimp only
        have hlength := length_GetOp hget
        have hsame : sigOps true lastOpcode opcode = sigOps false lastOpcode opcode := by
          unfold sigOps
          simp [hlast]
        by_cases hnumber : OP_1 ≤ opcode ∧ opcode ≤ OP_16
        · have hzero : sigOps false lastOpcode opcode = 0 := by
            have hne {other : opcodetype} (hother : OP_16 < other) : opcode ≠ other := by
              intro heq
              rw [heq] at hnumber
              exact absurd hnumber.2 (UInt8.not_le.mpr hother)
            rw [sigOps, if_neg (not_or.mpr ⟨hne (by decide), hne (by decide)⟩),
              if_neg (not_or.mpr ⟨hne (by decide), hne (by decide)⟩),
              if_neg (not_or.mpr ⟨hne (by decide), hne (by decide)⟩), if_neg (hne (by decide))]
          have hrest := sigOpsFrom_false_le fuel opcode pc₁
          exact Or.inr (by omega)
        · have hone := sigOps_false_le lastOpcode opcode
          rcases ih opcode pc₁ hnumber with heq | hlt
          · exact Or.inl (by rw [hsame, heq])
          · exact Or.inr (by omega)

/-- Up to this length the `unsigned int` of the rough count does not wrap to less. -/
theorem GetSigOpCount_true_le_false {script : CScript} (h : script.length ≤ 107374183) :
    GetSigOpCount true script ≤ GetSigOpCount false script := by
  have hle := sigOpsFrom_true_le_false script.length OP_INVALIDOPCODE script
  rw [GetSigOpCount_eq, GetSigOpCount_eq]
  rcases sigOpsFrom_eq_or_lt script.length OP_INVALIDOPCODE script (by decide) with heq | hlt
  · rw [heq]
  · rw [Nat.mod_eq_of_lt (by omega), Nat.mod_eq_of_lt (by omega)]
    exact hle

theorem GetOp_multiHybrid (pc : CScript) :
    GetOp (OP_CHECKMULTIHYBRIDSIG :: pc) = some (OP_CHECKMULTIHYBRIDSIG, [], pc) := rfl

/-- Multisig opcodes in a row count forty each, whatever stood before them. -/
theorem sigOpsFrom_replicate (fAccurate : Bool) (n fuel : ℕ) (pc : CScript)
    (lastOpcode : opcodetype) (hlast : ¬ (OP_1 ≤ lastOpcode ∧ lastOpcode ≤ OP_16)) :
    ∃ lastOpcode', sigOpsFrom fAccurate (fuel + n) lastOpcode
        (List.replicate n OP_CHECKMULTIHYBRIDSIG ++ pc) =
      40 * n + sigOpsFrom fAccurate fuel lastOpcode' pc := by
  induction n generalizing lastOpcode with
  | zero => exact ⟨lastOpcode, by rw [Nat.zero_add]; rfl⟩
  | succ n ih =>
    obtain ⟨lastOpcode', hrest⟩ := ih OP_CHECKMULTIHYBRIDSIG (by decide)
    refine ⟨lastOpcode', ?_⟩
    have hforty : sigOps fAccurate lastOpcode OP_CHECKMULTIHYBRIDSIG = 40 := by
      rw [sigOps, if_neg (by decide), if_neg (by decide), if_neg (by decide), if_pos rfl,
        if_neg (fun hand => hlast hand.2)]
    rw [replicate_succ, cons_append, ← Nat.add_assoc, sigOpsFrom,
      if_neg (cons_ne_nil _ _), GetOp_multiHybrid]
    dsimp only
    omega

/-- The shortest script whose rough count wraps to less than its accurate one. -/
def wrappingScript : CScript :=
  List.replicate 107374182 OP_CHECKMULTIHYBRIDSIG ++ [OP_1, OP_CHECKMULTIHYBRIDSIG]

theorem GetSigOpCount_wrappingScript (fAccurate : Bool) :
    GetSigOpCount fAccurate wrappingScript =
      (4294967280 + if fAccurate then 2 else 40) % 2 ^ 32 := by
  obtain ⟨lastOpcode, hcount⟩ := sigOpsFrom_replicate fAccurate 107374182 2
    [OP_1, OP_CHECKMULTIHYBRIDSIG] OP_INVALIDOPCODE (by decide)
  have htail : sigOpsFrom fAccurate 2 lastOpcode [OP_1, OP_CHECKMULTIHYBRIDSIG] =
      if fAccurate then 2 else 40 := by
    cases fAccurate <;> rfl
  have hlength : wrappingScript.length = 2 + 107374182 := by
    rw [wrappingScript, length_append, length_replicate]
    rfl
  rw [GetSigOpCount_eq, hlength, wrappingScript, hcount, htail]

/-! ## Redeem scripts -/

theorem GetSigOpCount_number (h : isPushNumber opcode) :
    GetSigOpCount true (bnGetvch (opcode.toNat - (OP_1.toNat - 1))) = 0 := by
  rcases h with rfl | hrange
  · decide
  · obtain ⟨k, hk, hnat, _⟩ := toNat_number hrange.1 hrange.2
    have hcount : ∀ k < 16, GetSigOpCount true (bnGetvch (k + 1 : ℕ)) = 0 := by decide
    have hnumber : (opcode.toNat : ℤ) - (OP_1.toNat - 1) = (k + 1 : ℕ) := by omega
    rw [hnumber, hcount k hk]

/-- The data that `GetSigOpCount` has found so far counts at least as much as the top of the
stack. -/
def TopCounted (stack : Stack) (data : valtype) : Prop :=
  ∀ vch rest, stack = vch :: rest → GetSigOpCount true vch ≤ GetSigOpCount true data

section Redeem

variable (C : SignatureCrypto) (txTo : CTransaction) (nIn nHashType : ℕ)

theorem evalFrom_lastPush (fuel : ℕ) {pc : CScript} {st st' : EvalState} {data : valtype}
    (hpush : isPushOnlyFrom fuel pc = true) (hexec : st.vfExec = [])
    (htop : TopCounted st.stack data)
    (hrun : evalFrom C txTo nIn nHashType fuel pc st = .ok st') :
    ∃ data', lastPushFrom fuel pc data = some data' ∧ TopCounted st'.stack data' := by
  induction fuel generalizing pc st data with
  | zero =>
    cases hrun
    exact ⟨data, rfl, htop⟩
  | succ fuel ih =>
    unfold isPushOnlyFrom at hpush
    unfold evalFrom at hrun
    unfold lastPushFrom
    by_cases hend : pc = []
    · rw [if_pos hend] at hrun ⊢
      cases hrun
      exact ⟨data, rfl, htop⟩
    · rw [if_neg hend] at hpush hrun ⊢
      cases hget : GetOp pc with
      | none =>
        rw [hget] at hpush
        cases hpush
      | some read =>
        obtain ⟨opcode, vch, pc₁⟩ := read
        rw [hget] at hpush hrun
        dsimp only at hpush hrun ⊢
        by_cases hhigh : opcode > OP_16
        · rw [if_pos hhigh] at hpush
          cases hpush
        · rw [if_neg hhigh] at hpush ⊢
          split at hrun
          · cases hrun
          · next st₁ heq =>
            have htaken : st.fExec = true := by
              rw [fExec, hexec]
              rfl
            obtain ⟨hkept, vch₁, hpushed, hstack⟩ :=
              boundedStep_push C txTo nIn nHashType (UInt8.not_lt.mp hhigh) htaken heq
            have htop₁ : TopCounted st₁.stack vch := by
              intro top rest hsplit
              rw [hstack] at hsplit
              cases hsplit
              rcases hpushed with ⟨_, heq⟩ | ⟨hnumber, heq⟩
              · rw [heq]
              · rw [heq, GetSigOpCount_number hnumber]
                exact Nat.zero_le _
            exact ih hpush (hkept.trans hexec) htop₁ hrun

theorem verifyRedeemScript_total {scriptSig scriptPubKey : CScript}
    {checks checks₁ : SignatureChecks} {stackCopy : Stack} (hpush : IsPushOnly scriptSig = true)
    (hhash : IsPayToScriptHash scriptPubKey = true)
    (hrun : EvalScript C txTo nIn nHashType [] scriptSig checks = .ok (stackCopy, checks₁))
    (checks₂ : SignatureChecks) :
    (verifyRedeemScript C txTo nIn nHashType stackCopy checks₂).2.total ≤
      checks₂.total + GetSigOpCountWith scriptPubKey scriptSig := by
  obtain ⟨st', hfrom, hstack⟩ : ∃ st', evalFrom C txTo nIn nHashType scriptSig.length scriptSig
      { stack := [], pbegincodehash := scriptSig, checks } = .ok st' ∧ st'.stack = stackCopy := by
    unfold EvalScript at hrun
    split at hrun
    · cases hrun
    · split at hrun
      · cases hrun
      · next st' heq =>
        split at hrun
        · cases hrun
        · cases hrun
          exact ⟨st', heq, rfl⟩
  have hempty : TopCounted [] [] := by
    intro vch rest hsplit
    cases hsplit
  obtain ⟨data, hdata, htop⟩ :=
    evalFrom_lastPush C txTo nIn nHashType _ hpush rfl hempty hfrom
  have hcount : GetSigOpCountWith scriptPubKey scriptSig = GetSigOpCount true data := by
    rw [GetSigOpCountWith, if_neg (not_not.mpr hhash), hdata]
  unfold verifyRedeemScript
  split
  · exact Nat.le_add_right _ _
  · next vch rest =>
    have hredeem := EvalScript_total C txTo nIn nHashType rest vch checks₂
    have hle := htop vch rest hstack
    split
    · next heq =>
      rw [heq] at hredeem
      dsimp only [runChecks] at hredeem ⊢
      omega
    · next heq =>
      rw [heq] at hredeem
      dsimp only [runChecks] at hredeem ⊢
      omega

end Redeem

/-! ## The bounds -/

/-- The static counts bound the verifications of a run from above, the rough one the accurate one
as long as it cannot wrap, and that of a script hash the verifications of the redeem script. -/
theorem sigOpCount_bounds :
    (∀ (C : SignatureCrypto) (txTo : CTransaction) (nIn nHashType : ℕ) (stack : Stack)
        (script : CScript) (checks : SignatureChecks),
      (runChecks (EvalScript C txTo nIn nHashType stack script checks)).total ≤
        checks.total + GetSigOpCount true script) ∧
    (∀ script : CScript, script.length ≤ 107374183 →
      GetSigOpCount true script ≤ GetSigOpCount false script) ∧
    (∀ (C : SignatureCrypto) (txTo : CTransaction) (nIn nHashType : ℕ)
        (scriptSig scriptPubKey : CScript) (checks checks₁ checks₂ : SignatureChecks)
        (stackCopy : Stack), IsPushOnly scriptSig = true → IsPayToScriptHash scriptPubKey = true →
      EvalScript C txTo nIn nHashType [] scriptSig checks = .ok (stackCopy, checks₁) →
      (verifyRedeemScript C txTo nIn nHashType stackCopy checks₂).2.total ≤
        checks₂.total + GetSigOpCountWith scriptPubKey scriptSig) := by
  refine ⟨?_, ?_, ?_⟩
  · intro C txTo nIn nHashType stack script checks
    exact EvalScript_total C txTo nIn nHashType stack script checks
  · intro script hlength
    exact GetSigOpCount_true_le_false hlength
  · intro C txTo nIn nHashType scriptSig scriptPubKey checks checks₁ checks₂ stackCopy hpush hhash
      hrun
    exact verifyRedeemScript_total C txTo nIn nHashType hpush hhash hrun checks₂

def acceptingSignatures : SignatureCrypto where
  RIPEMD160 vch := (vch ++ List.replicate 20 0).take 20
  SHA1 vch := (vch ++ List.replicate 20 0).take 20
  SHA256 vch := (vch ++ List.replicate 32 0).take 32
  length_RIPEMD160 vch := by simp
  length_SHA1 vch := by simp
  length_SHA256 vch := by simp
  SetPubKey _ := true
  Verify _ _ _ := true
  DigestVerify _ _ _ := true
  cacheSet _ cache := cache
  cacheSet_subset _ _ := Finset.subset_insert _ _

/-- A spend of a script hash whose redeem script is one `OP_CHECKSIG`. -/
theorem sigOpCount_bounds_checkSig :
    GetSigOpCount true [OP_1, OP_CHECKMULTISIG] ≤ GetSigOpCount false [OP_1, OP_CHECKMULTISIG] ∧
    (verifyRedeemScript acceptingSignatures ⟨1, [], [], 0⟩ 0 0
        [[OP_CHECKSIG], [2], [1, 1, 1, 1, 1, 1, 1, 1, 1]] {}).2.total ≤
      ({} : SignatureChecks).total + GetSigOpCountWith
        (OP_HASH160 :: 0x14 :: List.replicate 20 0 ++ [OP_EQUAL])
        ([9, 1, 1, 1, 1, 1, 1, 1, 1, 1] ++ [1, 2] ++ [1, OP_CHECKSIG]) := by
  refine ⟨sigOpCount_bounds.2.1 _ (by decide), ?_⟩
  exact sigOpCount_bounds.2.2 acceptingSignatures ⟨1, [], [], 0⟩ 0 0 _ _ {} {} {} _
    (by decide) (by decide) rfl

/-- A script on which the rough count is less than the accurate one. -/
theorem sigOpCount_wraps :
    GetSigOpCount false wrappingScript < GetSigOpCount true wrappingScript := by
  rw [GetSigOpCount_wrappingScript, GetSigOpCount_wrappingScript]
  decide

end Phoenixcoin.Analysis
