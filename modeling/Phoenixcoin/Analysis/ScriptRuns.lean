import Phoenixcoin.Analysis.HybridVerification
import Phoenixcoin.Program.CombineSignatures

/-!
# Runs of scripts

What the runs of some scripts come to: scripts that push values only, multisig scripts of both
kinds and scripts that pay to a script hash. Every run keeps the signature cache sound. The loop of
the interpreter is read without its fuel, one instruction after the other.
-/

set_option autoImplicit false

namespace Phoenixcoin.Analysis

open Program Lib EvalState List

/-! ## The cache in any run -/

section Cache

variable {C : SignatureCrypto} (scriptCode : CScript) (txTo : CTransaction) (nIn nHashType : ℕ)

variable {checks : SignatureChecks}

theorem CheckSig_sound (hsound : CacheSound C checks) (vchSig vchPubKey : valtype)
    (sighash : Option uint256) :
    CacheSound C (CheckSig C vchSig vchPubKey scriptCode txTo nIn nHashType sighash checks).2 := by
  unfold CheckSig
  by_cases hempty : vchSig = []
  · rw [if_pos hempty]
    exact hsound
  · dsimp only
    split_ifs
    any_goals exact hsound
    all_goals apply (verifyCached_spec hsound _ _ _).2

theorem VerifyMLDSA_cache (mldsaSig mldsaPubKey : valtype) (msg : List UInt8)
    (checks : SignatureChecks) :
    (VerifyMLDSA C mldsaSig mldsaPubKey msg checks).2.signatureCache = checks.signatureCache := by
  unfold VerifyMLDSA
  split_ifs <;> rfl

theorem checkHybridPair_sound (hsound : CacheSound C checks) (sigPair pubPair : valtype × valtype)
    (preimage : List UInt8) :
    CacheSound C
      (checkHybridPair C sigPair pubPair scriptCode txTo nIn nHashType preimage checks).2 := by
  have hsig := CheckSig_sound scriptCode txTo nIn nHashType hsound sigPair.1 pubPair.1
    (some (C.Hash preimage))
  unfold checkHybridPair
  split
  · next heq =>
    rw [heq] at hsig
    exact hsig
  · next checks₁ heq =>
    rw [heq] at hsig
    intro k hk
    rw [VerifyMLDSA_cache] at hk
    exact hsig k hk

theorem VerifyHybridSignature_sound (hsound : CacheSound C checks)
    (sigPair pubPair : valtype × valtype) :
    CacheSound C
      (VerifyHybridSignature C sigPair pubPair scriptCode txTo nIn nHashType checks).2 := by
  unfold VerifyHybridSignature
  split_ifs
  any_goals exact hsound
  split
  · exact hsound
  · apply checkHybridPair_sound _ _ _ _ hsound

theorem matchSignatures_sound {sigs keys : List valtype} (hsound : CacheSound C checks) :
    CacheSound C (matchSignatures C scriptCode txTo nIn nHashType sigs keys checks).2 := by
  induction keys generalizing sigs checks with
  | nil => cases sigs <;> exact hsound
  | cons key keys ih =>
    cases sigs with
    | nil => exact hsound
    | cons sig sigs =>
      have hsig := CheckSig_sound scriptCode txTo nIn nHashType hsound sig key none
      unfold matchSignatures
      generalize CheckSig C sig key scriptCode txTo nIn nHashType none checks = result at hsig
      obtain ⟨fMatch, checks₁⟩ := result
      dsimp only at hsig ⊢
      by_cases hmore : (if fMatch = true then sigs else sig :: sigs).length > keys.length
      · rw [if_pos hmore]
        exact hsig
      · rw [if_neg hmore]
        exact ih hsig

theorem matchHybridSignatures_sound {sigs keys : List (valtype × valtype)} (preimage : List UInt8)
    (hsound : CacheSound C checks) :
    CacheSound C
      (matchHybridSignatures C scriptCode txTo nIn nHashType preimage sigs keys checks).2 := by
  induction keys generalizing sigs checks with
  | nil => cases sigs <;> exact hsound
  | cons key keys ih =>
    cases sigs with
    | nil => exact hsound
    | cons sig sigs =>
      have hpair := checkHybridPair_sound scriptCode txTo nIn nHashType hsound sig key preimage
      exact ih hpair

end Cache

section CacheRun

variable {C : SignatureCrypto} (txTo : CTransaction) (nIn nHashType : ℕ)

variable {st : EvalState}

theorem execOp_sound (hsound : CacheSound C st.checks) (opcode : opcodetype) (pc : CScript) :
    CacheSound C (checksAfter (st.execOp C txTo nIn nHashType opcode pc)) := by
  have hsame {result : Except EvalFailure EvalState} (h : checksAfter result = st.checks) :
      CacheSound C (checksAfter result) := by
    rw [h]
    exact hsound
  unfold execOp
  split
  · exact hsame (opIf_checks st opcode)
  split
  · apply hsame
    split <;> rfl
  split
  · apply hsame
    split <;> rfl
  split
  · apply hsame
    split <;> rfl
  split
  · apply hsame
    split <;> rfl
  split
  · exact hsame rfl
  split
  · unfold opCheckSig
    split
    · rw [checksAfter_pushResult]
      apply CheckSig_sound _ _ _ _ hsound
    · exact hsound
  split
  · unfold opCheckMultisig
    split
    · exact hsound
    · dsimp only
      split
      · exact hsound
      · split
        · exact hsound
        · split
          · exact hsound
          · rw [checksAfter_pushResult]
            apply matchSignatures_sound _ _ _ _ hsound
  split
  · unfold opCheckHybridSig
    split
    · rw [checksAfter_pushResult]
      apply VerifyHybridSignature_sound _ _ _ _ hsound
    · exact hsound
  split
  · unfold opCheckMultiHybridSig
    split
    · exact hsound
    · dsimp only
      split
      · exact hsound
      · split
        · exact hsound
        · split
          · exact hsound
          · split
            · exact hsound
            · unfold checkMultiHybrid
              split
              · exact hsound
              · dsimp only
                split
                · exact hsound
                · split
                  · exact hsound
                  · rw [checksAfter_pushResult]
                    apply matchHybridSignatures_sound _ _ _ _ _ hsound
  · exact hsame (checksAfter_onStack st _)

theorem boundedStep_sound (hsound : CacheSound C st.checks) (opcode : opcodetype)
    (vchPushValue : valtype) (pc : CScript) :
    CacheSound C (checksAfter (st.boundedStep C txTo nIn nHashType opcode vchPushValue pc)) := by
  have hstep : CacheSound C
      (checksAfter (st.step C txTo nIn nHashType opcode vchPushValue pc)) := by
    unfold step
    split
    · exact hsound
    split
    · exact hsound
    extract_lets counted
    have hcounted : counted.checks = st.checks := by
      unfold counted
      split <;> rfl
    rw [← hcounted] at hsound
    split
    · exact hsound
    split
    · exact hsound
    split
    · exact execOp_sound txTo nIn nHashType hsound opcode pc
    · exact hsound
  unfold boundedStep
  split
  · next heq =>
    rw [heq] at hstep
    exact hstep
  · next heq =>
    rw [heq] at hstep
    split
    · exact hstep
    · exact hstep

theorem evalFrom_sound (fuel : ℕ) {pc : CScript} {st : EvalState}
    (hsound : CacheSound C st.checks) :
    CacheSound C (checksAfter (evalFrom C txTo nIn nHashType fuel pc st)) := by
  induction fuel generalizing pc st with
  | zero => exact hsound
  | succ fuel ih =>
    unfold evalFrom
    split
    · exact hsound
    · split
      · exact hsound
      · next opcode vch pc₁ _ =>
        have hstep := boundedStep_sound txTo nIn nHashType hsound opcode vch pc₁
        split
        · next heq =>
          rw [heq] at hstep
          exact hstep
        · next heq =>
          rw [heq] at hstep
          exact ih hstep

/-- Every script keeps the signature cache sound. -/
theorem EvalScript_sound {checks : SignatureChecks} (hsound : CacheSound C checks) (stack : Stack)
    (script : CScript) :
    CacheSound C (runChecks (EvalScript C txTo nIn nHashType stack script checks)) := by
  unfold EvalScript
  split
  · exact hsound
  · have hrun := @evalFrom_sound C txTo nIn nHashType script.length script
      { stack, pbegincodehash := script, checks } hsound
    split
    · next heq =>
      rw [heq] at hrun
      exact hrun
    · next heq =>
      rw [heq] at hrun
      split
      · exact hrun
      · exact hrun

end CacheRun

/-! ## The loop without fuel -/

section Loop

variable (C : SignatureCrypto) (txTo : CTransaction) (nIn nHashType : ℕ)

theorem evalFrom_fuel {fuel fuel' : ℕ} {pc : CScript} (st : EvalState) (h : pc.length ≤ fuel)
    (h' : pc.length ≤ fuel') :
    evalFrom C txTo nIn nHashType fuel pc st = evalFrom C txTo nIn nHashType fuel' pc st := by
  induction fuel generalizing fuel' pc st with
  | zero =>
    have hnil : pc = [] := eq_nil_of_length_eq_zero (by omega)
    subst hnil
    cases fuel' <;> rfl
  | succ fuel ih =>
    cases fuel' with
    | zero =>
      have hnil : pc = [] := eq_nil_of_length_eq_zero (by omega)
      subst hnil
      rfl
    | succ fuel' =>
      unfold evalFrom
      by_cases hend : pc = []
      · rw [if_pos hend, if_pos hend]
      · rw [if_neg hend, if_neg hend]
        cases hget : GetOp pc with
        | none => rfl
        | some read =>
          obtain ⟨opcode, vch, pc₁⟩ := read
          have hlength := length_GetOp hget
          dsimp only
          cases st.boundedStep C txTo nIn nHashType opcode vch pc₁ with
          | error failure => rfl
          | ok st₁ => exact ih st₁ (by omega) (by omega)

/-- The loop of `EvalScript` on the rest of a script. -/
def runScript (pc : CScript) (st : EvalState) : Except EvalFailure EvalState :=
  evalFrom C txTo nIn nHashType pc.length pc st

theorem runScript_nil (st : EvalState) : runScript C txTo nIn nHashType [] st = .ok st := rfl

theorem runScript_step {pc pc₁ : CScript} {opcode : opcodetype} {vch : valtype} (st : EvalState)
    (hget : GetOp pc = some (opcode, vch, pc₁)) :
    runScript C txTo nIn nHashType pc st =
      match st.boundedStep C txTo nIn nHashType opcode vch pc₁ with
      | .error failure => .error failure
      | .ok st => runScript C txTo nIn nHashType pc₁ st := by
  have hlength := length_GetOp hget
  obtain ⟨n, hn⟩ : ∃ n, pc.length = n + 1 := ⟨pc.length - 1, by omega⟩
  have hend : pc ≠ [] := by
    intro hnil
    rw [hnil] at hn
    cases hn
  rw [runScript, hn, evalFrom, if_neg hend, hget]
  dsimp only
  cases st.boundedStep C txTo nIn nHashType opcode vch pc₁ with
  | error failure => rfl
  | ok st₁ => exact evalFrom_fuel C txTo nIn nHashType st₁ (by omega) (le_refl _)

/-- A script runs from its first instruction on an empty state. -/
theorem EvalScript_eq (stack : Stack) {script : CScript} (checks : SignatureChecks)
    (h : script.length ≤ MAX_SCRIPT_SIZE) :
    EvalScript C txTo nIn nHashType stack script checks =
      match runScript C txTo nIn nHashType script
          { stack, pbegincodehash := script, checks } with
      | .error failure => .error failure
      | .ok st =>
        if st.vfExec ≠ [] then .error ⟨st.stack, st.checks⟩ else .ok (st.stack, st.checks) := by
  rw [EvalScript, if_neg (not_lt.mpr h)]
  rfl

end Loop

/-! ## Instructions that push -/

/-- The first instruction of `pc` pushes `v`, and `rest` follows. -/
def PushOp (pc : CScript) (v : valtype) (rest : CScript) : Prop :=
  ∃ opcode vch, GetOp pc = some (opcode, vch, rest) ∧ vch.length ≤ MAX_SCRIPT_ELEMENT_SIZE ∧
    Pushed opcode vch v

/-- Instructions that push these values in this order. -/
inductive PushesTo : CScript → List valtype → CScript → Prop where
  | nil (pc : CScript) : PushesTo pc [] pc
  | cons {pc pc₁ rest : CScript} {v : valtype} {vs : List valtype} (first : PushOp pc v pc₁)
      (more : PushesTo pc₁ vs rest) : PushesTo pc (v :: vs) rest

variable {pc rest : CScript} {vs : List valtype} {v vch : valtype} {opcode : opcodetype}

theorem PushesTo.append {pc₁ : CScript} {ws : List valtype} (h : PushesTo pc vs pc₁)
    (hrest : PushesTo pc₁ ws rest) : PushesTo pc (vs ++ ws) rest := by
  induction h with
  | nil pc => exact hrest
  | cons first _ ih => exact PushesTo.cons first (ih hrest)

theorem toLittleEndian_take_drop {width n : ℕ} (b : valtype) (h : n < 256 ^ width) :
    ofLittleEndian ((toLittleEndian width n ++ b).take width) = n ∧
      (toLittleEndian width n ++ b).drop width = b := by
  have hlength := length_toLittleEndian width n
  constructor
  · rw [take_left' hlength, ofLittleEndian_toLittleEndian h]
  · exact drop_left' hlength

theorem length_le_pushData (v : valtype) : v.length ≤ (pushData v).length := by
  unfold pushData
  split_ifs <;> simp only [length_append, length_cons] <;> omega

/-- What `operator<<` appends is read back. -/
theorem GetOp_pushData (rest : CScript) (h : v.length < 256 ^ 4) :
    ∃ opcode ≤ OP_PUSHDATA4, GetOp (pushData v ++ rest) = some (opcode, v, rest) := by
  have hread {opcode : opcodetype} {pc : CScript} (hle : opcode ≤ OP_PUSHDATA4)
      (hsize : operandSize opcode pc = some (v.length, v ++ rest)) :
      GetOp (opcode :: pc) = some (opcode, v, rest) := by
    rw [GetOp, if_pos hle, hsize]
    dsimp only
    rw [if_neg (by rw [length_append]; omega), take_left, drop_left]
  have hlong {opcode : opcodetype} {nBytes : ℕ} (hnot : ¬ opcode < OP_PUSHDATA1)
      (hbytes : (if opcode = OP_PUSHDATA1 then 1 else if opcode = OP_PUSHDATA2 then 2 else 4) =
        nBytes) (hlt : v.length < 256 ^ nBytes) :
      operandSize opcode (toLittleEndian nBytes v.length ++ (v ++ rest)) =
        some (v.length, v ++ rest) := by
    obtain ⟨htake, hdrop⟩ := toLittleEndian_take_drop (v ++ rest) hlt
    rw [operandSize, if_neg hnot]
    rw [hbytes, if_neg (by rw [length_append, length_toLittleEndian]; omega), htake, hdrop]
  unfold pushData
  split_ifs with hshort hone htwo
  · have hnat : (UInt8.ofNat v.length).toNat = v.length :=
      UInt8.toNat_ofNat_of_lt' (by simp [UInt8.size]; omega)
    have hlt : UInt8.ofNat v.length < OP_PUSHDATA1 := by
      rw [UInt8.lt_iff_toNat_lt, hnat]
      exact hshort
    have hle : UInt8.ofNat v.length ≤ OP_PUSHDATA4 :=
      UInt8.le_trans (UInt8.le_of_lt hlt) (by decide)
    refine ⟨UInt8.ofNat v.length, hle, hread hle ?_⟩
    rw [operandSize, if_pos hlt, hnat]
    rfl
  · refine ⟨OP_PUSHDATA1, by decide, ?_⟩
    have hbyte : [UInt8.ofNat v.length] = toLittleEndian 1 v.length := by
      rw [toLittleEndian, toLittleEndian, Nat.mod_eq_of_lt (by omega)]
    have hcode : OP_PUSHDATA1 :: UInt8.ofNat v.length :: v ++ rest =
        OP_PUSHDATA1 :: (toLittleEndian 1 v.length ++ (v ++ rest)) := by
      rw [← hbyte]
      rfl
    rw [hcode]
    exact hread (by decide) (hlong (by decide) rfl (by omega))
  · refine ⟨OP_PUSHDATA2, by decide, ?_⟩
    have hcode : OP_PUSHDATA2 :: toLittleEndian 2 v.length ++ v ++ rest =
        OP_PUSHDATA2 :: (toLittleEndian 2 v.length ++ (v ++ rest)) := by
      rw [cons_append, cons_append, append_assoc]
    rw [hcode]
    exact hread (by decide) (hlong (by decide) rfl (by omega))
  · refine ⟨OP_PUSHDATA4, by decide, ?_⟩
    exact hread (by decide) (hlong (by decide) rfl h)

theorem pushOp_pushData (rest : CScript) (h : v.length ≤ MAX_SCRIPT_ELEMENT_SIZE) :
    PushOp (pushData v ++ rest) v rest := by
  have hmax : MAX_SCRIPT_ELEMENT_SIZE = 66000 := rfl
  obtain ⟨opcode, hle, hget⟩ := GetOp_pushData rest (v := v) (by omega)
  exact ⟨opcode, v, hget, h, Or.inl ⟨hle, rfl⟩⟩

theorem pushesTo_PushAll (rest : CScript) (h : ∀ v ∈ vs, v.length ≤ MAX_SCRIPT_ELEMENT_SIZE) :
    PushesTo (PushAll vs ++ rest) vs rest := by
  induction vs with
  | nil => exact PushesTo.nil rest
  | cons v vs ih =>
    have hmore := ih fun w hw => h w (mem_cons_of_mem _ hw)
    have hcode : PushAll (v :: vs) ++ rest = pushData v ++ (PushAll vs ++ rest) := by
      rw [PushAll, flatMap_cons, append_assoc]
      rfl
    rw [hcode]
    exact PushesTo.cons (pushOp_pushData _ (h v mem_cons_self)) hmore

theorem operandSize_length_le {operand : ℕ × CScript} (h : operandSize opcode pc = some operand) :
    pc.length ≤ operand.2.length + 4 := by
  unfold operandSize at h
  by_cases hshort : opcode < OP_PUSHDATA1
  · rw [if_pos hshort] at h
    cases h
    exact Nat.le_add_right _ _
  · have hfour : (if opcode = OP_PUSHDATA1 then 1 else if opcode = OP_PUSHDATA2 then 2 else 4) ≤
        4 := by
      split_ifs <;> omega
    rw [if_neg hshort] at h
    generalize (if opcode = OP_PUSHDATA1 then 1 else if opcode = OP_PUSHDATA2 then 2 else 4) =
      nBytes at h hfour
    by_cases hend : pc.length < nBytes
    · rw [if_pos hend] at h
      cases h
    · rw [if_neg hend] at h
      cases h
      rw [length_drop]
      omega

/-- An instruction takes five bytes more than its data at most. -/
theorem length_le_GetOp (h : GetOp pc = some (opcode, vch, rest)) :
    pc.length ≤ rest.length + vch.length + 5 := by
  cases pc with
  | nil => cases h
  | cons b pc =>
    rw [GetOp] at h
    by_cases hpush : b ≤ OP_PUSHDATA4
    · rw [if_pos hpush] at h
      cases hsize : operandSize b pc with
      | none =>
        rw [hsize] at h
        cases h
      | some operand =>
        rw [hsize] at h
        dsimp only at h
        have hbytes := operandSize_length_le hsize
        by_cases hend : operand.2.length < operand.1
        · rw [if_pos hend] at h
          cases h
        · rw [if_neg hend] at h
          cases h
          rw [length_take, length_drop, length_cons]
          omega
    · rw [if_neg hpush] at h
      cases h
      rw [length_cons]
      omega

/-- An opcode behind the pushes stands alone. -/
theorem eq_cons_of_GetOp (h : GetOp pc = some (opcode, vch, rest)) (hop : ¬ opcode ≤ OP_PUSHDATA4) :
    pc = opcode :: rest ∧ vch = [] := by
  cases pc with
  | nil => cases h
  | cons b pc =>
    rw [GetOp] at h
    by_cases hpush : b ≤ OP_PUSHDATA4
    · rw [if_pos hpush] at h
      cases hsize : operandSize b pc with
      | none =>
        rw [hsize] at h
        cases h
      | some operand =>
        rw [hsize] at h
        dsimp only at h
        by_cases hend : operand.2.length < operand.1
        · rw [if_pos hend] at h
          cases h
        · rw [if_neg hend] at h
          cases h
          exact absurd hpush hop
    · rw [if_neg hpush] at h
      cases h
      exact ⟨rfl, rfl⟩

theorem head_le_of_GetOp {b : UInt8} (h : GetOp (b :: pc) = some (opcode, vch, rest)) :
    opcode = b := by
  rw [GetOp] at h
  split at h
  · split at h
    · cases h
    · split at h
      · cases h
      · cases h
        rfl
  · cases h
    rfl

theorem PushesTo.length_le (h : PushesTo pc vs rest) :
    pc.length ≤ rest.length + (vs.map fun v => v.length + 5).sum := by
  induction h with
  | nil pc => simp
  | @cons pc pc₁ rest v vs first _ ih =>
    obtain ⟨opcode, vch, hget, -, hpushed⟩ := first
    have hlength := length_le_GetOp hget
    have hdata : vch.length ≤ v.length := by
      rcases hpushed with ⟨-, rfl⟩ | ⟨hnumber, -⟩
      · exact le_refl _
      · have hop : ¬ opcode ≤ OP_PUSHDATA4 := by
          intro hle
          rcases hnumber with rfl | hrange
          · exact absurd hle (by decide)
          · exact absurd (UInt8.le_trans hrange.1 hle) (by decide)
        rw [(eq_cons_of_GetOp hget hop).2]
        exact Nat.zero_le _
    rw [map_cons, sum_cons]
    omega

theorem Pushed.le (h : Pushed opcode vch v) : opcode ≤ OP_16 := by
  rcases h with ⟨hle, -⟩ | ⟨hnumber, -⟩
  · exact UInt8.le_trans hle (by decide)
  · rcases hnumber with rfl | hrange
    · decide
    · exact hrange.2

section Pushes

variable (C : SignatureCrypto) (txTo : CTransaction) (nIn nHashType : ℕ)

theorem step_pushed (st : EvalState) (pc : CScript) (hpushed : Pushed opcode vch v)
    (hsize : vch.length ≤ MAX_SCRIPT_ELEMENT_SIZE) (hexec : st.vfExec = []) :
    st.step C txTo nIn nHashType opcode vch pc = .ok { st with stack := v :: st.stack } := by
  have htaken : st.fExec = true := by
    rw [fExec, hexec]
    rfl
  have hpush := hpushed.le
  have henabled : ¬ isDisabled opcode := by
    have hcheck : ∀ op ∈ [OP_CAT, OP_SUBSTR, OP_LEFT, OP_RIGHT, OP_INVERT, OP_AND, OP_OR, OP_XOR,
        OP_2MUL, OP_2DIV, OP_MUL, OP_DIV, OP_MOD, OP_LSHIFT, OP_RSHIFT], ¬ op ≤ OP_16 := by
      simp [OP_16, OP_CAT, OP_SUBSTR, OP_LEFT, OP_RIGHT, OP_INVERT, OP_AND, OP_OR, OP_XOR, OP_2MUL,
        OP_2DIV, OP_MUL, OP_DIV, OP_MOD, OP_LSHIFT, OP_RSHIFT]
    exact fun hmem => hcheck opcode hmem hpush
  rw [step_push C txTo nIn nHashType pc hpush, if_neg (not_lt.mpr hsize), if_neg henabled]
  rcases hpushed with ⟨hle, rfl⟩ | ⟨hnumber, rfl⟩
  · rw [if_pos ⟨htaken, hle⟩]
  · have hplain : ¬ opcode ≤ OP_PUSHDATA4 := by
      intro hle
      rcases hnumber with rfl | hrange
      · exact absurd hle (by decide)
      · exact absurd (UInt8.le_trans hrange.1 hle) (by decide)
    have hop : stackOp C.toDigests opcode st.stack =
        .ok (bnGetvch (opcode.toNat - (OP_1.toNat - 1)) :: st.stack) := by
      unfold stackOp
      rw [if_pos hnumber]
    rw [if_neg (fun hand => hplain hand.2), if_pos htaken,
      execOp_push C txTo nIn nHashType pc hpush, hop]
    rfl

variable {pc : CScript} {st : EvalState}

/-- One push, with the limit on the stack after it. -/
theorem runScript_push (first : PushOp pc v rest) (hexec : st.vfExec = []) :
    runScript C txTo nIn nHashType pc st =
      if (v :: st.stack).length + st.altstack.length > 1000 then
        .error ⟨v :: st.stack, st.checks⟩
      else runScript C txTo nIn nHashType rest { st with stack := v :: st.stack } := by
  obtain ⟨opcode, vch, hget, hsize, hpushed⟩ := first
  rw [runScript_step C txTo nIn nHashType st hget, boundedStep,
    step_pushed C txTo nIn nHashType st rest hpushed hsize hexec]
  dsimp only
  by_cases hheight : (v :: st.stack).length + st.altstack.length > 1000
  · rw [if_pos hheight, if_pos hheight]
    rfl
  · rw [if_neg hheight, if_neg hheight]

/-- Pushes that the stack has room for. -/
theorem runScript_pushes {pc rest : CScript} {vs : List valtype} {st : EvalState}
    (h : PushesTo pc vs rest) (hexec : st.vfExec = [])
    (hheight : st.stack.length + st.altstack.length + vs.length ≤ 1000) :
    runScript C txTo nIn nHashType pc st =
      runScript C txTo nIn nHashType rest { st with stack := vs.reverse ++ st.stack } := by
  induction h generalizing st with
  | nil pc => rfl
  | @cons pc pc₁ rest v vs first _ ih =>
    rw [length_cons] at hheight
    have hroom : ¬ (v :: st.stack).length + st.altstack.length > 1000 := by
      rw [length_cons]
      omega
    rw [runScript_push C txTo nIn nHashType first hexec, if_neg hroom]
    have hmore := @ih { st with stack := v :: st.stack } hexec (by
      dsimp only
      rw [length_cons]
      omega)
    rw [hmore, reverse_cons, append_assoc]
    rfl

variable {st' : EvalState} {script : CScript}

/-- A run that gets past pushes had room for them. -/
theorem height_of_runScript (h : PushesTo pc vs rest) (hexec : st.vfExec = []) (hvs : vs ≠ [])
    (hrun : runScript C txTo nIn nHashType pc st = .ok st') :
    st.stack.length + st.altstack.length + vs.length ≤ 1000 := by
  induction h generalizing st with
  | nil pc => exact absurd rfl hvs
  | @cons pc pc₁ rest v vs first _ ih =>
    rw [runScript_push C txTo nIn nHashType first hexec] at hrun
    by_cases hfull : (v :: st.stack).length + st.altstack.length > 1000
    · rw [if_pos hfull] at hrun
      cases hrun
    · rw [if_neg hfull] at hrun
      rw [length_cons] at hfull ⊢
      cases vs with
      | nil =>
        rw [length_nil]
        omega
      | cons w vs =>
        have hmore := @ih { st with stack := v :: st.stack } hexec (cons_ne_nil w vs) hrun
        dsimp only at hmore
        rw [length_cons] at hmore
        omega

/-- A script of pushes leaves its values on the stack. -/
theorem EvalScript_pushes (stack : Stack) (checks : SignatureChecks) (h : PushesTo script vs [])
    (hlength : script.length ≤ MAX_SCRIPT_SIZE) (hheight : stack.length + vs.length ≤ 1000) :
    EvalScript C txTo nIn nHashType stack script checks = .ok (vs.reverse ++ stack, checks) := by
  have hrun := @runScript_pushes C txTo nIn nHashType script [] vs
    { stack, pbegincodehash := script, checks } h rfl (by simpa using hheight)
  rw [EvalScript_eq C txTo nIn nHashType stack checks hlength, hrun]
  rfl

theorem pushesTo_of_isPushOnly (fuel : ℕ) (hfuel : pc.length ≤ fuel)
    (hpush : isPushOnlyFrom fuel pc = true) (hexec : st.vfExec = [])
    (hrun : evalFrom C txTo nIn nHashType fuel pc st = .ok st') :
    ∃ vs, PushesTo pc vs [] := by
  induction fuel generalizing pc st with
  | zero =>
    have hnil : pc = [] := eq_nil_of_length_eq_zero (by omega)
    subst hnil
    exact ⟨[], PushesTo.nil []⟩
  | succ fuel ih =>
    unfold isPushOnlyFrom at hpush
    unfold evalFrom at hrun
    by_cases hend : pc = []
    · subst hend
      exact ⟨[], PushesTo.nil []⟩
    · rw [if_neg hend] at hpush hrun
      cases hget : GetOp pc with
      | none =>
        rw [hget] at hpush
        cases hpush
      | some read =>
        obtain ⟨opcode, vch, pc₁⟩ := read
        have hlength := length_GetOp hget
        rw [hget] at hpush hrun
        dsimp only at hpush hrun
        by_cases hhigh : opcode > OP_16
        · rw [if_pos hhigh] at hpush
          cases hpush
        · rw [if_neg hhigh] at hpush
          split at hrun
          · cases hrun
          · next st₁ heq =>
            have htaken : st.fExec = true := by
              rw [fExec, hexec]
              rfl
            have hstep := step_of_boundedStep C txTo nIn nHashType heq
            rw [step_push C txTo nIn nHashType pc₁ (UInt8.not_lt.mp hhigh)] at hstep
            have hsize : vch.length ≤ MAX_SCRIPT_ELEMENT_SIZE := by
              by_contra hlarge
              rw [if_pos (not_le.mp hlarge)] at hstep
              cases hstep
            obtain ⟨hkept, v, hpushed, -⟩ :=
              boundedStep_push C txTo nIn nHashType (UInt8.not_lt.mp hhigh) htaken heq
            obtain ⟨vs, hmore⟩ := ih (by omega) hpush (hkept.trans hexec) hrun
            exact ⟨v :: vs, PushesTo.cons ⟨opcode, vch, hget, hsize, hpushed⟩ hmore⟩

theorem EvalScript_isPushOnly {stack' : Stack} {checks checks' : SignatureChecks}
    (hpush : IsPushOnly script = true)
    (hrun : EvalScript C txTo nIn nHashType [] script checks = .ok (stack', checks')) :
    PushesTo script stack'.reverse [] ∧ script.length ≤ MAX_SCRIPT_SIZE ∧
      stack'.length ≤ 1000 ∧ checks' = checks := by
  have hlength : script.length ≤ MAX_SCRIPT_SIZE := by
    by_contra hlong
    rw [EvalScript, if_pos (not_le.mp hlong)] at hrun
    cases hrun
  rw [EvalScript_eq C txTo nIn nHashType [] checks hlength] at hrun
  cases hfrom : runScript C txTo nIn nHashType script
      { stack := [], pbegincodehash := script, checks } with
  | error failure =>
    rw [hfrom] at hrun
    cases hrun
  | ok st' =>
    obtain ⟨vs, hpushes⟩ := pushesTo_of_isPushOnly C txTo nIn nHashType script.length
      (le_refl _) hpush rfl hfrom
    have hheight : vs.length ≤ 1000 := by
      by_cases hvs : vs = []
      · rw [hvs]
        exact Nat.zero_le _
      · have hroom := height_of_runScript C txTo nIn nHashType hpushes rfl hvs hfrom
        simpa using hroom
    rw [runScript_pushes C txTo nIn nHashType hpushes rfl (by simpa using hheight)] at hfrom
    rw [runScript_pushes C txTo nIn nHashType hpushes rfl (by simpa using hheight)] at hrun
    cases hrun
    refine ⟨?_, hlength, ?_, rfl⟩
    · simpa using hpushes
    · simpa using hheight

end Pushes

/-! ## Scripts with the hash of a key or of a script -/

section Solved

open txnouttype

variable {hash : valtype}

theorem GetOp_push20 (h : hash.length = 20) (rest : CScript) :
    GetOp (0x14 :: (hash ++ rest)) = some (0x14, hash, rest) := by
  have hsize : operandSize 0x14 (hash ++ rest) = some (20, hash ++ rest) := rfl
  rw [GetOp, if_pos (by decide), hsize]
  dsimp only
  rw [if_neg (by rw [length_append]; omega), take_left' h, drop_left' h]

theorem pushData_of_length (h : hash.length = 20) : pushData hash = 0x14 :: hash := by
  rw [pushData, h]
  rfl

theorem expectOp_of_GetOp {opcode' : opcodetype} (h : GetOp pc = some (opcode', vch, rest)) :
    expectOp opcode pc = if opcode' = opcode then some rest else none := by
  rw [expectOp, h]

theorem Solver_keyHash (h : hash.length = 20) :
    Solver (OP_DUP :: OP_HASH160 :: 0x14 :: (hash ++ [OP_EQUALVERIFY, OP_CHECKSIG])) =
      some (TX_PUBKEYHASH, [hash]) := by
  have hpush := GetOp_push20 h [OP_EQUALVERIFY, OP_CHECKSIG]
  have hdup (pc : CScript) : GetOp (OP_DUP :: pc) = some (OP_DUP, [], pc) := rfl
  have hhash (pc : CScript) : GetOp (OP_HASH160 :: pc) = some (OP_HASH160, [], pc) := rfl
  generalize hpc : (0x14 : UInt8) :: (hash ++ [OP_EQUALVERIFY, OP_CHECKSIG]) = pc at hpush ⊢
  have hpubkey : solveHybridPubKey (OP_DUP :: OP_HASH160 :: pc) = none := by
    simp [solveHybridPubKey, hdup, hhash, hpush]
  have hplain : IsPayToScriptHash (OP_DUP :: OP_HASH160 :: pc) = false := by
    simp [IsPayToScriptHash, ← hpc, h]
  have hfirst : matchTemplate (OP_DUP :: OP_HASH160 :: pc) pubKeyTemplate = none := by
    rw [pubKeyTemplate, matchTemplate]
    rfl
  have hsecond : matchTemplate (OP_DUP :: OP_HASH160 :: pc) pubKeyHashTemplate = some [hash] := by
    have hmatch : matchOp 0x14 hash OP_PUBKEYHASH = some [hash] := by
      simp [matchOp, h, show OP_PUBKEYHASH ≠ OP_PUBKEY by decide]
    have hthird : matchTemplate pc [OP_PUBKEYHASH, OP_EQUALVERIFY, OP_CHECKSIG] = some [hash] := by
      rw [matchTemplate, hpush]
      dsimp only
      rw [hmatch]
      rfl
    rw [pubKeyHashTemplate, matchTemplate, hdup]
    dsimp only
    rw [matchTemplate, hhash]
    dsimp only
    rw [hthird]
    rfl
  rw [Solver, hpubkey, hplain, hsecond]
  rfl

theorem Solver_scriptHash (h : hash.length = 20) :
    Solver (OP_HASH160 :: 0x14 :: (hash ++ [OP_EQUAL])) = some (TX_SCRIPTHASH, [hash]) := by
  have hpush := GetOp_push20 h [OP_EQUAL]
  have hfirst (pc : CScript) : GetOp (OP_HASH160 :: pc) = some (OP_HASH160, [], pc) := rfl
  have hequal : GetOp [OP_EQUAL] = some (OP_EQUAL, [], []) := rfl
  have hscript : IsPayToScriptHash (OP_HASH160 :: 0x14 :: (hash ++ [OP_EQUAL])) = true := by
    simp [IsPayToScriptHash, h]
  have hbytes : ((OP_HASH160 :: 0x14 :: (hash ++ [OP_EQUAL])).drop 2).take 20 = hash :=
    take_left' h
  generalize hpc : (0x14 : UInt8) :: (hash ++ [OP_EQUAL]) = pc at hpush hscript hbytes ⊢
  have hpubkey : solveHybridPubKey (OP_HASH160 :: pc) = none := by
    have hne : OP_EQUAL ≠ OP_CHECKHYBRIDSIG := by decide
    simp [solveHybridPubKey, hfirst, hpush, hequal, hne]
  have hhybrid : solveHybridPubKeyHash (OP_HASH160 :: pc) = none := by
    have hne : OP_HASH160 ≠ OP_DUPHYBRID := by decide
    simp [solveHybridPubKeyHash, expectOp_of_GetOp (hfirst _), hne]
  have hmultisig : solveHybridMultisig (OP_HASH160 :: pc) = none := by
    have hsmall : ¬ (OP_HASH160 = OP_0 ∨ (OP_1 ≤ OP_HASH160 ∧ OP_HASH160 ≤ OP_16)) := by decide
    simp [solveHybridMultisig, hfirst, hsmall]
  rw [Solver, hpubkey, hhybrid, hmultisig]
  rw [if_pos hscript, hbytes]

theorem Solver_hybridKeyHash (h : hash.length = 20) :
    Solver (OP_DUPHYBRID :: OP_HASHHYBRID160 :: 0x14 ::
        (hash ++ [OP_EQUALVERIFY, OP_CHECKHYBRIDSIG])) = some (TX_HYBRID_PUBKEYHASH, [hash]) := by
  have hpush := GetOp_push20 h [OP_EQUALVERIFY, OP_CHECKHYBRIDSIG]
  have hdup (pc : CScript) : GetOp (OP_DUPHYBRID :: pc) = some (OP_DUPHYBRID, [], pc) := rfl
  have hhash (pc : CScript) : GetOp (OP_HASHHYBRID160 :: pc) = some (OP_HASHHYBRID160, [], pc) :=
    rfl
  have hverify : expectOp OP_EQUALVERIFY [OP_EQUALVERIFY, OP_CHECKHYBRIDSIG] =
      some [OP_CHECKHYBRIDSIG] := rfl
  have hsig : expectOp OP_CHECKHYBRIDSIG [OP_CHECKHYBRIDSIG] = some [] := rfl
  generalize hpc : (0x14 : UInt8) :: (hash ++ [OP_EQUALVERIFY, OP_CHECKHYBRIDSIG]) = pc at hpush ⊢
  have hpubkey : solveHybridPubKey (OP_DUPHYBRID :: OP_HASHHYBRID160 :: pc) = none := by
    simp [solveHybridPubKey, hdup, hhash, hpush]
  have hhybrid : solveHybridPubKeyHash (OP_DUPHYBRID :: OP_HASHHYBRID160 :: pc) = some [hash] := by
    simp [solveHybridPubKeyHash, expectOp_of_GetOp (hdup _), expectOp_of_GetOp (hhash _), hpush, h,
      hverify, hsig]
  rw [Solver, hpubkey, hhybrid]

end Solved

end Phoenixcoin.Analysis
