import Phoenixcoin.Analysis.ScriptRuns

/-!
# Multisig scripts

What scripts that `Solver` finds to be a multisig, legacy or hybrid, accept as a stack: signatures
that match the keys in order, each under the script less the signatures. A script hash accepts what
the script with that hash accepts below itself.
-/

set_option autoImplicit false

namespace Phoenixcoin.Analysis

open Program Lib EvalState txnouttype List PushesTo

/-! ## The pushes of a multisig script -/

variable (pairs : List (valtype × valtype))

/-- Pairs in the order in which a script pushes their values. -/
def pairValues : List valtype :=
  pairs.flatMap fun pair => [pair.1, pair.2]

theorem flattenPairs_append (pairs pairs' : List (valtype × valtype)) :
    flattenPairs (pairs ++ pairs') = flattenPairs pairs ++ flattenPairs pairs' := by
  induction pairs with
  | nil => rfl
  | cons pair pairs ih => rw [cons_append, flattenPairs, ih]; rfl

/-- Pairs that a script pushes lie on the stack in reverse. -/
theorem reverse_pairValues : (pairValues pairs).reverse = flattenPairs pairs.reverse := by
  induction pairs with
  | nil => rfl
  | cons pair pairs ih =>
    rw [reverse_cons, flattenPairs_append, ← ih, pairValues, flatMap_cons, reverse_append]
    rfl

theorem length_pairValues : (pairValues pairs).length = pairs.length * 2 := by
  rw [← length_reverse, reverse_pairValues, length_flattenPairs, length_reverse]

theorem flattenPairs_injective {pairs pairs' : List (valtype × valtype)}
    (h : flattenPairs pairs = flattenPairs pairs') : pairs = pairs' := by
  rw [← hybridPairs_flattenPairs pairs, h, hybridPairs_flattenPairs]

structure MultisigScript (R : CScript) (opcode : opcodetype) (m n : ℕ) (values : List valtype) :
    Prop where
  pushes : ∃ vchM vchN, PushesTo R (vchM :: (values ++ [vchN])) [opcode] ∧
    CastToBigNum vchM = some (m : ℤ) ∧ CastToBigNum vchN = some (n : ℤ)
  pos : 1 ≤ m
  le : m ≤ n
  small : n ≤ 16
  sizes : ∀ v ∈ values, v.length ≤ 1952
  count : values.length ≤ 2 * n

def HybridScript (R : CScript) (m : ℕ) (keys : List (valtype × valtype)) : Prop :=
  MultisigScript R OP_CHECKMULTIHYBRIDSIG m keys.length (pairValues keys)

def LegacyScript (R : CScript) (m : ℕ) (keys : List valtype) : Prop :=
  MultisigScript R OP_CHECKMULTISIG m keys.length keys

variable {opcode : opcodetype} {pc rest R : CScript} {vch : valtype} {solutions : List valtype}

theorem number_not_plain (hlow : OP_1 ≤ opcode) : ¬ opcode ≤ OP_PUSHDATA4 := by
  intro hle
  exact absurd (UInt8.le_trans hlow hle) (by decide)

/-- A number opcode as a push. -/
theorem pushOp_number (h : GetOp pc = some (opcode, vch, rest)) (hlow : OP_1 ≤ opcode)
    (hhigh : opcode ≤ OP_16) :
    ∃ v, PushOp pc v rest ∧ CastToBigNum v = some (DecodeOP_N opcode : ℤ) := by
  obtain ⟨-, hvch⟩ := eq_cons_of_GetOp h (number_not_plain hlow)
  refine ⟨_, ⟨opcode, vch, h, ?_, Or.inr ⟨Or.inr ⟨hlow, hhigh⟩, rfl⟩⟩,
    castToBigNum_number hlow hhigh⟩
  rw [hvch]
  exact Nat.zero_le _

/-- A value of some length is a plain push. -/
theorem pushOp_data (h : GetOp pc = some (opcode, vch, rest)) (hne : vch ≠ [])
    (hsize : vch.length ≤ 1952) :
    PushOp pc vch rest := by
  have hmax : MAX_SCRIPT_ELEMENT_SIZE = 66000 := rfl
  have hplain : opcode ≤ OP_PUSHDATA4 := by
    by_contra hop
    exact hne (eq_cons_of_GetOp h hop).2
  exact ⟨opcode, vch, h, by omega, Or.inl ⟨hplain, rfl⟩⟩

theorem decodeOP_N_le (hlow : OP_1 ≤ opcode) (hhigh : opcode ≤ OP_16) : DecodeOP_N opcode ≤ 16 := by
  obtain ⟨k, hk, -, hdecode⟩ := toNat_number hlow hhigh
  omega

theorem isPubKeySize_bounds (h : IsPubKeySize vch = true) : vch ≠ [] ∧ vch.length ≤ 120 := by
  unfold IsPubKeySize at h
  simp only [Bool.and_eq_true, decide_eq_true_eq] at h
  refine ⟨?_, h.2⟩
  intro hnil
  rw [hnil] at h
  exact absurd h.1 (by decide)

/-! ## Hybrid multisig scripts -/

theorem pushesTo_hybridKeyPairs {fuel : ℕ} {values : List valtype}
    (h : hybridKeyPairs fuel pc = some (values, opcode, rest)) :
    ∃ keys pc₁ vch, values = pairValues keys ∧ PushesTo pc values pc₁ ∧
      (∀ v ∈ values, v.length ≤ 1952) ∧ GetOp pc₁ = some (opcode, vch, rest) ∧
      OP_1 ≤ opcode ∧ opcode ≤ OP_16 := by
  induction fuel generalizing pc values with
  | zero => cases h
  | succ fuel ih =>
    unfold hybridKeyPairs at h
    cases hec : GetOp pc with
    | none =>
      rw [hec] at h
      cases h
    | some readEC =>
      obtain ⟨opEC, vchEC, pcEC⟩ := readEC
      rw [hec] at h
      dsimp only at h
      by_cases hsize : IsPubKeySize vchEC = true
      · rw [if_pos hsize] at h
        cases hml : GetOp pcEC with
        | none =>
          rw [hml] at h
          cases h
        | some readML =>
          obtain ⟨opML, vchML, pcML⟩ := readML
          rw [hml] at h
          dsimp only at h
          by_cases hlength : vchML.length = ML_DSA_65_PUBKEY_SIZE
          · rw [if_pos hlength] at h
            cases hmore : hybridKeyPairs fuel pcML with
            | none =>
              rw [hmore] at h
              cases h
            | some found =>
              rw [hmore] at h
              cases h
              obtain ⟨keys, pc₁, vch, hvalues, hpushes, hsizes, hend⟩ := ih hmore
              obtain ⟨hne, hle⟩ := isPubKeySize_bounds hsize
              have hmlsize : ML_DSA_65_PUBKEY_SIZE = 1952 := rfl
              have hmlne : vchML ≠ [] := by
                intro hnil
                rw [hnil] at hlength
                cases hlength
              refine ⟨(vchEC, vchML) :: keys, pc₁, vch, ?_, ?_, ?_, hend⟩
              · rw [hvalues]
                rfl
              · exact cons (pushOp_data hec hne (by omega))
                  (cons (pushOp_data hml hmlne (by omega)) hpushes)
              · intro v hv
                rcases mem_cons.mp hv with rfl | hv
                · omega
                · rcases mem_cons.mp hv with rfl | hv
                  · omega
                  · exact hsizes v hv
          · rw [if_neg hlength] at h
            cases h
      · rw [if_neg hsize] at h
        by_cases hnumber : OP_1 ≤ opEC ∧ opEC ≤ OP_16
        · rw [if_pos hnumber] at h
          cases h
          exact ⟨[], pc, vchEC, rfl, nil pc, fun v hv => absurd hv not_mem_nil, hec,
            hnumber⟩
        · rw [if_neg hnumber] at h
          cases h

/-- The opcode at the end of a script. -/
theorem eq_singleton_of_expectOp (hop : ¬ opcode ≤ OP_PUSHDATA4) (h : expectOp opcode pc = some [])
    :
    pc = [opcode] := by
  unfold expectOp at h
  cases hget : GetOp pc with
  | none =>
    rw [hget] at h
    cases h
  | some read =>
    obtain ⟨op, vch, rest⟩ := read
    rw [hget] at h
    dsimp only at h
    by_cases heq : op = opcode
    · subst heq
      rw [if_pos rfl] at h
      cases h
      exact (eq_cons_of_GetOp hget hop).1
    · rw [if_neg heq] at h
      cases h

theorem solveHybridMultisig_spec (h : solveHybridMultisig R = some solutions) :
    ∃ m keys, HybridScript R m keys ∧
      solutions = [UInt8.ofNat m] :: (pairValues keys ++ [[UInt8.ofNat keys.length]]) := by
  unfold solveHybridMultisig at h
  cases hget : GetOp R with
  | none =>
    rw [hget] at h
    cases h
  | some read =>
    obtain ⟨opM, vchM, pc⟩ := read
    rw [hget] at h
    dsimp only at h
    by_cases hopM : opM = OP_0 ∨ (OP_1 ≤ opM ∧ opM ≤ OP_16)
    · rw [if_pos hopM] at h
      cases hkeys : hybridKeyPairs pc.length pc with
      | none =>
        rw [hkeys] at h
        cases h
      | some found =>
        obtain ⟨values, opN, rest⟩ := found
        rw [hkeys] at h
        dsimp only at h
        by_cases hcounts : DecodeOP_N opN ≥ 1 ∧ values.length % 2 = 0 ∧
            values.length / 2 = DecodeOP_N opN ∧
            expectOp OP_CHECKMULTIHYBRIDSIG rest = some [] ∧ DecodeOP_N opM ≥ 1 ∧
            DecodeOP_N opM ≤ DecodeOP_N opN
        · rw [if_pos hcounts] at h
          cases h
          obtain ⟨-, -, hhalf, hlast, hpos, hle⟩ := hcounts
          obtain ⟨keys, pc₁, vch, hvalues, hpushes, hsizes, hend, hlow, hhigh⟩ :=
            pushesTo_hybridKeyPairs hkeys
          have hnumber : OP_1 ≤ opM ∧ opM ≤ OP_16 := by
            rcases hopM with rfl | hnumber
            · rw [DecodeOP_N, if_pos rfl] at hpos
              omega
            · exact hnumber
          have hlength : keys.length = DecodeOP_N opN := by
            rw [hvalues, length_pairValues] at hhalf
            omega
          obtain ⟨valueM, hpushM, hcastM⟩ := pushOp_number hget hnumber.1 hnumber.2
          obtain ⟨valueN, hpushN, hcastN⟩ := pushOp_number hend hlow hhigh
          have hop := eq_singleton_of_expectOp (by decide) hlast
          subst hop
          have hcount := length_pairValues keys
          refine ⟨DecodeOP_N opM, keys,
            ⟨⟨valueM, valueN, ?_, hcastM, ?_⟩, hpos, ?_, ?_, ?_, ?_⟩, ?_⟩
          · rw [hvalues] at hpushes
            exact cons hpushM (hpushes.append (cons hpushN (nil _)))
          · rw [hlength]
            exact hcastN
          · rw [hlength]
            exact hle
          · rw [hlength]
            exact decodeOP_N_le hlow hhigh
          · rw [← hvalues]
            exact hsizes
          · omega
          · rw [hvalues, hlength]
            rfl
        · rw [if_neg hcounts] at h
          cases h
    · rw [if_neg hopM] at h
      cases h

/-- What `Solver` takes for a hybrid multisig. -/
theorem hybridScript_of_Solver (h : Solver R = some (TX_HYBRID_MULTISIG, solutions)) :
    ∃ m keys, HybridScript R m keys ∧
      solutions = [UInt8.ofNat m] :: (pairValues keys ++ [[UInt8.ofNat keys.length]]) := by
  unfold Solver at h
  split at h
  · cases h
  split at h
  · cases h
  split at h
  · next heq =>
    cases h
    exact solveHybridMultisig_spec heq
  · split_ifs at h
    · cases h
    · split at h
      · cases h
      split at h
      · cases h
      split at h
      · split_ifs at h
        cases h
      · cases h

/-! ## Legacy multisig scripts -/

theorem pushesTo_takePubKeys {fuel : ℕ} {pc₁ : CScript} {opcode' : opcodetype} {vch' : valtype}
    {keys : List valtype} (hget : GetOp pc = some (opcode, vch, pc₁))
    (h : takePubKeys fuel opcode vch pc₁ = some (keys, opcode', vch', rest)) :
    ∃ pc', PushesTo pc keys pc' ∧ (∀ v ∈ keys, v.length ≤ 1952) ∧
      GetOp pc' = some (opcode', vch', rest) := by
  induction fuel generalizing pc pc₁ opcode vch keys with
  | zero => cases h
  | succ fuel ih =>
    unfold takePubKeys at h
    by_cases hsize : IsPubKeySize vch = true
    · rw [if_pos hsize] at h
      cases hnext : GetOp pc₁ with
      | none =>
        rw [hnext] at h
        cases h
      | some read =>
        obtain ⟨op, v, pc₂⟩ := read
        rw [hnext] at h
        dsimp only at h
        cases hmore : takePubKeys fuel op v pc₂ with
        | none =>
          rw [hmore] at h
          cases h
        | some found =>
          rw [hmore] at h
          cases h
          obtain ⟨pc', hpushes, hsizes, hend⟩ := ih hnext hmore
          obtain ⟨hne, hle⟩ := isPubKeySize_bounds hsize
          refine ⟨pc', cons (pushOp_data hget hne (by omega)) hpushes, ?_, hend⟩
          intro w hw
          rcases mem_cons.mp hw with rfl | hw
          · omega
          · exact hsizes w hw
    · rw [if_neg hsize] at h
      cases h
      exact ⟨pc, nil pc, fun v hv => absurd hv not_mem_nil, hget⟩

theorem matchOp_smallInteger (h : matchOp opcode vch OP_SMALLINTEGER = some solutions) :
    (opcode = OP_0 ∨ (OP_1 ≤ opcode ∧ opcode ≤ OP_16)) ∧
      solutions = [[UInt8.ofNat (DecodeOP_N opcode)]] := by
  unfold matchOp at h
  by_cases hop : opcode = OP_0 ∨ (OP_1 ≤ opcode ∧ opcode ≤ OP_16)
  · rw [if_pos hop] at h
    cases h
    exact ⟨hop, rfl⟩
  · rw [if_neg hop] at h
    cases h

theorem matchTemplate_lastOp
    (hop : opcode ∉ [OP_PUBKEYS, OP_PUBKEY, OP_PUBKEYHASH, OP_SMALLINTEGER])
    (hplain : ¬ opcode ≤ OP_PUSHDATA4) (h : matchTemplate pc [opcode] = some solutions) :
    pc = [opcode] ∧ solutions = [] := by
  have hne {other : opcodetype}
      (hmem : other ∈ [OP_PUBKEYS, OP_PUBKEY, OP_PUBKEYHASH, OP_SMALLINTEGER]) :
      opcode ≠ other := by
    rintro rfl
    exact hop hmem
  unfold matchTemplate at h
  cases hget : GetOp pc with
  | none =>
    rw [hget] at h
    cases h
  | some read =>
    obtain ⟨op, vch, rest⟩ := read
    rw [hget] at h
    dsimp only at h
    rw [if_neg (hne (by simp)), matchOp, if_neg (hne (by simp)), if_neg (hne (by simp)),
      if_neg (hne (by simp))] at h
    by_cases heq : op = opcode ∧ vch = []
    · obtain ⟨rfl, hvch⟩ := heq
      rw [if_pos ⟨rfl, hvch⟩, matchTemplate] at h
      by_cases hend : rest = []
      · rw [if_pos hend] at h
        cases h
        refine ⟨?_, rfl⟩
        rw [← hend]
        exact (eq_cons_of_GetOp hget hplain).1
      · rw [if_neg hend] at h
        cases h
    · rw [if_neg heq] at h
      cases h

theorem matchTemplate_multisig (h : matchTemplate R multisigTemplate = some solutions) :
    ∃ opM vchM pc keys pc' opN vchN,
      GetOp R = some (opM, vchM, pc) ∧ (opM = OP_0 ∨ (OP_1 ≤ opM ∧ opM ≤ OP_16)) ∧
      PushesTo pc keys pc' ∧ (∀ v ∈ keys, v.length ≤ 1952) ∧
      GetOp pc' = some (opN, vchN, [OP_CHECKMULTISIG]) ∧
      (opN = OP_0 ∨ (OP_1 ≤ opN ∧ opN ≤ OP_16)) ∧
      solutions = [UInt8.ofNat (DecodeOP_N opM)] :: (keys ++ [[UInt8.ofNat (DecodeOP_N opN)]]) := by
  unfold multisigTemplate matchTemplate at h
  cases hfirst : GetOp R with
  | none =>
    rw [hfirst] at h
    cases h
  | some read =>
    obtain ⟨opM, vchM, pc⟩ := read
    rw [hfirst] at h
    dsimp only at h
    rw [if_neg (by decide)] at h
    split at h
    · next solutionsM rest hmatchM hrest =>
      cases h
      obtain ⟨hopM, rfl⟩ := matchOp_smallInteger hmatchM
      unfold matchTemplate at hrest
      cases hkey : GetOp pc with
      | none =>
        rw [hkey] at hrest
        cases hrest
      | some readKey =>
        obtain ⟨op, vch, pc₁⟩ := readKey
        rw [hkey] at hrest
        dsimp only at hrest
        rw [if_pos rfl] at hrest
        cases hkeys : takePubKeys (pc₁.length + 1) op vch pc₁ with
        | none =>
          rw [hkeys] at hrest
          cases hrest
        | some found =>
          obtain ⟨keys, opN, vchN, pc₂⟩ := found
          rw [hkeys] at hrest
          dsimp only at hrest
          split at hrest
          · next solutionsN rest' hmatchN hlast =>
            cases hrest
            obtain ⟨hopN, rfl⟩ := matchOp_smallInteger hmatchN
            obtain ⟨rfl, rfl⟩ := matchTemplate_lastOp (by decide) (by decide) hlast
            obtain ⟨pc', hpushes, hsizes, hend⟩ := pushesTo_takePubKeys hkey hkeys
            exact ⟨opM, vchM, pc, keys, pc', opN, vchN, rfl, hopM, hpushes, hsizes, hend, hopN,
              by simp⟩
          · cases hrest
    · cases h

theorem toNat_ofNat_decodeOP_N (h : opcode = OP_0 ∨ (OP_1 ≤ opcode ∧ opcode ≤ OP_16)) :
    (UInt8.ofNat (DecodeOP_N opcode)).toNat = DecodeOP_N opcode := by
  rcases h with rfl | ⟨hlow, hhigh⟩
  · rfl
  · have hle := decodeOP_N_le hlow hhigh
    exact UInt8.toNat_ofNat_of_lt' (by simp [UInt8.size]; omega)

/-- What `Solver` takes for a legacy multisig. -/
theorem legacyScript_of_template (h : matchTemplate R multisigTemplate = some solutions)
    (hcounts : multisigCountsOk solutions = true) :
    ∃ m keys, LegacyScript R m keys ∧
      solutions = [UInt8.ofNat m] :: (keys ++ [[UInt8.ofNat keys.length]]) := by
  obtain ⟨opM, vchM, pc, keys, pc', opN, vchN, hgetM, hopM, hpushes, hsizes, hgetN, hopN, rfl⟩ :=
    matchTemplate_multisig h
  have hm := toNat_ofNat_decodeOP_N hopM
  have hn := toNat_ofNat_decodeOP_N hopN
  have hlast : ([UInt8.ofNat (DecodeOP_N opM)] ::
      (keys ++ [[UInt8.ofNat (DecodeOP_N opN)]])).getLast? =
      some [UInt8.ofNat (DecodeOP_N opN)] := by
    rw [← cons_append, getLast?_concat]
  rw [multisigCountsOk, hlast] at hcounts
  simp only [head?_cons, Option.bind_some, not_or, decide_eq_true_eq, UInt8.lt_iff_toNat_lt,
    not_lt, gt_iff_lt, hm, hn, length_cons, length_append, length_nil, ne_eq, not_not] at hcounts
  obtain ⟨hposM, hposN, hle, hlength⟩ := hcounts
  have hnumber {opcode : opcodetype} (hop : opcode = OP_0 ∨ (OP_1 ≤ opcode ∧ opcode ≤ OP_16))
      (hpos : 1 ≤ DecodeOP_N opcode) : OP_1 ≤ opcode ∧ opcode ≤ OP_16 := by
    rcases hop with rfl | hnumber
    · rw [DecodeOP_N, if_pos rfl] at hpos
      omega
    · exact hnumber
  have hopM' := hnumber hopM hposM
  have hopN' := hnumber hopN hposN
  have hkeys : keys.length = DecodeOP_N opN := by omega
  obtain ⟨valueM, hpushM, hcastM⟩ := pushOp_number hgetM hopM'.1 hopM'.2
  obtain ⟨valueN, hpushN, hcastN⟩ := pushOp_number hgetN hopN'.1 hopN'.2
  refine ⟨DecodeOP_N opM, keys, ⟨⟨valueM, valueN, ?_, hcastM, ?_⟩, hposM, ?_, ?_, hsizes, ?_⟩, ?_⟩
  · exact cons hpushM (hpushes.append (cons hpushN (nil _)))
  · rw [hkeys]
    exact hcastN
  · rw [hkeys]
    exact hle
  · rw [hkeys]
    exact decodeOP_N_le hopN'.1 hopN'.2
  · omega
  · rw [hkeys]

theorem legacyScript_of_Solver (h : Solver R = some (TX_MULTISIG, solutions)) :
    ∃ m keys, LegacyScript R m keys ∧
      solutions = [UInt8.ofNat m] :: (keys ++ [[UInt8.ofNat keys.length]]) := by
  unfold Solver at h
  split at h
  · cases h
  split at h
  · cases h
  split at h
  · cases h
  · split_ifs at h
    · cases h
    · split at h
      · cases h
      split at h
      · cases h
      split at h
      · next heq =>
        split_ifs at h with hcounts
        cases h
        exact legacyScript_of_template heq hcounts
      · cases h

/-! ## Running a multisig script -/

/-- The script runs to its end and leaves a true value on top of the stack. -/
def EvalTrue (C : SignatureCrypto) (txTo : CTransaction) (nIn : ℕ) (stack : Stack)
    (script : CScript) (checks : SignatureChecks) : Prop :=
  ∃ stack' checks', EvalScript C txTo nIn 0 stack script checks = .ok (stack', checks') ∧
    stackTrue stack' = true

theorem length_le_of_cast {n : ℤ} (h : CastToBigNum vch = some n) : vch.length ≤ 4 := by
  unfold CastToBigNum at h
  by_cases hlong : vch.length > nMaxNumSize
  · rw [if_pos hlong] at h
    cases h
  · exact not_lt.mp hlong

theorem sum_map_le {vs : List valtype} {k : ℕ} (h : ∀ v ∈ vs, v.length ≤ k) :
    (vs.map fun v => v.length + 5).sum ≤ vs.length * (k + 5) := by
  induction vs with
  | nil => simp
  | cons v vs ih =>
    have hv := h v mem_cons_self
    have hvs := ih fun w hw => h w (mem_cons_of_mem _ hw)
    rw [map_cons, sum_cons, length_cons, Nat.succ_mul]
    omega

section MultisigRun

variable {C : SignatureCrypto} {txTo : CTransaction} {nIn : ℕ} {R : CScript}
  {opcode : opcodetype} {m n : ℕ} {values : List valtype}

/-- A multisig script is short enough to be pushed. -/
theorem MultisigScript.length_le (h : MultisigScript R opcode m n values) :
    R.length ≤ MAX_SCRIPT_ELEMENT_SIZE := by
  obtain ⟨vchM, vchN, hpushes, hcastM, hcastN⟩ := h.pushes
  have hlength := hpushes.length_le
  have hM := length_le_of_cast hcastM
  have hN := length_le_of_cast hcastN
  have hvalues := sum_map_le h.sizes
  have hcount := h.count
  have hsmall := h.small
  have hmax : MAX_SCRIPT_ELEMENT_SIZE = 66000 := rfl
  rw [map_cons, map_append, sum_cons, sum_append, map_singleton,
    sum_singleton, length_singleton] at hlength
  omega

/-- It begins with a push. -/
theorem MultisigScript.not_isPayToScriptHash (h : MultisigScript R opcode m n values) :
    IsPayToScriptHash R = false := by
  obtain ⟨vchM, vchN, hpushes, -, -⟩ := h.pushes
  cases hpushes with
  | cons first _ =>
    obtain ⟨op, vch, hget, -, hpushed⟩ := first
    cases R with
    | nil => cases hget
    | cons b R =>
      have hop := head_le_of_GetOp hget
      subst hop
      have hne : op ≠ OP_HASH160 := by
        intro heq
        have hle := hpushed.le
        rw [heq] at hle
        exact absurd hle (by decide)
      unfold IsPayToScriptHash
      rw [decide_eq_false (p := (op :: R)[0]? = some OP_HASH160) (by simpa using hne)]
      simp

variable (C txTo nIn) in
theorem runScript_op (st : EvalState) (pc : CScript) (hop : OP_16 < opcode)
    (henabled : ¬ isDisabled opcode) (hexec : st.vfExec = []) (hcount : st.nOpCount < 201) :
    runScript C txTo nIn 0 (opcode :: pc) st =
      match ({ st with nOpCount := st.nOpCount + 1 } : EvalState).execOp C txTo nIn 0 opcode
          pc with
      | .error failure => .error failure
      | .ok st' =>
        if st'.stack.length + st'.altstack.length > 1000 then st'.fail
        else runScript C txTo nIn 0 pc st' := by
  have hplain : ¬ opcode ≤ OP_PUSHDATA4 := by
    intro hle
    have hlt := UInt8.lt_iff_toNat_lt.mp hop
    have hle' := UInt8.le_iff_toNat_le.mp hle
    have hfirst : OP_16.toNat = 0x60 := rfl
    have hsecond : OP_PUSHDATA4.toNat = 0x4e := rfl
    omega
  have hget : GetOp (opcode :: pc) = some (opcode, [], pc) := by
    rw [GetOp, if_neg hplain]
  have htaken : st.fExec = true := by
    rw [EvalState.fExec, hexec]
    rfl
  have hstep : st.step C txTo nIn 0 opcode [] pc =
      ({ st with nOpCount := st.nOpCount + 1 } : EvalState).execOp C txTo nIn 0 opcode pc := by
    rw [EvalState.step, if_neg (by simp), if_neg (by omega)]
    rw [if_pos hop, if_neg henabled, if_neg (fun hand => hplain hand.2), if_pos]
    exact Or.inl htaken
  rw [runScript_step C txTo nIn 0 st hget, boundedStep, hstep]
  cases ({ st with nOpCount := st.nOpCount + 1 } : EvalState).execOp C txTo nIn 0 opcode pc with
  | error failure => rfl
  | ok st' =>
    dsimp only
    by_cases hfull : st'.stack.length + st'.altstack.length > 1000
    · rw [if_pos hfull, if_pos hfull]
      rfl
    · rw [if_neg hfull, if_neg hfull]

/-- The state that a multisig opcode runs on. -/
def operandState (R : CScript) (stack : Stack) (checks : SignatureChecks) : EvalState where
  stack := stack
  nOpCount := 1
  pbegincodehash := R
  checks := checks

variable (C txTo nIn) in
theorem MultisigScript.evalTrue_iff (h : MultisigScript R opcode m n values)
    (hop : OP_16 < opcode) (henabled : ¬ isDisabled opcode) (stack : Stack)
    (checks : SignatureChecks) :
    ∃ vchM vchN, CastToBigNum vchM = some (m : ℤ) ∧ CastToBigNum vchN = some (n : ℤ) ∧
      (EvalTrue C txTo nIn stack R checks ↔ stack.length + values.length + 2 ≤ 1000 ∧ ∃ st',
          (operandState R (vchN :: (values.reverse ++ vchM :: stack)) checks).execOp C txTo nIn 0
            opcode [] = .ok st' ∧ st'.stack.length + st'.altstack.length ≤ 1000 ∧
            st'.vfExec = [] ∧ stackTrue st'.stack = true) := by
  obtain ⟨vchM, vchN, hpushes, hcastM, hcastN⟩ := h.pushes
  have hlength : R.length ≤ MAX_SCRIPT_SIZE := h.length_le.trans (by decide)
  have hcount : (vchM :: (values ++ [vchN])).length = values.length + 2 := by simp
  have hstack : (vchM :: (values ++ [vchN])).reverse ++ stack =
      vchN :: (values.reverse ++ vchM :: stack) := by simp
  refine ⟨vchM, vchN, hcastM, hcastN, ?_⟩
  rw [EvalTrue, EvalScript_eq C txTo nIn 0 stack checks hlength]
  have hlast := runScript_op C txTo nIn
    { stack := vchN :: (values.reverse ++ vchM :: stack), pbegincodehash := R, checks } [] hop
    henabled rfl (Nat.zero_lt_succ _)
  constructor
  · intro hrun
    obtain ⟨stack', checks', hrun, htrue⟩ := hrun
    cases hfrom : runScript C txTo nIn 0 R { stack, pbegincodehash := R, checks } with
    | error failure =>
      rw [hfrom] at hrun
      cases hrun
    | ok st' =>
      have hroom := height_of_runScript C txTo nIn 0 hpushes rfl (cons_ne_nil _ _) hfrom
      simp only [length_nil, Nat.add_zero] at hroom
      rw [runScript_pushes C txTo nIn 0 hpushes rfl (by simpa [hcount] using hroom), hstack,
        hlast] at hfrom
      refine ⟨by omega, ?_⟩
      split at hfrom
      · cases hfrom
      · next st₁ heq =>
        by_cases hfull : st₁.stack.length + st₁.altstack.length > 1000
        · rw [if_pos hfull] at hfrom
          cases hfrom
        · rw [if_neg hfull, runScript_nil] at hfrom
          cases hfrom
          rw [runScript_pushes C txTo nIn 0 hpushes rfl (by simpa [hcount] using hroom), hstack,
            hlast, heq] at hrun
          dsimp only at hrun
          rw [if_neg hfull, runScript_nil] at hrun
          dsimp only at hrun
          by_cases hopen : st'.vfExec ≠ []
          · rw [if_pos hopen] at hrun
            cases hrun
          · rw [if_neg hopen] at hrun
            cases hrun
            exact ⟨st', heq, by omega, not_not.mp hopen, htrue⟩
  · intro hrun
    obtain ⟨hroom, st', hexec, hfull, hclosed, htrue⟩ := hrun
    refine ⟨st'.stack, st'.checks, ?_, htrue⟩
    rw [runScript_pushes C txTo nIn 0 hpushes rfl (by simp [hcount]; omega), hstack, hlast]
    unfold operandState at hexec
    rw [hexec]
    dsimp only
    rw [if_neg (by omega), runScript_nil]
    dsimp only
    rw [if_neg (not_not.mpr hclosed)]

end MultisigRun

@[simp]
theorem stackTrue_boolPush (fValue : Bool) (rest : Stack) :
    stackTrue (boolPush fValue rest) = fValue := by
  cases fValue <;> rfl

/-! ## What a hybrid multisig accepts -/

def HybridAccepts (C : SignatureCrypto) (txTo : CTransaction) (nIn : ℕ) (R : CScript) (m : ℕ)
    (keys : List (valtype × valtype)) (stack : Stack) : Prop :=
  ∃ sigs rest sigHashType preimage, stack = flattenPairs sigs ++ rest ∧ sigs.length = m ∧
    (∀ sigPair ∈ sigs, sigPair.1 ≠ [] ∧ sigPair.2 ≠ []) ∧
    (∀ sigPair ∈ sigs, backByte sigPair.1 = sigHashType ∧ backByte sigPair.2 = sigHashType) ∧
    ConstructSignatureHashPreimage
      (dropSignatures R (sigs.flatMap fun sigPair => [sigPair.1, sigPair.2])) txTo nIn
      sigHashType = some preimage ∧
    OrderedMatch (pairVerifies C preimage) sigs keys.reverse

section Accepts

variable {C : SignatureCrypto} {txTo : CTransaction} {nIn m : ℕ} {R : CScript}
  {checks : SignatureChecks}

theorem evalTrue_hybrid_iff {keys : List (valtype × valtype)} (h : HybridScript R m keys)
    (hsound : CacheSound C checks) (stack : Stack) :
    EvalTrue C txTo nIn stack R checks ↔
      stack.length + keys.length * 2 + 2 ≤ 1000 ∧ HybridAccepts C txTo nIn R m keys stack := by
  obtain ⟨vchM, vchN, hcastM, hcastN, hiff⟩ :=
    h.evalTrue_iff C txTo nIn (by decide) (by decide) stack checks
  rw [hiff, reverse_pairValues, length_pairValues, execOp_multiHybrid]
  constructor
  · intro hrun
    obtain ⟨hroom, st', hexec, -, -, htrue⟩ := hrun
    refine ⟨hroom, ?_⟩
    obtain ⟨keys', sigs, rest, sigHashType, hstack, hpre⟩ := multisigStack_of_ok hexec
    obtain ⟨vchN', vchM', heq, hcastN', hcastM'⟩ := hstack.stack
    obtain ⟨rfl, htail⟩ := List.cons.inj heq
    have hkeysLength : keys'.length = keys.length := by
      rw [hcastN] at hcastN'
      have hcast := Option.some.inj hcastN'
      omega
    have hflatLength : (flattenPairs keys.reverse).length = (flattenPairs keys').length := by
      rw [length_flattenPairs, length_flattenPairs, length_reverse, hkeysLength]
    obtain ⟨hkeys, hbelow⟩ := append_inj htail hflatLength
    obtain ⟨rfl, hsplit⟩ := List.cons.inj hbelow
    have hkeys' := flattenPairs_injective hkeys
    subst hkeys'
    have hsigs : sigs.length = m := by
      rw [hcastM] at hcastM'
      have hcast := Option.some.inj hcastM'
      omega
    have hpos := h.pos
    have hne : sigs ≠ [] := by
      intro hnil
      rw [hnil, length_nil] at hsigs
      omega
    obtain ⟨preimage, hpreimage⟩ := Option.isSome_iff_exists.mp (hpre hne)
    have hst : CacheSound C (operandState R (vchN :: (flattenPairs keys.reverse ++
        vchM :: stack)) checks).checks := hsound
    obtain ⟨fSuccess, checks', hop, hmatch⟩ := hstack.op_ok hst fun _ => hpreimage
    rw [hop] at hexec
    cases hexec
    rw [stackTrue_boolPush] at htrue
    exact ⟨sigs, rest, sigHashType, preimage, hsplit, hsigs, hstack.nonempty, hstack.oneType,
      hpreimage, hmatch.mp htrue⟩
  · intro hrun
    obtain ⟨hroom, sigs, rest, sigHashType, preimage, hsplit, hsigs, hnonempty, honeType,
      hpreimage, hmatch⟩ := hrun
    have hsmall := h.small
    have hle := h.le
    have hstack : MultisigStack 0 (operandState R (vchN :: (flattenPairs keys.reverse ++
        vchM :: stack)) checks) keys.reverse sigs rest sigHashType := by
      refine ⟨⟨⟨vchN, vchM, ?_, ?_, ?_⟩, ?_, ?_, ?_⟩, hnonempty, honeType, fun _ => Or.inl rfl⟩
      · rw [operandState, hsplit]
      · rw [length_reverse]
        exact hcastN
      · rw [hsigs]
        exact hcastM
      · rw [length_reverse]
        omega
      · rw [length_reverse]
        omega
      · rw [length_reverse]
        unfold operandState
        dsimp only
        omega
    obtain ⟨fSuccess, checks', hop, htrue⟩ := hstack.op_ok hsound fun _ => hpreimage
    refine ⟨hroom, _, hop, ?_, rfl, ?_⟩
    · have hlength := congrArg List.length hsplit
      rw [length_append] at hlength
      rw [operandState, boolPush, length_cons, length_nil]
      omega
    · rw [stackTrue_boolPush]
      exact htrue.mpr hmatch

/-! ## What a legacy multisig accepts -/

def sigVerifies (C : SignatureCrypto) (scriptCode : CScript) (txTo : CTransaction) (nIn : ℕ)
    (vchSig vchPubKey : valtype) : Bool :=
  ecVerifies C (SignatureHash C.toDigests scriptCode txTo nIn (backByte vchSig)) vchSig vchPubKey

variable (txTo nIn) in
theorem CheckSig_iff (hsound : CacheSound C checks) (scriptCode : CScript)
    (vchSig vchPubKey : valtype) :
    (CheckSig C vchSig vchPubKey scriptCode txTo nIn 0 none checks).1 =
      sigVerifies C scriptCode txTo nIn vchSig vchPubKey := by
  unfold CheckSig sigVerifies ecVerifies
  by_cases hempty : vchSig = []
  · rw [if_pos hempty, hempty]
    rfl
  · rw [if_neg hempty, if_neg (not_not.mpr rfl)]
    rw [if_neg (not_not.mpr rfl)]
    by_cases hshort : vchSig.dropLast.length < 8
    · rw [if_pos hshort, decide_eq_false (by omega)]
      rfl
    · rw [if_neg hshort, decide_eq_true (by omega), Bool.true_and]
      exact (verifyCached_spec hsound _ _ _).1

variable {keys : List valtype}

theorem matchSignatures_spec {sigs : List valtype} (hsound : CacheSound C checks)
    (scriptCode : CScript) :
    (matchSignatures C scriptCode txTo nIn 0 sigs keys checks).1 =
      greedyMatch (sigVerifies C scriptCode txTo nIn) sigs keys := by
  induction keys generalizing sigs checks with
  | nil => cases sigs <;> rfl
  | cons key keys ih =>
    cases sigs with
    | nil => rfl
    | cons sig sigs =>
      have hmatch := CheckSig_iff txTo nIn hsound scriptCode sig key
      have hkept := CheckSig_sound scriptCode txTo nIn 0 hsound sig key none
      unfold matchSignatures greedyMatch
      generalize CheckSig C sig key scriptCode txTo nIn 0 none checks = result at hmatch hkept
      obtain ⟨fMatch, checks₁⟩ := result
      rw [← hmatch]
      have hrest (sigs' : List valtype) : (if sigs'.length > keys.length then (false, checks₁)
            else matchSignatures C scriptCode txTo nIn 0 sigs' keys checks₁).1 =
          greedyMatch (sigVerifies C scriptCode txTo nIn) sigs' keys := by
        by_cases hmore : sigs'.length > keys.length
        · rw [if_pos hmore]
          have hnot : ¬ greedyMatch (sigVerifies C scriptCode txTo nIn) sigs' keys = true := by
            intro hgreedy
            have hlength := ((greedyMatch_iff _).mp hgreedy).length_le
            omega
          exact (Bool.eq_false_iff.mpr hnot).symm
        · rw [if_neg hmore]
          exact ih hkept
      cases fMatch with
      | true => exact hrest sigs
      | false => exact hrest (sig :: sigs)

def LegacyAccepts (C : SignatureCrypto) (txTo : CTransaction) (nIn : ℕ) (R : CScript) (m : ℕ)
    (keys : List valtype) (stack : Stack) : Prop :=
  m + 1 ≤ stack.length ∧
    OrderedMatch (sigVerifies C (dropSignatures R (stack.take m)) txTo nIn) (stack.take m)
      keys.reverse

variable (C txTo nIn) in
theorem opCheckMultisig_eq (st : EvalState) {vchN vchM : valtype} {stack : Stack}
    (hstack : st.stack = vchN :: (keys ++ vchM :: stack))
    (hcastN : CastToBigNum vchN = some (keys.length : ℤ))
    (hcastM : CastToBigNum vchM = some (m : ℤ)) (hsmall : keys.length ≤ 20) (hle : m ≤ keys.length)
    (hops : st.nOpCount + keys.length ≤ 201) :
    st.opCheckMultisig C txTo nIn 0 false =
      if stack.length < m + 1 then
        ({ st with nOpCount := st.nOpCount + keys.length } : EvalState).fail
      else
        ({ st with nOpCount := st.nOpCount + keys.length } : EvalState).pushResult false
          (stack.drop (m + 1))
          (matchSignatures C (dropSignatures st.pbegincodehash (stack.take m)) txTo nIn 0
            (stack.take m) keys st.checks) := by
  rw [opCheckMultisig, hstack, stackCount_of_cast _ hcastN hsmall]
  dsimp only
  rw [if_neg (not_lt.mpr hops), drop_left, stackCount_of_cast _ hcastM hle, take_left]

theorem evalTrue_legacy_iff (h : LegacyScript R m keys) (hsound : CacheSound C checks)
    (stack : Stack) :
    EvalTrue C txTo nIn stack R checks ↔
      stack.length + keys.length + 2 ≤ 1000 ∧ LegacyAccepts C txTo nIn R m keys stack := by
  obtain ⟨vchM, vchN, hcastM, hcastN, hiff⟩ :=
    h.evalTrue_iff C txTo nIn (by decide) (by decide) stack checks
  have hsmall := h.small
  have hle := h.le
  have hop := opCheckMultisig_eq C txTo nIn
    (operandState R (vchN :: (keys.reverse ++ vchM :: stack)) checks) rfl
    (by rw [length_reverse]; exact hcastN) hcastM (by rw [length_reverse]; omega)
    (by rw [length_reverse]; exact hle)
    (by rw [length_reverse]; unfold operandState; dsimp only; omega)
  have hexecOp : (operandState R (vchN :: (keys.reverse ++ vchM :: stack)) checks).execOp C txTo
      nIn 0 OP_CHECKMULTISIG [] =
        (operandState R (vchN :: (keys.reverse ++ vchM :: stack)) checks).opCheckMultisig C txTo
          nIn 0 false := rfl
  rw [hiff, hexecOp, hop]
  by_cases hshort : stack.length < m + 1
  · rw [if_pos hshort]
    constructor
    · intro hrun
      obtain ⟨-, st', hexec, -⟩ := hrun
      cases hexec
    · intro hrun
      exact absurd hrun.2.1 (by omega)
  · have hmatch : (matchSignatures C (dropSignatures R (stack.take m)) txTo nIn 0 (stack.take m)
        keys.reverse checks).1 = true ↔
        OrderedMatch (sigVerifies C (dropSignatures R (stack.take m)) txTo nIn) (stack.take m)
          keys.reverse := by
      rw [matchSignatures_spec hsound, greedyMatch_iff]
    rw [if_neg hshort]
    constructor
    · intro hrun
      obtain ⟨hroom, st', hexec, -, -, htrue⟩ := hrun
      cases hexec
      refine ⟨hroom, by omega, hmatch.mp ?_⟩
      exact (stackTrue_boolPush _ _).symm.trans htrue
    · intro hrun
      obtain ⟨hroom, -, hordered⟩ := hrun
      refine ⟨hroom, _, rfl, ?_, rfl, ?_⟩
      · unfold boolPush
        dsimp only [operandState]
        rw [length_cons, length_drop, length_nil]
        omega
      · exact (stackTrue_boolPush _ _).trans (hmatch.mpr hordered)

end Accepts

/-! ## Script hashes -/

variable (D : Digests)

/-- The script that pays to the hash of `R`. -/
def payToScriptHash (R : CScript) : CScript :=
  OP_HASH160 :: 0x14 :: (toLittleEndian 20 (D.Hash160 R) ++ [OP_EQUAL])

theorem Hash160_lt (vch : valtype) : D.Hash160 vch < 256 ^ 20 := by
  have h := ofLittleEndian_lt (D.RIPEMD160 (D.SHA256 vch))
  rw [D.length_RIPEMD160] at h
  exact h

theorem toLittleEndian_Hash160_inj {vch' : valtype}
    (h : toLittleEndian 20 (D.Hash160 vch) = toLittleEndian 20 (D.Hash160 vch')) :
    D.Hash160 vch = D.Hash160 vch' := by
  rw [← ofLittleEndian_toLittleEndian (Hash160_lt D vch), h,
    ofLittleEndian_toLittleEndian (Hash160_lt D vch')]

theorem length_payToScriptHash (R : CScript) : (payToScriptHash D R).length = 23 := by
  simp [payToScriptHash]

theorem isPayToScriptHash_payToScriptHash (R : CScript) :
    IsPayToScriptHash (payToScriptHash D R) = true := by
  have hlast : (payToScriptHash D R)[22]? = some OP_EQUAL := by
    have hlength : (toLittleEndian 20 (D.Hash160 R)).length = 20 := length_toLittleEndian _ _
    unfold payToScriptHash
    rw [getElem?_cons_succ, getElem?_cons_succ, getElem?_append_right (by rw [hlength])]
    rfl
  rfl

section ScriptHash

variable {C : SignatureCrypto} {txTo : CTransaction} {nIn : ℕ} {checks : SignatureChecks}
  (R : CScript)

theorem execOp_hash160 (st : EvalState) (v : valtype) (rest : Stack) (pc : CScript)
    (hstack : st.stack = v :: rest) :
    st.execOp C txTo nIn 0 OP_HASH160 pc =
      .ok { st with stack := toLittleEndian 20 (C.Hash160 v) :: rest } := by
  have hop : st.execOp C txTo nIn 0 OP_HASH160 pc =
      st.onStack (stackOp C.toDigests OP_HASH160 st.stack) := rfl
  rw [hop, hstack]
  rfl

theorem execOp_equal (st : EvalState) (v w : valtype) (rest : Stack) (pc : CScript)
    (hstack : st.stack = v :: w :: rest) :
    st.execOp C txTo nIn 0 OP_EQUAL pc = .ok { st with stack := boolPush (w = v) rest } := by
  have hop : st.execOp C txTo nIn 0 OP_EQUAL pc =
      st.onStack (stackOp C.toDigests OP_EQUAL st.stack) := rfl
  rw [hop, hstack]
  rfl

theorem pushOp_hash (D : Digests) : PushOp (0x14 :: (toLittleEndian 20 (D.Hash160 R) ++ [OP_EQUAL]))
      (toLittleEndian 20 (D.Hash160 R)) [OP_EQUAL] := by
  have hmax : MAX_SCRIPT_ELEMENT_SIZE = 66000 := rfl
  have hcode : 0x14 :: (toLittleEndian 20 (D.Hash160 R) ++ [OP_EQUAL]) =
      pushData (toLittleEndian 20 (D.Hash160 R)) ++ [OP_EQUAL] := by
    rfl
  rw [hcode]
  exact pushOp_pushData _ (by rw [length_toLittleEndian]; omega)

theorem EvalScript_payToScriptHash (v : valtype) (rest : Stack) (hroom : rest.length + 2 ≤ 1000) :
    EvalScript C txTo nIn 0 (v :: rest) (payToScriptHash C.toDigests R) checks =
      .ok (boolPush (C.Hash160 v = C.Hash160 R) rest, checks) := by
  have hlength : (payToScriptHash C.toDigests R).length ≤ MAX_SCRIPT_SIZE := by
    rw [length_payToScriptHash]
    decide
  have hequal : (toLittleEndian 20 (C.Hash160 v) = toLittleEndian 20 (C.Hash160 R)) =
      (C.Hash160 v = C.Hash160 R) := by
    apply propext
    exact ⟨fun h => toLittleEndian_Hash160_inj C.toDigests h, fun h => by rw [h]⟩
  rw [EvalScript_eq C txTo nIn 0 (v :: rest) checks hlength]
  rw [payToScriptHash, runScript_op C txTo nIn _ _ (by decide) (by decide) rfl (Nat.zero_lt_succ _),
    execOp_hash160 _ v rest _ rfl]
  dsimp only
  rw [if_neg (by simp; omega), runScript_push C txTo nIn 0 (pushOp_hash R C.toDigests) rfl]
  rw [if_neg (by simp; omega),
    runScript_op C txTo nIn _ _ (by decide) (by decide) rfl (by simp),
    execOp_equal _ _ _ rest _ rfl]
  dsimp only
  rw [if_neg (by simp [boolPush]; omega), runScript_nil]
  simp [hequal]

theorem EvalScript_payToScriptHash_ok {stack stack' : Stack} {checks' : SignatureChecks}
    (h : EvalScript C txTo nIn 0 stack (payToScriptHash C.toDigests R) checks =
      .ok (stack', checks')) :
    ∃ v rest, stack = v :: rest ∧ rest.length + 2 ≤ 1000 := by
  have hlength : (payToScriptHash C.toDigests R).length ≤ MAX_SCRIPT_SIZE := by
    rw [length_payToScriptHash]
    decide
  rw [EvalScript_eq C txTo nIn 0 stack checks hlength] at h
  unfold payToScriptHash at h
  rw [runScript_op C txTo nIn _ _ (by decide) (by decide) rfl (Nat.zero_lt_succ _)] at h
  cases stack with
  | nil => cases h
  | cons v rest =>
    refine ⟨v, rest, rfl, ?_⟩
    by_contra hfull
    rw [execOp_hash160 _ v rest _ rfl] at h
    dsimp only at h
    by_cases hone : rest.length + 1 > 1000
    · rw [if_pos (by omega)] at h
      cases h
    · rw [if_neg (by omega), runScript_push C txTo nIn 0 (pushOp_hash R C.toDigests) rfl]
        at h
      rw [if_pos (by simp; omega)] at h
      cases h

/-! ## Spending -/

theorem verifyScript_plain_iff {scriptSig scriptPubKey : CScript}
    (hplain : IsPayToScriptHash scriptPubKey = false) :
    (VerifyScript C txTo nIn 0 scriptSig scriptPubKey true checks).1 = true ↔
      ∃ stack checks', EvalScript C txTo nIn 0 [] scriptSig checks = .ok (stack, checks') ∧
        EvalTrue C txTo nIn stack scriptPubKey checks' := by
  unfold VerifyScript EvalTrue
  cases EvalScript C txTo nIn 0 [] scriptSig checks with
  | error failure => simp
  | ok left =>
    obtain ⟨stack, checks₁⟩ := left
    simp only [Except.ok.injEq, Prod.mk.injEq]
    cases hrun : EvalScript C txTo nIn 0 stack scriptPubKey checks₁ with
    | error failure =>
      constructor
      · intro h
        cases h
      · intro h
        obtain ⟨_, _, ⟨rfl, rfl⟩, _, _, hok, -⟩ := h
        rw [hrun] at hok
        cases hok
    | ok left' =>
      obtain ⟨stack', checks'⟩ := left'
      dsimp only
      rw [hplain]
      constructor
      · intro h
        by_cases htrue : stackTrue stack' = true
        · exact ⟨stack, checks₁, ⟨rfl, rfl⟩, stack', checks', hrun, htrue⟩
        · rw [if_pos htrue] at h
          cases h
      · intro h
        obtain ⟨_, _, ⟨rfl, rfl⟩, stack₂, checks₂, hok, htrue⟩ := h
        rw [hrun] at hok
        cases hok
        rw [if_neg (not_not.mpr htrue), if_neg (by simp)]

theorem verifyScript_scriptHash_iff {scriptSig : CScript} :
    (VerifyScript C txTo nIn 0 scriptSig (payToScriptHash C.toDigests R) true checks).1 = true ↔
      IsPushOnly scriptSig = true ∧ ∃ v rest checks',
        EvalScript C txTo nIn 0 [] scriptSig checks = .ok (v :: rest, checks') ∧
        rest.length + 2 ≤ 1000 ∧ C.Hash160 v = C.Hash160 R ∧
        EvalTrue C txTo nIn rest v checks' := by
  have hp2sh := isPayToScriptHash_payToScriptHash C.toDigests R
  unfold VerifyScript
  cases hsig : EvalScript C txTo nIn 0 [] scriptSig checks with
  | error failure => simp
  | ok left =>
    obtain ⟨stack, checks₁⟩ := left
    dsimp only
    constructor
    · intro h
      split at h
      · cases h
      · next stack' checks' hrun =>
        obtain ⟨v, rest, rfl, hroom⟩ := EvalScript_payToScriptHash_ok R hrun
        rw [EvalScript_payToScriptHash R v rest hroom] at hrun
        cases hrun
        by_cases hhash : C.Hash160 v = C.Hash160 R
        · rw [if_neg (by simp [hhash]), if_pos ⟨rfl, hp2sh⟩] at h
          by_cases hpush : IsPushOnly scriptSig = true
          · rw [if_neg (not_not.mpr hpush), verifyRedeemScript] at h
            refine ⟨hpush, v, rest, checks₁, rfl, hroom, hhash, ?_⟩
            split at h
            · cases h
            · next stack₂ checks₂ heq => exact ⟨stack₂, checks₂, heq, h⟩
          · rw [if_pos hpush] at h
            cases h
        · rw [if_pos (by simp [hhash])] at h
          cases h
    · intro h
      obtain ⟨hpush, v, rest, checks', heq, hroom, hhash, stack₂, checks₂, hrun, htrue⟩ := h
      cases heq
      rw [EvalScript_payToScriptHash R v rest hroom]
      dsimp only
      rw [if_neg (by simp [hhash]), if_neg (not_not.mpr hpush), verifyRedeemScript, hrun]
      exact htrue

end ScriptHash

/-! ## Spending by pushes -/

theorem PushesTo.isPushOnlyFrom {vs : List valtype} (h : PushesTo pc vs []) (fuel : ℕ) :
    isPushOnlyFrom fuel pc = true := by
  generalize hrest : ([] : CScript) = rest at h
  induction h generalizing fuel with
  | nil pc =>
    subst hrest
    cases fuel <;> rfl
  | @cons pc pc₁ rest v vs first _ ih =>
    obtain ⟨opcode, vch, hget, -, hpushed⟩ := first
    cases fuel with
    | zero => rfl
    | succ fuel =>
      have hend : pc ≠ [] := by
        intro hnil
        rw [hnil] at hget
        cases hget
      rw [Program.isPushOnlyFrom, if_neg hend, hget]
      dsimp only
      rw [if_neg (UInt8.not_lt.mpr hpushed.le)]
      exact ih fuel hrest

def Pushable (values : List valtype) : Prop :=
  (∀ v ∈ values, v.length ≤ MAX_SCRIPT_ELEMENT_SIZE) ∧ (PushAll values).length ≤ MAX_SCRIPT_SIZE

theorem PushAll_append (values values' : List valtype) :
    PushAll (values ++ values') = PushAll values ++ PushAll values' := flatMap_append

section Pushes

variable {C : SignatureCrypto} {txTo : CTransaction} {nIn : ℕ} {checks : SignatureChecks}
  (R : CScript) (values : List valtype)

/-- A push that is too large stops a run. -/
theorem sizes_of_runScript {values : List valtype} {st st' : EvalState} (hexec : st.vfExec = [])
    (hlong : ∀ v ∈ values, v.length < 256 ^ 4)
    (hrun : runScript C txTo nIn 0 (PushAll values ++ rest) st = .ok st') :
    ∀ v ∈ values, v.length ≤ MAX_SCRIPT_ELEMENT_SIZE := by
  induction values generalizing st with
  | nil => exact fun v hv => absurd hv not_mem_nil
  | cons v values ih =>
    have hcode : PushAll (v :: values) ++ rest = pushData v ++ (PushAll values ++ rest) := by
      rw [PushAll, flatMap_cons, append_assoc]
      rfl
    rw [hcode] at hrun
    have hv : v.length ≤ MAX_SCRIPT_ELEMENT_SIZE := by
      by_contra hlarge
      obtain ⟨opcode, hle, hget⟩ :=
        GetOp_pushData (PushAll values ++ rest) (hlong v mem_cons_self)
      rw [runScript_step C txTo nIn 0 st hget, boundedStep,
        step_push C txTo nIn 0 _ (UInt8.le_trans hle (by decide)),
        if_pos (not_le.mp hlarge)] at hrun
      cases hrun
    rw [runScript_push C txTo nIn 0 (pushOp_pushData _ hv) hexec] at hrun
    split at hrun
    · cases hrun
    · intro w hw
      rcases mem_cons.mp hw with rfl | hw
      · exact hv
      · exact @ih { st with stack := v :: st.stack } hexec
          (fun w hw => hlong w (mem_cons_of_mem _ hw)) hrun w hw

theorem EvalScript_PushAll {stack : Stack} {checks' : SignatureChecks} :
    EvalScript C txTo nIn 0 [] (PushAll values) checks = .ok (stack, checks') ↔
      Pushable values ∧ values.length ≤ 1000 ∧ stack = values.reverse ∧ checks' = checks := by
  constructor
  · intro hrun
    have hlength : (PushAll values).length ≤ MAX_SCRIPT_SIZE := by
      by_contra hlong
      rw [EvalScript, if_pos (not_le.mp hlong)] at hrun
      cases hrun
    have hlong : ∀ v ∈ values, v.length < 256 ^ 4 := by
      intro v hv
      have hmax : MAX_SCRIPT_SIZE = 200000 := rfl
      have hone := length_le_pushData v
      have hall : (pushData v).length ≤ (PushAll values).length := by
        have hsub := (singleton_sublist.mpr hv).flatMap pushData
        rw [flatMap_singleton] at hsub
        exact hsub.length_le
      omega
    have hok := hrun
    rw [EvalScript_eq C txTo nIn 0 [] checks hlength] at hok
    cases hfrom : runScript C txTo nIn 0 (PushAll values)
        { stack := [], pbegincodehash := PushAll values, checks } with
    | error failure =>
      rw [hfrom] at hok
      cases hok
    | ok st' =>
      have hrest : runScript C txTo nIn 0 (PushAll values ++ [])
          { stack := [], pbegincodehash := PushAll values, checks } = .ok st' := by
        rw [append_nil]
        exact hfrom
      have hsizes := sizes_of_runScript rfl hlong hrest
      have hpushes := pushesTo_PushAll [] hsizes
      rw [append_nil] at hpushes
      have hheight : values.length ≤ 1000 := by
        by_cases hvs : values = []
        · rw [hvs]
          exact Nat.zero_le _
        · have hroom := height_of_runScript C txTo nIn 0 hpushes rfl hvs hfrom
          simpa using hroom
      rw [EvalScript_pushes C txTo nIn 0 [] checks hpushes hlength (by simpa using hheight)] at hrun
      cases hrun
      exact ⟨⟨hsizes, hlength⟩, hheight, append_nil _, rfl⟩
  · intro h
    obtain ⟨hpushable, hheight, rfl, rfl⟩ := h
    have hpushes := pushesTo_PushAll [] hpushable.1
    rw [append_nil] at hpushes
    rw [EvalScript_pushes C txTo nIn 0 [] checks' hpushes hpushable.2 (by simpa using hheight),
      append_nil]

/-- Pushed values spend a plain script iff they make it true. -/
theorem verifyScript_PushAll_plain (hplain : IsPayToScriptHash R = false) :
    (VerifyScript C txTo nIn 0 (PushAll values) R true checks).1 = true ↔
      Pushable values ∧ values.length ≤ 1000 ∧ EvalTrue C txTo nIn values.reverse R checks := by
  rw [verifyScript_plain_iff hplain]
  constructor
  · intro h
    obtain ⟨stack, checks', hrun, htrue⟩ := h
    obtain ⟨hpushable, hheight, rfl, rfl⟩ := (EvalScript_PushAll values).mp hrun
    exact ⟨hpushable, hheight, htrue⟩
  · intro h
    exact ⟨_, _, (EvalScript_PushAll values).mpr ⟨h.1, h.2.1, rfl, rfl⟩, h.2.2⟩

theorem verifyScript_PushAll_scriptHash (v : valtype) :
    (VerifyScript C txTo nIn 0 (PushAll (values ++ [v])) (payToScriptHash C.toDigests R) true
        checks).1 = true ↔
      Pushable (values ++ [v]) ∧ values.length + 2 ≤ 1000 ∧ C.Hash160 v = C.Hash160 R ∧
        EvalTrue C txTo nIn values.reverse v checks := by
  have hstack : (values ++ [v]).reverse = v :: values.reverse := by simp
  rw [verifyScript_scriptHash_iff R]
  constructor
  · intro h
    obtain ⟨-, w, rest, checks', hrun, hroom, hhash, htrue⟩ := h
    obtain ⟨hpushable, -, heq, rfl⟩ := (EvalScript_PushAll _).mp hrun
    rw [hstack] at heq
    cases heq
    exact ⟨hpushable, by simpa using hroom, hhash, htrue⟩
  · intro h
    obtain ⟨hpushable, hheight, hhash, htrue⟩ := h
    have hpushes := pushesTo_PushAll [] hpushable.1
    rw [append_nil] at hpushes
    have hrun : EvalScript C txTo nIn 0 [] (PushAll (values ++ [v])) checks =
        .ok (v :: values.reverse, checks) := by
      rw [EvalScript_PushAll, hstack]
      exact ⟨hpushable, by simp; omega, rfl, rfl⟩
    exact ⟨hpushes.isPushOnlyFrom _, _, _, _, hrun, by simpa using hheight, hhash, htrue⟩

end Pushes

end Phoenixcoin.Analysis
