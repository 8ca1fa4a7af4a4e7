import Mathlib.Tactic.IntervalCases
import Phoenixcoin.Analysis.MultisigScripts
import Phoenixcoin.Program.HybridUsage
import Phoenixcoin.Program.ScriptForms

/-!
# What is taken for a hybrid script

`Solver` against the three hybrid templates, filled with data. The key hash and the multisig are
recognised exactly. In a script that names one hybrid key, the size of the ML-DSA half is not
looked at. `ExtractDestination` leaves this form out, which `ExtractDestinations` knows; a payment
to it never counts as a use of the key.
-/

set_option autoImplicit false

namespace Phoenixcoin.Analysis

open Lib Program txnouttype List Option

/-! ## Instructions -/

/-- An instruction of a script: data that is pushed, or an opcode. -/
inductive ScriptItem where
  | data (vch : valtype)
  | code (opcode : opcodetype)

def itemOf (opcode : opcodetype) (vch : valtype) : ScriptItem :=
  if opcode ≤ OP_PUSHDATA4 then .data vch else .code opcode

/-- From one place of a script to another lie these instructions. -/
def ItemsTo : CScript → List ScriptItem → CScript → Prop
  | pc, [], rest => pc = rest
  | pc, item :: items, rest => ∃ opcode vch pc', GetOp pc = some (opcode, vch, pc') ∧
    itemOf opcode vch = item ∧ ItemsTo pc' items rest

def Itemized (script : CScript) (items : List ScriptItem) : Prop := ItemsTo script items []

variable {items : List ScriptItem} {pc rest script : CScript} {opcode op : opcodetype}
  {solutions : List valtype}

variable {items' : List ScriptItem} {v vch : valtype} {fuel : ℕ}

theorem itemsTo_append :
    ItemsTo pc (items ++ items') rest ↔ ∃ mid, ItemsTo pc items mid ∧ ItemsTo mid items' rest := by
  induction items generalizing pc with
  | nil => simp [ItemsTo]
  | cons item items ih =>
    simp only [cons_append, ItemsTo, ih]
    constructor
    · rintro ⟨opcode, vch, pc', hget, hitem, mid, hmid, hrest⟩
      exact ⟨mid, ⟨opcode, vch, pc', hget, hitem, hmid⟩, hrest⟩
    · rintro ⟨mid, ⟨opcode, vch, pc', hget, hitem, hmid⟩, hrest⟩
      exact ⟨opcode, vch, pc', hget, hitem, mid, hmid, hrest⟩

theorem ItemsTo.length (h : ItemsTo pc items rest) : rest.length + items.length ≤ pc.length := by
  induction items generalizing pc with
  | nil =>
    obtain rfl : pc = rest := h
    simp
  | cons item items ih =>
    obtain ⟨opcode, vch, pc', hget, -, hmore⟩ := h
    have hlt := length_GetOp hget
    have hle := ih hmore
    rw [length_cons]
    omega

/-- A script is read in one way only. -/
theorem ItemsTo.unique (h : ItemsTo pc items []) (h' : ItemsTo pc items' []) : items = items' := by
  induction items generalizing pc items' with
  | nil =>
    obtain rfl : pc = [] := h
    cases items' with
    | nil => rfl
    | cons item items' =>
      obtain ⟨_, _, _, hget, -⟩ := h'
      cases hget
  | cons item items ih =>
    obtain ⟨opcode, vch, rest, hget, hitem, hmore⟩ := h
    cases items' with
    | nil =>
      obtain rfl : pc = [] := h'
      cases hget
    | cons item' items' =>
      obtain ⟨opcode', vch', rest', hget', hitem', hmore'⟩ := h'
      rw [hget] at hget'
      cases hget'
      rw [← hitem, ← hitem', ih hmore hmore']

theorem itemOf_eq_data : itemOf opcode vch = .data v ↔ opcode ≤ OP_PUSHDATA4 ∧ vch = v := by
  unfold itemOf
  split_ifs with h <;> simp [h]

theorem itemOf_eq_code : itemOf opcode vch = .code op ↔ ¬ opcode ≤ OP_PUSHDATA4 ∧ opcode = op := by
  unfold itemOf
  split_ifs with h <;> simp [h]

theorem itemsTo_code (hop : ¬ op ≤ OP_PUSHDATA4) :
    ItemsTo pc (.code op :: items) rest ↔ ∃ pc', pc = op :: pc' ∧ ItemsTo pc' items rest := by
  constructor
  · rintro ⟨opcode, vch, pc', hget, hitem, hmore⟩
    obtain ⟨hnot, rfl⟩ := itemOf_eq_code.mp hitem
    exact ⟨pc', (eq_cons_of_GetOp hget hnot).1, hmore⟩
  · rintro ⟨pc', rfl, hmore⟩
    exact ⟨op, [], pc', by rw [GetOp, if_neg hop], itemOf_eq_code.mpr ⟨hop, rfl⟩, hmore⟩

theorem expectOp_eq_some (hop : ¬ op ≤ OP_PUSHDATA4) :
    expectOp op pc = some rest ↔ pc = op :: rest := by
  constructor
  · intro h
    unfold expectOp at h
    split at h
    · cases h
    · next opcode vch pc' hget =>
      split_ifs at h with heq
      subst heq
      cases h
      exact (eq_cons_of_GetOp hget hop).1
  · rintro rfl
    rw [expectOp, GetOp, if_neg hop]
    exact if_pos rfl

theorem itemsTo_pushData (hv : v.length < 256 ^ 4) (rest : CScript) :
    ItemsTo (pushData v ++ rest) [.data v] rest := by
  obtain ⟨opcode, hle, hget⟩ := GetOp_pushData rest hv
  exact ⟨opcode, v, rest, hget, itemOf_eq_data.mpr ⟨hle, rfl⟩, rfl⟩

/-! ## Templates -/

def keyItems (keys : List (valtype × valtype)) : List ScriptItem :=
  (pairValues keys).map .data

def KeySizes (key : valtype × valtype) : Prop :=
  IsPubKeySize key.1 = true ∧ key.2.length = ML_DSA_65_PUBKEY_SIZE

def HybridTemplate (solutions : List valtype) (items : List ScriptItem) : txnouttype → Prop
  | TX_HYBRID_PUBKEY => ∃ key, KeySizes key ∧ solutions = [key.1, key.2] ∧
    items = [.data key.1, .data key.2, .code OP_CHECKHYBRIDSIG]
  | TX_HYBRID_PUBKEYHASH => ∃ hash, hash.length = 20 ∧ solutions = [hash] ∧
    items = [.code OP_DUPHYBRID, .code OP_HASHHYBRID160, .data hash, .code OP_EQUALVERIFY,
      .code OP_CHECKHYBRIDSIG]
  | TX_HYBRID_MULTISIG => ∃ m keys, 1 ≤ m ∧ m ≤ keys.length ∧ keys.length ≤ 16 ∧
    (∀ key ∈ keys, KeySizes key) ∧
    solutions = [UInt8.ofNat m] :: (pairValues keys ++ [[UInt8.ofNat keys.length]]) ∧
    items = .code (EncodeOP_N m) :: (keyItems keys ++
      [.code (EncodeOP_N keys.length), .code OP_CHECKMULTIHYBRIDSIG])
  | _ => False

/-- `Solver` finds each hybrid form with its solutions exactly where the template is. -/
def TemplatesExact (script : CScript) : Prop :=
  ∀ type ∈ [TX_HYBRID_PUBKEY, TX_HYBRID_PUBKEYHASH, TX_HYBRID_MULTISIG], ∀ solutions,
    Solver script = some (type, solutions) ↔
      ∃ items, Itemized script items ∧ HybridTemplate solutions items type

theorem solveHybridPubKey_eq_some :
    solveHybridPubKey script = some solutions ↔ ∃ ecdsaPub opcode mldsaPub,
      IsPubKeySize ecdsaPub = true ∧ solutions = [ecdsaPub, mldsaPub] ∧
      (¬ opcode ≤ OP_PUSHDATA4 → mldsaPub = []) ∧
      Itemized script [.data ecdsaPub, itemOf opcode mldsaPub, .code OP_CHECKHYBRIDSIG] := by
  constructor
  · intro h
    unfold solveHybridPubKey at h
    split at h
    · cases h
    · next op1 ecdsaPub pc1 hget1 =>
      split at h
      · cases h
      · next op2 mldsaPub pc2 hget2 =>
        split at h
        · cases h
        · next op3 vch pc3 hget3 =>
          split_ifs at h with hall
          cases h
          obtain ⟨rfl, rfl, hsize⟩ := hall
          have hplain : op1 ≤ OP_PUSHDATA4 := by
            by_contra hnot
            exact (isPubKeySize_bounds hsize).1 (eq_cons_of_GetOp hget1 hnot).2
          refine ⟨ecdsaPub, op2, mldsaPub, hsize, rfl, fun hnot => (eq_cons_of_GetOp hget2 hnot).2,
            op1, ecdsaPub, pc1, hget1, itemOf_eq_data.mpr ⟨hplain, rfl⟩, op2, mldsaPub, pc2, hget2,
            rfl, _, vch, [], hget3, ?_, rfl⟩
          exact itemOf_eq_code.mpr ⟨by decide, rfl⟩
  · rintro ⟨ecdsaPub, opcode, mldsaPub, hsize, rfl, hcode, op1, vch1, pc1, hget1, hitem1, op2, vch2,
      pc2, hget2, hitem2, op3, vch3, pc3, hget3, hitem3, hend⟩
    obtain ⟨-, rfl⟩ := itemOf_eq_data.mp hitem1
    obtain ⟨-, rfl⟩ := itemOf_eq_code.mp hitem3
    obtain rfl : pc3 = [] := hend
    have hmldsa : vch2 = mldsaPub := by
      by_cases hplain : opcode ≤ OP_PUSHDATA4
      · have hdata : itemOf opcode mldsaPub = .data mldsaPub := itemOf_eq_data.mpr ⟨hplain, rfl⟩
        rw [hdata] at hitem2
        exact (itemOf_eq_data.mp hitem2).2
      · have hop : itemOf opcode mldsaPub = .code opcode := itemOf_eq_code.mpr ⟨hplain, rfl⟩
        rw [hop] at hitem2
        rw [hcode hplain]
        exact (eq_cons_of_GetOp hget2 (itemOf_eq_code.mp hitem2).1).2
    rw [solveHybridPubKey, hget1]
    dsimp only
    rw [hget2]
    dsimp only
    rw [hget3]
    dsimp only
    rw [if_pos ⟨rfl, rfl, hsize⟩, hmldsa]

theorem solveHybridPubKeyHash_eq_some :
    solveHybridPubKeyHash script = some solutions ↔
      ∃ items, Itemized script items ∧ HybridTemplate solutions items TX_HYBRID_PUBKEYHASH := by
  have hdup : ¬ OP_DUPHYBRID ≤ OP_PUSHDATA4 := by decide
  have hhash : ¬ OP_HASHHYBRID160 ≤ OP_PUSHDATA4 := by decide
  have hverify : ¬ OP_EQUALVERIFY ≤ OP_PUSHDATA4 := by decide
  have hsig : ¬ OP_CHECKHYBRIDSIG ≤ OP_PUSHDATA4 := by decide
  constructor
  · intro h
    simp only [solveHybridPubKeyHash, bind_eq_bind, bind_eq_some_iff,
      expectOp_eq_some hdup, expectOp_eq_some hhash] at h
    obtain ⟨_, rfl, _, rfl, ⟨opcode, hash, pc⟩, hget, h⟩ := h
    split_ifs at h with hlength
    simp only [bind_eq_some_iff, expectOp_eq_some hverify, expectOp_eq_some hsig] at h
    obtain ⟨_, rfl, _, rfl, h⟩ := h
    split_ifs at h with hnil
    cases h
    subst hnil
    have hplain : opcode ≤ OP_PUSHDATA4 := by
      by_contra hnot
      rw [(eq_cons_of_GetOp hget hnot).2] at hlength
      cases hlength
    refine ⟨_, ?_, hash, hlength, rfl, rfl⟩
    refine (itemsTo_code hdup).mpr ⟨_, rfl, (itemsTo_code hhash).mpr ⟨_, rfl, opcode, hash, _, hget,
      itemOf_eq_data.mpr ⟨hplain, rfl⟩, ?_⟩⟩
    exact (itemsTo_code hverify).mpr ⟨_, rfl, (itemsTo_code hsig).mpr ⟨_, rfl, rfl⟩⟩
  · rintro ⟨_, hitems, hash, hlength, rfl, rfl⟩
    obtain ⟨_, rfl, hitems₁⟩ := (itemsTo_code hdup).mp hitems
    obtain ⟨_, rfl, opcode, vch, _, hget, hitem, hitems₂⟩ := (itemsTo_code hhash).mp hitems₁
    obtain ⟨-, rfl⟩ := itemOf_eq_data.mp hitem
    obtain ⟨_, rfl, hitems₃⟩ := (itemsTo_code hverify).mp hitems₂
    obtain ⟨_, rfl, rfl⟩ := (itemsTo_code hsig).mp hitems₃
    simp only [solveHybridPubKeyHash, (expectOp_eq_some hdup).mpr rfl,
      (expectOp_eq_some hhash).mpr rfl, hget, hlength, bind_eq_bind, bind_some,
      if_true, (expectOp_eq_some hverify).mpr rfl, (expectOp_eq_some hsig).mpr rfl]

/-! ## Key pairs -/

theorem encodeOP_N_spec {n : ℕ} (hlow : 1 ≤ n) (hhigh : n ≤ 16) :
    OP_1 ≤ EncodeOP_N n ∧ EncodeOP_N n ≤ OP_16 ∧ DecodeOP_N (EncodeOP_N n) = n := by
  interval_cases n <;> decide

theorem encodeOP_N_decodeOP_N (hlow : OP_1 ≤ opcode) (hhigh : opcode ≤ OP_16) :
    EncodeOP_N (DecodeOP_N opcode) = opcode := by
  obtain ⟨k, hk, hnat, hdecode⟩ := toNat_number hlow hhigh
  have hop : opcode = UInt8.ofNat (OP_1.toNat + k) := by
    rw [← hnat, UInt8.ofNat_toNat]
  rw [hop]
  interval_cases k <;> decide

theorem itemsTo_of_hybridKeyPairs {values : List valtype}
    (h : hybridKeyPairs fuel pc = some (values, opcode, rest)) :
    ∃ keys, values = pairValues keys ∧ (∀ key ∈ keys, KeySizes key) ∧ OP_1 ≤ opcode ∧
      opcode ≤ OP_16 ∧ ItemsTo pc (keyItems keys ++ [.code opcode]) rest := by
  induction fuel generalizing pc values with
  | zero => cases h
  | succ fuel ih =>
    unfold hybridKeyPairs at h
    split at h
    · cases h
    · next opEC vchEC pcEC hec =>
      have hdata : ∀ {op : opcodetype} {v : valtype} {pc pc' : CScript},
          GetOp pc = some (op, v, pc') → v ≠ [] → itemOf op v = .data v := by
        intro op v pc pc' hget hne
        refine itemOf_eq_data.mpr ⟨?_, rfl⟩
        by_contra hnot
        exact hne (eq_cons_of_GetOp hget hnot).2
      split_ifs at h with hsize hnumber
      · split at h
        · cases h
        · next opML vchML pcML hml =>
          split_ifs at h with hlength
          split at h
          · cases h
          · next values' opcode' pc' hmore =>
            cases h
            obtain ⟨keys, rfl, hsizes, hlow, hhigh, hitems⟩ := ih hmore
            have hne : vchML ≠ [] := by
              rintro rfl
              cases hlength
            refine ⟨(vchEC, vchML) :: keys, rfl, ?_, hlow, hhigh, opEC, vchEC, pcEC, hec,
              hdata hec (isPubKeySize_bounds hsize).1, opML, vchML, pcML, hml, hdata hml hne,
              hitems⟩
            exact forall_mem_cons.mpr ⟨⟨hsize, hlength⟩, hsizes⟩
      · cases h
        refine ⟨[], rfl, by simp, hnumber.1, hnumber.2, _, _, _, hec, ?_, rfl⟩
        exact itemOf_eq_code.mpr ⟨number_not_plain hnumber.1, rfl⟩

theorem hybridKeyPairs_of_itemsTo {keys : List (valtype × valtype)}
    (hsizes : ∀ key ∈ keys, KeySizes key) (hlow : OP_1 ≤ opcode) (hhigh : opcode ≤ OP_16)
    (h : ItemsTo pc (keyItems keys ++ [.code opcode]) rest) (hfuel : keys.length < fuel)
    :
    hybridKeyPairs fuel pc = some (pairValues keys, opcode, rest) := by
  obtain ⟨fuel, rfl⟩ := Nat.exists_eq_succ_of_ne_zero (Nat.ne_of_gt (Nat.zero_lt_of_lt hfuel))
  induction keys generalizing pc fuel with
  | nil =>
    obtain ⟨op, vch, pc', hget, hitem, hend⟩ := h
    obtain ⟨hnot, rfl⟩ := itemOf_eq_code.mp hitem
    obtain rfl : pc' = rest := hend
    have hnosize : ¬ IsPubKeySize vch = true := fun hsize =>
      (isPubKeySize_bounds hsize).1 (eq_cons_of_GetOp hget hnot).2
    rw [hybridKeyPairs, hget]
    dsimp only
    rw [if_neg hnosize, if_pos ⟨hlow, hhigh⟩]
    rfl
  | cons key keys ih =>
    obtain ⟨hkey, hkeys⟩ := forall_mem_cons.mp hsizes
    obtain ⟨opEC, vchEC, pcEC, hec, hitemEC, opML, vchML, pcML, hml, hitemML, hmore⟩ := h
    obtain ⟨-, rfl⟩ := itemOf_eq_data.mp hitemEC
    obtain ⟨-, rfl⟩ := itemOf_eq_data.mp hitemML
    rw [length_cons, Nat.succ_lt_succ_iff] at hfuel
    obtain ⟨fuel, rfl⟩ := Nat.exists_eq_succ_of_ne_zero (Nat.ne_of_gt (Nat.zero_lt_of_lt hfuel))
    rw [hybridKeyPairs, hec]
    dsimp only
    rw [if_pos hkey.1, hml]
    dsimp only
    rw [if_pos hkey.2, ih hkeys hmore fuel hfuel]
    rfl

theorem solveHybridMultisig_eq_some :
    solveHybridMultisig script = some solutions ↔
      ∃ items, Itemized script items ∧ HybridTemplate solutions items TX_HYBRID_MULTISIG := by
  have hmultisig : ¬ OP_CHECKMULTIHYBRIDSIG ≤ OP_PUSHDATA4 := by decide
  constructor
  · intro h
    unfold solveHybridMultisig at h
    split at h
    · cases h
    · next opM vchM pc hget =>
      split_ifs at h with hopM
      dsimp only at h
      split at h
      · cases h
      · next values opN rest hkeys =>
        split_ifs at h with hcounts
        cases h
        obtain ⟨-, -, hhalf, hlast, hpos, hle⟩ := hcounts
        obtain ⟨keys, rfl, hsizes, hlow, hhigh, hitems⟩ := itemsTo_of_hybridKeyPairs hkeys
        obtain rfl := (expectOp_eq_some hmultisig).mp hlast
        have hnumber : OP_1 ≤ opM ∧ opM ≤ OP_16 := by
          rcases hopM with rfl | hnumber
          · exact absurd hpos (by decide)
          · exact hnumber
        have hlength : keys.length = DecodeOP_N opN := by
          rw [length_pairValues] at hhalf
          omega
        refine ⟨_, ?_, DecodeOP_N opM, keys, hpos, hlength ▸ hle,
          hlength ▸ decodeOP_N_le hlow hhigh, hsizes, by rw [hlength]; rfl, rfl⟩
        rw [hlength, encodeOP_N_decodeOP_N hlow hhigh, encodeOP_N_decodeOP_N hnumber.1 hnumber.2]
        refine ⟨opM, vchM, pc, hget, itemOf_eq_code.mpr ⟨number_not_plain hnumber.1, rfl⟩, ?_⟩
        have hend : ItemsTo [OP_CHECKMULTIHYBRIDSIG] [.code OP_CHECKMULTIHYBRIDSIG] [] :=
          (itemsTo_code hmultisig).mpr ⟨[], rfl, rfl⟩
        have happend := itemsTo_append.mpr ⟨_, hitems, hend⟩
        rwa [append_assoc] at happend
  · rintro ⟨_, hitems, m, keys, hpos, hle, hsmall, hsizes, rfl, rfl⟩
    obtain ⟨hlowM, hhighM, hdecodeM⟩ := encodeOP_N_spec hpos (hle.trans hsmall)
    obtain ⟨hlowN, hhighN, hdecodeN⟩ := encodeOP_N_spec (hpos.trans hle) hsmall
    obtain ⟨opM, vchM, pc, hget, hitemM, hmore⟩ := hitems
    obtain ⟨-, rfl⟩ := itemOf_eq_code.mp hitemM
    have hsplit : keyItems keys ++ [.code (EncodeOP_N keys.length), .code OP_CHECKMULTIHYBRIDSIG] =
        (keyItems keys ++ [.code (EncodeOP_N keys.length)]) ++ [.code OP_CHECKMULTIHYBRIDSIG] := by
      simp
    rw [hsplit, itemsTo_append] at hmore
    obtain ⟨rest, hpairs, hend⟩ := hmore
    obtain ⟨_, rfl, rfl⟩ := (itemsTo_code hmultisig).mp hend
    have hfuel : keys.length < pc.length := by
      have hlength := hpairs.length
      have hcount := length_pairValues keys
      simp only [length_append, length_cons, length_nil, keyItems, length_map] at hlength
      omega
    have hopM : EncodeOP_N m = OP_0 ∨ (OP_1 ≤ EncodeOP_N m ∧ EncodeOP_N m ≤ OP_16) :=
      Or.inr ⟨hlowM, hhighM⟩
    have hlast : expectOp OP_CHECKMULTIHYBRIDSIG [OP_CHECKMULTIHYBRIDSIG] = some [] :=
      (expectOp_eq_some hmultisig).mpr rfl
    have hcount := length_pairValues keys
    simp only [solveHybridMultisig, hget, if_pos hopM,
      hybridKeyPairs_of_itemsTo hsizes hlowN hhighN hpairs hfuel, hdecodeM, hdecodeN, hlast]
    rw [if_pos ⟨by omega, by omega, by omega, trivial, hpos, hle⟩, cons_append]

/-! ## The three forms -/

theorem Solver_hybridPubKey_iff :
    Solver script = some (TX_HYBRID_PUBKEY, solutions) ↔
      solveHybridPubKey script = some solutions := by
  unfold Solver
  constructor
  · intro h
    repeat' split at h
    all_goals first | cases h; assumption | cases h
  · intro h
    rw [h]

theorem solveHybridPubKey_eq_none (h : Itemized script (.code op :: items)) :
    solveHybridPubKey script = none := by
  rw [eq_none_iff_forall_ne_some]
  intro solutions hsome
  obtain ⟨ecdsaPub, opcode, mldsaPub, -, -, -, hitems⟩ := solveHybridPubKey_eq_some.mp hsome
  cases h.unique hitems

theorem Solver_hybridPubKeyHash_iff :
    Solver script = some (TX_HYBRID_PUBKEYHASH, solutions) ↔
      solveHybridPubKeyHash script = some solutions := by
  constructor
  · intro h
    unfold Solver at h
    repeat' split at h
    all_goals first | cases h; assumption | cases h
  · intro h
    obtain ⟨_, hitems, hash, -, -, rfl⟩ := solveHybridPubKeyHash_eq_some.mp h
    rw [Solver, solveHybridPubKey_eq_none hitems, h]

theorem Solver_hybridMultisig_iff :
    Solver script = some (TX_HYBRID_MULTISIG, solutions) ↔
      solveHybridMultisig script = some solutions := by
  constructor
  · intro h
    unfold Solver at h
    repeat' split at h
    all_goals first | cases h; assumption | cases h
  · intro h
    obtain ⟨_, hitems, m, keys, hpos, hle, hsmall, -, -, rfl⟩ := solveHybridMultisig_eq_some.mp h
    have hhash : solveHybridPubKeyHash script = none := by
      rw [eq_none_iff_forall_ne_some]
      intro solutions hsome
      obtain ⟨_, hitems', _, -, -, rfl⟩ := solveHybridPubKeyHash_eq_some.mp hsome
      have hsame := hitems.unique hitems'
      rw [cons.injEq, ScriptItem.code.injEq] at hsame
      have hhigh := (encodeOP_N_spec hpos (hle.trans hsmall)).2.1
      rw [hsame.1] at hhigh
      exact absurd hhigh (by decide)
    rw [Solver, solveHybridPubKey_eq_none hitems, hhash, h]

theorem Itemized.solve {ecdsaPub : valtype} {item : ScriptItem}
    (hsize : IsPubKeySize ecdsaPub = true)
    (h : Itemized script [.data ecdsaPub, item, .code OP_CHECKHYBRIDSIG]) :
    ∃ opcode mldsaPub, itemOf opcode mldsaPub = item ∧
      solveHybridPubKey script = some [ecdsaPub, mldsaPub] := by
  obtain ⟨_, _, _, _, _, opcode, mldsaPub, _, hget, hitem, _⟩ := id h
  refine ⟨opcode, mldsaPub, hitem, solveHybridPubKey_eq_some.mpr ⟨ecdsaPub, opcode, mldsaPub, hsize,
    rfl, fun hnot => (eq_cons_of_GetOp hget hnot).2, ?_⟩⟩
  rwa [hitem]

/-- The templates are recognised exactly, unless a script pushes an EC key and something else than
an ML-DSA key before `OP_CHECKHYBRIDSIG`. -/
theorem templatesExact_iff (script : CScript) :
    TemplatesExact script ↔ ∀ ecdsaPub item, IsPubKeySize ecdsaPub = true →
      Itemized script [.data ecdsaPub, item, .code OP_CHECKHYBRIDSIG] →
        ∃ mldsaPub, item = .data mldsaPub ∧ mldsaPub.length = ML_DSA_65_PUBKEY_SIZE := by
  constructor
  · intro h ecdsaPub item hsize hitems
    obtain ⟨opcode, mldsaPub, -, hsolve⟩ := hitems.solve hsize
    obtain ⟨_, hitems', key, hkey, -, rfl⟩ :=
      (h TX_HYBRID_PUBKEY (by simp) _).mp (Solver_hybridPubKey_iff.mpr hsolve)
    have hsame := hitems.unique hitems'
    simp only [cons.injEq, and_true] at hsame
    exact ⟨key.2, hsame.2, hkey.2⟩
  · intro h type htype solutions
    simp only [mem_cons, not_mem_nil, or_false] at htype
    rcases htype with rfl | rfl | rfl
    · rw [Solver_hybridPubKey_iff]
      constructor
      · intro hsolve
        obtain ⟨ecdsaPub, opcode, mldsaPub, hsize, rfl, -, hitems⟩ :=
          solveHybridPubKey_eq_some.mp hsolve
        obtain ⟨vch, hitem, hlength⟩ := h _ _ hsize hitems
        obtain ⟨-, rfl⟩ := itemOf_eq_data.mp hitem
        rw [hitem] at hitems
        exact ⟨_, hitems, (ecdsaPub, mldsaPub), ⟨hsize, hlength⟩, rfl, rfl⟩
      · rintro ⟨_, hitems, key, hkey, rfl, rfl⟩
        obtain ⟨opcode, mldsaPub, hitem, hsolve⟩ := hitems.solve hkey.1
        rwa [(itemOf_eq_data.mp hitem).2] at hsolve
    · rw [Solver_hybridPubKeyHash_iff, solveHybridPubKeyHash_eq_some]
    · rw [Solver_hybridMultisig_iff, solveHybridMultisig_eq_some]

/-! ## Scripts that the node makes -/

theorem itemsTo_keys (keys : List CHybridPubKey) (hvalid : ∀ key ∈ keys, key.IsValid = true)
    (rest : CScript) :
    ItemsTo ((keys.flatMap fun key => pushData key.ecdsaPubKey ++ pushData key.mldsaPubKey) ++ rest)
      (keyItems (keys.map fun key => (key.ecdsaPubKey, key.mldsaPubKey))) rest := by
  induction keys with
  | nil => rfl
  | cons key keys ih =>
    obtain ⟨hkey, hkeys⟩ := forall_mem_cons.mp hvalid
    unfold CHybridPubKey.IsValid at hkey
    simp only [Bool.and_eq_true, decide_eq_true_eq] at hkey
    rw [flatMap_cons, append_assoc, append_assoc, map_cons]
    exact itemsTo_append.mpr ⟨_, itemsTo_pushData (by omega) _,
      itemsTo_append.mpr ⟨_, itemsTo_pushData (by omega) _, ih hkeys⟩⟩

theorem Solver_GetScriptForHybridMultisig {nRequired : ℤ} {keys : List CHybridPubKey}
    (hne : GetScriptForHybridMultisig nRequired keys ≠ []) :
    Solver (GetScriptForHybridMultisig nRequired keys) = some (TX_HYBRID_MULTISIG,
      [UInt8.ofNat nRequired.toNat] ::
        (pairValues (keys.map fun key => (key.ecdsaPubKey, key.mldsaPubKey)) ++
          [[UInt8.ofNat keys.length]])) := by
  unfold GetScriptForHybridMultisig at hne ⊢
  split_ifs at hne ⊢ with hrequired hcount hmore hvalid
  · exact absurd rfl hne
  · exact absurd rfl hne
  · exact absurd rfl hne
  · exact absurd rfl hne
  have hkeys : ∀ key ∈ keys, key.IsValid = true := by simpa using hvalid
  have hpos : 1 ≤ nRequired.toNat := by omega
  have hle : nRequired.toNat ≤ keys.length := by omega
  have hsmall : keys.length ≤ 16 := by omega
  have hnumber : ∀ n, 1 ≤ n → n ≤ 16 → ¬ EncodeOP_N n ≤ OP_PUSHDATA4 := fun n hlow hhigh =>
    number_not_plain (encodeOP_N_spec hlow hhigh).1
  rw [Solver_hybridMultisig_iff, solveHybridMultisig_eq_some]
  refine ⟨_, ?_, nRequired.toNat, keys.map fun key => (key.ecdsaPubKey, key.mldsaPubKey), hpos,
    by simpa using hle, by simpa using hsmall, ?_, by simp, rfl⟩
  · rw [length_map]
    refine (itemsTo_code (hnumber _ hpos (by omega))).mpr ⟨_, rfl, itemsTo_append.mpr
      ⟨_, itemsTo_keys keys hkeys _, (itemsTo_code (hnumber _ (by omega) hsmall)).mpr ⟨_, rfl, ?_⟩⟩⟩
    exact (itemsTo_code (by decide)).mpr ⟨[], rfl, rfl⟩
  · intro pair hpair
    obtain ⟨key, hkey, rfl⟩ := mem_map.mp hpair
    have hsizes := hkeys key hkey
    unfold CHybridPubKey.IsValid at hsizes
    simp only [Bool.and_eq_true, decide_eq_true_eq] at hsizes
    simp [KeySizes, IsPubKeySize, hsizes, ML_DSA_65_PUBKEY_SIZE]

/-- What the node makes for hybrid keys is recognised with these keys, and the templates are
recognised exactly but for the size of the ML-DSA half of a single key. -/
theorem hybridTemplates_exact_iff (script : CScript) (nRequired : ℤ) (keys : List CHybridPubKey)
    (hash : uint160) :
    (TemplatesExact script ↔ ∀ ecdsaPub item, IsPubKeySize ecdsaPub = true →
      Itemized script [.data ecdsaPub, item, .code OP_CHECKHYBRIDSIG] →
        ∃ mldsaPub, item = .data mldsaPub ∧ mldsaPub.length = ML_DSA_65_PUBKEY_SIZE) ∧
    (GetScriptForHybridMultisig nRequired keys ≠ [] →
      Solver (GetScriptForHybridMultisig nRequired keys) = some (TX_HYBRID_MULTISIG,
        [UInt8.ofNat nRequired.toNat] ::
          (pairValues (keys.map fun key => (key.ecdsaPubKey, key.mldsaPubKey)) ++
            [[UInt8.ofNat keys.length]]))) ∧
    Solver (GetScriptForHybridPubKeyHash hash) =
      some (TX_HYBRID_PUBKEYHASH, [toLittleEndian 20 hash]) := by
  have hlength := length_toLittleEndian 20 hash
  refine ⟨templatesExact_iff script, Solver_GetScriptForHybridMultisig, ?_⟩
  rw [GetScriptForHybridPubKeyHash]
  exact Solver_hybridKeyHash hlength

/-- An EC key, an empty push and the opcode. -/
def withoutMLDSA : CScript := pushData (replicate 33 2) ++ [OP_0, OP_CHECKHYBRIDSIG]

theorem withoutMLDSA_not_exact : ¬ TemplatesExact withoutMLDSA := by
  intro h
  have hsolver : Solver withoutMLDSA = some (TX_HYBRID_PUBKEY, [replicate 33 2, []]) := by
    decide
  obtain ⟨_, -, key, hkey, hsolutions, -⟩ := (h TX_HYBRID_PUBKEY (by simp) _).mp hsolver
  rw [cons.injEq, cons.injEq] at hsolutions
  have hlength := hkey.2
  rw [← hsolutions.2.1] at hlength
  cases hlength

/-! ## Addresses -/

/-- `ExtractDestination` finds an address exactly where `ExtractDestinations` finds it alone. -/
def DestinationsAgree (D : Digests) (script : CScript) : Prop :=
  ∀ address, ExtractDestination D script = some address ↔
    ∃ type, type ≠ TX_MULTISIG ∧ ExtractDestinations D script = some (type, [address], 1)

theorem destinationsAgree_iff (D : Digests) (script : CScript) :
    DestinationsAgree D script ↔
      ∀ solutions, Solver script ≠ some (TX_HYBRID_PUBKEY, solutions) := by
  unfold DestinationsAgree ExtractDestination ExtractDestinations
  cases hsolver : Solver script with
  | none => simp
  | some found =>
    obtain ⟨type, solutions⟩ := found
    cases type with
    | TX_HYBRID_PUBKEY =>
      obtain ⟨_, _, _, -, rfl, -⟩ :=
        solveHybridPubKey_eq_some.mp (Solver_hybridPubKey_iff.mp hsolver)
      simp
    | TX_HYBRID_PUBKEYHASH =>
      obtain ⟨_, -, _, -, rfl, -⟩ :=
        solveHybridPubKeyHash_eq_some.mp (Solver_hybridPubKeyHash_iff.mp hsolver)
      simp
    | TX_PUBKEY => cases solutions <;> simp
    | TX_PUBKEYHASH => cases solutions <;> simp
    | TX_SCRIPTHASH => cases solutions <;> simp
    | TX_MULTISIG => cases solutions <;> simp
    | TX_NONSTANDARD => simp
    | TX_HYBRID_MULTISIG => simp

section Payments

variable (C : KeyCrypto) (w : HybridWallet)

/-- A script that pays a hybrid key, alone or with others, itself or through a script hash. -/
inductive PaysHybridKey : CScript → CHybridKeyID → Prop where
  | pubKey {script : CScript} {ecdsaPub mldsaPub : valtype}
      (h : Solver script = some (TX_HYBRID_PUBKEY, [ecdsaPub, mldsaPub])) :
      PaysHybridKey script (C.Hash160 (ecdsaPub ++ mldsaPub))
  | pubKeyHash {script : CScript} {hash : valtype}
      (h : Solver script = some (TX_HYBRID_PUBKEYHASH, [hash])) :
      PaysHybridKey script (uint160OfBytes hash)
  | multisig {script : CScript} {vchM vchN : valtype} {keys : List (valtype × valtype)}
      {key : valtype × valtype}
      (h : Solver script = some (TX_HYBRID_MULTISIG, vchM :: (pairValues keys ++ [vchN])))
      (hkey : key ∈ keys) : PaysHybridKey script (C.Hash160 (key.1 ++ key.2))
  | scriptHash {script subscript : CScript} {hash : valtype} {hybridID : CHybridKeyID}
      (h : Solver script = some (TX_SCRIPTHASH, [hash]))
      (hsubscript : w.GetCScript (uint160OfBytes hash) = some subscript)
      (hpays : PaysHybridKey subscript hybridID) : PaysHybridKey script hybridID

/-- `IsMine` accepts a script that pays a hybrid key of the wallet. -/
def AcceptedFor (script : CScript) (hybridID : CHybridKeyID) : Prop :=
  PaysHybridKey C w script hybridID ∧ w.HaveHybridKeyByHash hybridID = true ∧
    ∃ mine, w.IsMine C script = some mine ∧ mine ≠ .MINE_NO

/-- The wallet with the same keys and with these transactions, used keys and labels. -/
def withUses (mapWallet : Table uint256 CTransaction) (used : Finset CHybridKeyID)
    (labels : Table CHybridKeyID CHybridAddressEntry) : HybridWallet :=
  { w with mapWallet := mapWallet, setUsedHybridKeys := used, mapHybridAddressBook := labels }

/-- Whatever else the wallet holds, the scan records the key as used where a transaction of the
wallet has an output with the script. -/
def MarksUsed (script : CScript) (hybridID : CHybridKeyID) : Prop :=
  ∀ (o : WalletDbOutcome) (mapWallet : Table uint256 CTransaction) (used : Finset CHybridKeyID)
    (labels : Table CHybridKeyID CHybridAddressEntry) (hash : uint256) (tx : CTransaction),
    mapWallet.lookup hash = some tx → script ∈ tx.vout.map CTxOut.scriptPubKey →
      hybridID ∈ ((withUses w mapWallet used labels).BackfillHybridUsedKeys C o).setUsedHybridKeys

theorem mem_walletOutputs {txout : CTxOut} :
    txout ∈ w.walletOutputs ↔ ∃ hash tx, w.mapWallet.lookup hash = some tx ∧ txout ∈ tx.vout := by
  rw [HybridWallet.walletOutputs, mem_flatMap]
  constructor
  · rintro ⟨hash, hhash, hmem⟩
    cases hlookup : w.mapWallet.lookup hash with
    | none =>
      rw [hlookup] at hmem
      cases hmem
    | some tx =>
      rw [hlookup] at hmem
      exact ⟨hash, tx, hlookup, hmem⟩
  · rintro ⟨hash, tx, hlookup, hmem⟩
    refine ⟨hash, Table.mem_sortedKeys.mpr (isSome_iff_exists.mpr ⟨tx, hlookup⟩), ?_⟩
    rw [hlookup]
    exact hmem

/-- The scan looks at the output alone. -/
theorem marksUsed_iff {script : CScript} {hybridID : CHybridKeyID} :
    MarksUsed C w script hybridID ↔
      ∀ nValue, w.backfilledBy C ⟨nValue, script⟩ = some hybridID := by
  constructor
  · intro h nValue
    -- a wallet with this output only and nothing recorded
    have hlookup : (Finmap.insert 0 ⟨1, [], [⟨nValue, script⟩], 0⟩ ∅ :
        Table uint256 CTransaction).lookup 0 = some ⟨1, [], [⟨nValue, script⟩], 0⟩ :=
      Finmap.lookup_insert _
    have hmarked := h {} _ ∅ ∅ 0 _ hlookup (by simp)
    rcases Finset.mem_union.mp hmarked with hbefore | hscan
    · rcases Finset.mem_union.mp hbefore with hused | hlabel
      · exact absurd hused (Finset.notMem_empty hybridID)
      · exact absurd (Finmap.mem_keys.mp hlabel) Finmap.notMem_empty
    · obtain ⟨txout, hmem, hfound⟩ := mem_filterMap.mp (mem_toFinset.mp hscan)
      obtain ⟨hash, tx, htx, hout⟩ := (mem_walletOutputs _).mp hmem
      rw [withUses, Table.lookup_insert_ite] at htx
      split_ifs at htx
      · cases htx
        rw [mem_singleton.mp hout] at hfound
        exact hfound
      · cases htx
  · intro h o mapWallet used labels hash tx hlookup hscript
    obtain ⟨txout, hmem, rfl⟩ := mem_map.mp hscript
    exact Finset.mem_union_right _ (mem_toFinset.mpr (mem_filterMap.mpr
      ⟨txout, (mem_walletOutputs _).mpr ⟨hash, tx, hlookup, hmem⟩, h txout.nValue⟩))

/-- The addresses agree, and payments to hybrid keys are recorded as uses, for every script but the
one that names a hybrid key in full; a payment through a multisig or a script hash is not. -/
theorem destinationsAgree_and_marked_iff (script : CScript) :
    (DestinationsAgree C.toDigests script ∧ ∀ hybridID, AcceptedFor C w script hybridID →
      MarksUsed C w script hybridID) ↔
    (∀ solutions, Solver script ≠ some (TX_HYBRID_PUBKEY, solutions)) ∧
      ∀ hybridID, AcceptedFor C w script hybridID →
        ∃ hash, Solver script = some (TX_HYBRID_PUBKEYHASH, [hash]) := by
  rw [destinationsAgree_iff]
  refine and_congr_right fun hpubKey => forall₂_congr fun hybridID haccepted => ?_
  obtain ⟨hpays, hhave, -⟩ := haccepted
  rw [marksUsed_iff]
  cases hpays with
  | pubKey h => exact absurd h (hpubKey _)
  | pubKeyHash h => simp [HybridWallet.backfilledBy, ExtractDestination, h, hhave]
  | multisig h => simp [HybridWallet.backfilledBy, ExtractDestination, h]
  | scriptHash h => simp [HybridWallet.backfilledBy, ExtractDestination, h]

end Payments

def bareHybridKey : CScript :=
  pushData (replicate 33 2) ++ (pushData (replicate 1952 7) ++ [OP_CHECKHYBRIDSIG])

theorem bareHybridKey_disagrees : ¬ DestinationsAgree exampleCrypto.toDigests bareHybridKey := by
  have hlength : (replicate 1952 (7 : UInt8)).length < 256 ^ 4 := by
    rw [length_replicate]
    decide
  have hend : ItemsTo [OP_CHECKHYBRIDSIG] [.code OP_CHECKHYBRIDSIG] [] :=
    (itemsTo_code (by decide)).mpr ⟨[], rfl, rfl⟩
  have hitems : Itemized bareHybridKey [.data (replicate 33 2), .data (replicate 1952 7),
      .code OP_CHECKHYBRIDSIG] :=
    itemsTo_append.mpr ⟨_, itemsTo_pushData (by decide) _,
      itemsTo_append.mpr ⟨_, itemsTo_pushData hlength _, hend⟩⟩
  obtain ⟨_, _, -, hsolve⟩ := hitems.solve (by decide)
  intro h
  exact (destinationsAgree_iff _ _).mp h _ (Solver_hybridPubKey_iff.mpr hsolve)

end Phoenixcoin.Analysis
