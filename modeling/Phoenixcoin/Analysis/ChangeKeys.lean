import Phoenixcoin.Analysis.CreatedTransactions
import Phoenixcoin.Analysis.HybridReissue
import Phoenixcoin.Program.ChangeKeys

/-!
# Hybrid keys that change takes

A round of the fee loop that takes a hybrid key records it as used at once, and nothing gives it
back. So the unused and the used keys come out as they should exactly where each round that takes a
key creates the transaction: no key is lost to a round that is repeated, or that fails.
-/

set_option autoImplicit false

namespace Phoenixcoin.Analysis

open Lib Program List Option HybridWallet

/-! ## One request -/

section Request

variable {C : KeyCrypto} {o : WalletDbOutcome} {w w' : HybridWallet}

theorem unused_registerPoolKey (fUnused : Bool) (w : HybridWallet) (entry : StagedHybridKey) :
    w.setUnusedHybridKeys ⊆
      (registerPoolKey C fUnused w entry).setUnusedHybridKeys := by
  unfold registerPoolKey
  dsimp only
  generalize hw₁ : (if entry.fPersistKey then
    w.addLegacyKey C entry.ecdsa entry.metadata entry.cryptedSecret else w) = w₁
  have hsame : w₁.setUnusedHybridKeys = w.setUnusedHybridKeys := by
    rw [← hw₁]
    unfold addLegacyKey
    split_ifs <;> rfl
  rw [← hsame]
  by_cases hunused : fUnused = true
  · rw [if_pos hunused]
    exact Finset.subset_insert entry.hybridID w₁.setUnusedHybridKeys
  · rw [if_neg hunused]
    exact Finset.Subset.refl w₁.setUnusedHybridKeys

/-- The keys that wait go on waiting where more are made. -/
theorem unused_EnsureHybridKeyPool {nTarget : ℕ} {fresh : ℕ → Option (FreshKey C)} {fOk : Bool}
    (h : w.EnsureHybridKeyPool C o nTarget fresh = (fOk, w')) :
    w.setUnusedHybridKeys ⊆ w'.setUnusedHybridKeys := by
  rcases EnsureHybridKeyPool_cases fresh h with rfl | ⟨-, -, hpool⟩
  · exact Finset.Subset.refl _
  · obtain ⟨staged, db, -, -, rfl⟩ := makePool_eq_some hpool
    have hregistered : ∀ (entries : List StagedHybridKey) (u : HybridWallet),
        u.setUnusedHybridKeys ⊆
          (entries.foldl (registerPoolKey C true) u).setUnusedHybridKeys := by
      intro entries
      induction entries with
      | nil => exact fun u => Finset.Subset.refl _
      | cons entry entries ih => exact fun u => (unused_registerPoolKey true u entry).trans (ih _)
    exact hregistered staged { w with db := db }

/-- What a request for a key does to the two sets, when it takes `taken` and the keys of `ids` may
be made. -/
structure Requested (ids : Set CHybridKeyID) (taken : Option CHybridKeyID) (w w' : HybridWallet) :
    Prop where
  used : w'.setUsedHybridKeys = taken.elim w.setUsedHybridKeys (insert · w.setUsedHybridKeys)
  kept : ∀ hybridID ∈ w.setUnusedHybridKeys,
    hybridID ∈ w'.setUnusedHybridKeys ∨ taken = some hybridID
  waiting : ∀ hybridID ∈ w'.setUnusedHybridKeys, hybridID ∈ w.setUnusedHybridKeys ∨ hybridID ∈ ids
  waited : ∀ hybridID, taken = some hybridID → hybridID ∈ w.setUnusedHybridKeys ∨ hybridID ∈ ids
  gone : ∀ hybridID, taken = some hybridID → hybridID ∉ w'.setUnusedHybridKeys

theorem Requested.refl (ids : Set CHybridKeyID) (w : HybridWallet) : Requested ids none w w :=
  ⟨rfl, fun _ h => Or.inl h, fun _ h => Or.inl h, nofun, nofun⟩

/-- More keys are made before the request. -/
theorem Requested.after {ids : Set CHybridKeyID} {taken : Option CHybridKeyID} {u : HybridWallet}
    (hmade : Waits ids w u) (hsub : w.setUnusedHybridKeys ⊆ u.setUnusedHybridKeys)
    (h : Requested ∅ taken u w') : Requested ids taken w w' where
  used := by rw [h.used, hmade.usage.used]
  kept hybridID hmem := h.kept hybridID (hsub hmem)
  waiting hybridID hmem :=
    (h.waiting hybridID hmem).elim (hmade.waiting hybridID) (fun hnone => hnone.elim)
  waited hybridID htaken :=
    (h.waited hybridID htaken).elim (hmade.waiting hybridID) (fun hnone => hnone.elim)
  gone := h.gone

theorem requested_allocateHybridKey (o : WalletDbOutcome) (w : HybridWallet) :
    Requested ∅ (w.allocateHybridKey o).1 w (w.allocateHybridKey o).2 := by
  have hwaited : ∀ {first}, (w.setUnusedHybridKeys.sort).head? = some first →
      first ∈ w.setUnusedHybridKeys :=
    fun hfirst => (Finset.mem_sort _).mp (mem_of_mem_head? hfirst)
  have hkept : ∀ hybridID ∈ w.setUnusedHybridKeys,
      hybridID ∈ (w.allocateHybridKey o).2.setUnusedHybridKeys ∨
        (w.allocateHybridKey o).1 = some hybridID := by
    intro hybridID hmem
    unfold allocateHybridKey
    split
    · exact Or.inl hmem
    · next first hfirst =>
      have herase : hybridID ∈ w.setUnusedHybridKeys.erase first ∨ some first = some hybridID := by
        by_cases heq : hybridID = first
        · exact Or.inr (congrArg some heq.symm)
        · exact Or.inl (Finset.mem_erase.mpr ⟨heq, hmem⟩)
      by_cases hfile : w.fFileBacked = true
      · rw [if_pos hfile]
        split
        · left
          rwa [Finset.insert_erase (hwaited hfirst)]
        · exact herase
      · rw [if_neg hfile]
        exact herase
  rcases allocateHybridKey_cases (o := o) (w := w) rfl with ⟨hnone, hwaits⟩ |
    ⟨hybridID, hsome, hissues⟩
  · rw [hnone] at hkept ⊢
    exact ⟨hwaits.usage.used, hkept, hwaits.waiting, nofun, nofun⟩
  · rw [hsome] at hkept ⊢
    refine ⟨hissues.used, hkept, ?_, ?_, ?_⟩
    · intro other hmem
      rw [hissues.waiting] at hmem
      exact Or.inl (Finset.mem_of_mem_erase hmem)
    · intro other heq
      rw [← some.inj heq]
      exact Or.inl hissues.waited
    · intro other heq
      rw [← some.inj heq, hissues.waiting]
      exact Finset.notMem_erase hybridID w.setUnusedHybridKeys

theorem requested_GetUnusedHybridKey (oPool : WalletDbOutcome) (fresh : ℕ → Option (FreshKey C)) :
    Requested (newIDs C fresh) (w.GetUnusedHybridKey C o oPool fresh).1 w
      (w.GetUnusedHybridKey C o oPool fresh).2 := by
  unfold GetUnusedHybridKey
  split_ifs
  · split
    · next u hpool =>
      have hwaits := waits_EnsureHybridKeyPool hpool
      exact ⟨hwaits.usage.used, fun _ hmem => Or.inl (unused_EnsureHybridKeyPool hpool hmem),
        hwaits.waiting, nofun, nofun⟩
    · next u hpool =>
      exact (requested_allocateHybridKey o u).after (waits_EnsureHybridKeyPool hpool)
        (unused_EnsureHybridKeyPool hpool)
  · exact (requested_allocateHybridKey o w).after (Waits.refl ..) (Finset.Subset.refl _)

end Request

/-! ## One round -/

section Round

variable {C : KeyCrypto} {env : CreateEnv} {vecSend : List (CScript × ℤ)} {r : HybridRound C}
  {nValue nFeeRet nFee : ℤ} {w : HybridWallet} {wtxNew : CTransaction} {vfChange : List Bool}

theorem requested_requestKey (r : HybridRound C) (nValue nFeeRet : ℤ) (w : HybridWallet) :
    Requested (newIDs C r.fresh) (r.requestKey env nValue nFeeRet w).1 w
      (r.requestKey env nValue nFeeRet w).2 := by
  unfold HybridRound.requestKey
  split_ifs
  · exact requested_GetUnusedHybridKey r.oPool r.fresh
  · exact Requested.refl ..

theorem requested_of_run {ends : Option FeeRound} {w' : HybridWallet}
    (hrun : r.run env vecSend nValue nFeeRet w = (ends, w')) :
    Requested (newIDs C r.fresh) (r.requestKey env nValue nFeeRet w).1 w w' := by
  rw [← show (r.requestKey env nValue nFeeRet w).2 = w' from congrArg Prod.snd hrun]
  exact requested_requestKey r nValue nFeeRet w

theorem changeDest_of_requestKey {hybridID : CHybridKeyID}
    (h : (r.requestKey env nValue nFeeRet w).1 = some hybridID) : env.changeDest = none := by
  unfold HybridRound.requestKey at h
  split at h
  · next hwants =>
    obtain ⟨_, -, hchange⟩ := (Option.any_eq_true ..).mp hwants
    exact (of_decide_eq_true hchange).2.1
  · cases h

def PaysChange (wtxNew : CTransaction) (vfChange : List Bool) (scriptPubKey : CScript) : Prop :=
  ∃ (i : ℕ) (txout : CTxOut), vfChange[i]? = some true ∧ wtxNew.vout[i]? = some txout ∧
    txout.scriptPubKey = scriptPubKey

theorem createRound_created {c : RoundChoices} (hsend : vecSend ≠ [])
    (h : createRound env c vecSend nValue nFeeRet =
      some (.finished (.created wtxNew vfChange nFee))) :
    ∃ coins nChange, roundChange env c nValue nFeeRet = some (coins, nChange) ∧
      (nChange < TX_DUST ∧ (∀ script, ¬ PaysChange wtxNew vfChange script) ∨
        TX_DUST ≤ nChange ∧ ∃ scriptChange, changeScript env c coins = .ok scriptChange ∧
          ∀ script, PaysChange wtxNew vfChange script ↔ script = scriptChange) := by
  unfold roundChange
  obtain ⟨nTotalValue, htotal, h⟩ := bind_eq_some_iff.mp h
  rw [htotal, bind_some]
  dsimp only at h ⊢
  split at h
  · cases h
  · next hselected =>
    obtain ⟨nRest, hrest, h⟩ := bind_eq_some_iff.mp h
    obtain ⟨nChange, hchange, h⟩ := bind_eq_some_iff.mp h
    rw [if_neg hselected, hrest, bind_some, hchange]
    refine ⟨_, nChange, rfl, ?_⟩
    unfold splitChange at h
    split at h
    · next hdust =>
      right
      refine ⟨hdust, ?_⟩
      split at h
      · cases h
      · next scriptChange hscript =>
        obtain ⟨rfl, -, hpaid⟩ := finishRound_spec h
        refine ⟨scriptChange, hscript, ?_⟩
        have hindex : c.GetRandInt (payees vecSend).length < (payees vecSend).length := by
          apply c.GetRandInt_lt
          rw [length_payees]
          exact length_pos_of_ne_nil hsend
        intro script
        constructor
        · rintro ⟨i, txout, hflag, hout, rfl⟩
          rw [getElem?_set] at hflag
          split at hflag
          · next heq =>
            rw [hpaid.vout, ← heq, getElem?_insertIdx_self, if_pos (by omega)] at hout
            rw [← some.inj hout]
          · rw [getElem?_replicate] at hflag
            split at hflag <;> cases hflag
        · rintro rfl
          refine ⟨_, ⟨nChange, script⟩, getElem?_set_self ?_, ?_, rfl⟩
          · rw [length_replicate]
            exact hindex.trans (Nat.lt_succ_self _)
          · rw [hpaid.vout, getElem?_insertIdx_self, if_pos (by omega)]
    · next hdust =>
      left
      refine ⟨not_le.mp hdust, ?_⟩
      obtain ⟨nFeeNext, -, h⟩ := bind_eq_some_iff.mp h
      obtain ⟨rfl, -, -⟩ := finishRound_spec h
      rintro script ⟨i, txout, hflag, -⟩
      rw [getElem?_replicate] at hflag
      split at hflag <;> cases hflag

theorem run_fst : (r.run env vecSend nValue nFeeRet w).1 =
    createRound env (r.withKeys (r.requestKey env nValue nFeeRet w).1) vecSend nValue nFeeRet := rfl

theorem run_eq {ends : Option FeeRound} (h : createRound env
      (r.withKeys (r.requestKey env nValue nFeeRet w).1) vecSend nValue nFeeRet = ends) :
    r.run env vecSend nValue nFeeRet w = (ends, (r.requestKey env nValue nFeeRet w).2) :=
  Prod.ext h rfl

/-- A round that creates the transaction pays the change to the key that it took; where it took
none, its change goes to no hybrid key of the wallet. -/
theorem run_created (hsend : vecSend ≠ [])
    (h : (r.run env vecSend nValue nFeeRet w).1 =
      some (.finished (.created wtxNew vfChange nFee))) :
    (∃ hybridID, (r.requestKey env nValue nFeeRet w).1 = some hybridID ∧
        PaysChange wtxNew vfChange (SetDestination (some (.hybridKey hybridID)))) ∨
      (r.requestKey env nValue nFeeRet w).1 = none ∧ (env.changeDest = none → ∀ hybridID,
        ¬ PaysChange wtxNew vfChange (SetDestination (some (.hybridKey hybridID)))) := by
  rw [run_fst] at h
  obtain ⟨coins, nChange, hround, hchange⟩ := createRound_created hsend h
  have hround : roundChange env r.choices nValue nFeeRet = some (coins, nChange) := hround
  have hwants : wantsHybridKey env r.choices nValue nFeeRet =
      decide (nChange ≥ TX_DUST ∧ env.changeDest = none ∧ hybridChange env.mapWallet coins) := by
    rw [wantsHybridKey, hround, any_some]
  have hnone : ¬ (nChange ≥ TX_DUST ∧ env.changeDest = none ∧ hybridChange env.mapWallet coins) →
      (r.requestKey env nValue nFeeRet w).1 = none := by
    intro hnot
    rw [HybridRound.requestKey, hwants, decide_eq_false hnot]
    rfl
  rcases hchange with ⟨hdust, hpays⟩ | ⟨hdust, scriptChange, hscript, hpays⟩
  · exact Or.inr ⟨hnone fun hall => absurd hall.1 (not_le.mpr hdust), fun _ _ => hpays _⟩
  · unfold changeScript at hscript
    cases hdest : env.changeDest with
    | some destination =>
      refine Or.inr ⟨hnone fun hall => ?_, nofun⟩
      rw [hdest] at hall
      cases hall.2.1
    | none =>
      rw [hdest] at hscript
      dsimp only at hscript
      split at hscript
      · left
        cases htaken : (r.requestKey env nValue nFeeRet w).1 with
        | none =>
          rw [htaken] at hscript
          cases hscript
        | some hybridID =>
          rw [htaken] at hscript
          exact ⟨hybridID, rfl, (hpays _).mpr (Except.ok.inj hscript)⟩
      · next hlegacy =>
        refine Or.inr ⟨hnone fun hall => hlegacy hall.2.2, ?_⟩
        intro _ hybridID hpaid
        have hbytes := ((hpays _).mp hpaid).trans (Except.ok.inj hscript).symm
        cases (List.cons.inj hbytes).1

end Round

/-! ## The call -/

/-- A generated key is one that the wallet does not know, and no other round generates it. -/
structure FreshRounds (C : KeyCrypto) (w : HybridWallet) (rounds : ℕ → HybridRound C) : Prop where
  unused : ∀ i, ∀ hybridID ∈ newIDs C (rounds i).fresh, hybridID ∉ w.setUnusedHybridKeys
  used : ∀ i, ∀ hybridID ∈ newIDs C (rounds i).fresh, hybridID ∉ w.setUsedHybridKeys
  once : ∀ i j, i ≠ j → ∀ hybridID ∈ newIDs C (rounds i).fresh, hybridID ∉ newIDs C (rounds j).fresh

def KeepsKey (w w' : HybridWallet) (hybridID : CHybridKeyID) : Prop :=
  (hybridID ∈ w.setUnusedHybridKeys → hybridID ∈ w'.setUnusedHybridKeys) ∧
    (hybridID ∈ w'.setUsedHybridKeys → hybridID ∈ w.setUsedHybridKeys)

/-- The two sets after a call that creates a transaction, or fails: at most one key is taken, and
the change output pays it; after a failure none is, and only generated keys are new. -/
def ChangeKeysKept {C : KeyCrypto} (rounds : ℕ → HybridRound C) (w w' : HybridWallet) :
    CreateResult → Prop
  | .undefined => True
  | .failed _ => w'.setUsedHybridKeys = w.setUsedHybridKeys ∧
      w.setUnusedHybridKeys ⊆ w'.setUnusedHybridKeys ∧
      ∀ hybridID ∈ w'.setUnusedHybridKeys, hybridID ∈ w.setUnusedHybridKeys ∨
        ∃ i, hybridID ∈ newIDs C (rounds i).fresh
  | .created wtxNew vfChange _ => ∃ change : Option CHybridKeyID, ∀ hybridID,
      ¬ KeepsKey w w' hybridID → change = some hybridID ∧
        PaysChange wtxNew vfChange (SetDestination (some (.hybridKey hybridID)))

def isCreated : FeeRound → Bool
  | .finished (.created _ _ _) => true
  | _ => false

/-- A round that the fee loop reaches, and the state before it. -/
structure RoundStart (C : KeyCrypto) where
  round : HybridRound C
  nValue : ℤ
  nFeeRet : ℤ
  wallet : HybridWallet

section Call

variable {C : KeyCrypto} (env : CreateEnv) (rounds : ℕ → HybridRound C)
  (vecSend : List (CScript × ℤ))

/-- `GetUnusedHybridKey` is called and gives a key. -/
def RoundStart.takesKey (s : RoundStart C) : Bool :=
  (s.round.requestKey env s.nValue s.nFeeRet s.wallet).1.isSome

/-- The inputs can be signed, the transaction is not too large, and the fee suffices. -/
def RoundStart.creates (s : RoundStart C) : Bool :=
  (s.round.run env vecSend s.nValue s.nFeeRet s.wallet).1.any isCreated

/-- The rounds that the fee loop reaches from round `i` on. -/
def reachedRounds (nValue : ℤ) : ℕ → ℕ → ℤ → HybridWallet → List (RoundStart C)
  | 0, _, _, _ => []
  | fuel + 1, i, nFeeRet, w =>
    ⟨rounds i, nValue, nFeeRet, w⟩ :: match (rounds i).run env vecSend nValue nFeeRet w with
      | (some (.again nFeeRet), w) => reachedRounds nValue fuel (i + 1) nFeeRet w
      | _ => []

def roundsOf (fuel : ℕ) (w : HybridWallet) : List (RoundStart C) :=
  match sumAmounts 0 vecSend with
  | .error _ => []
  | .ok nValue =>
    if vecSend = [] ∨ nValue < 0 then []
    else reachedRounds env rounds vecSend nValue fuel 0 env.nTransactionFee w

variable {env rounds vecSend} {w₀ w w' : HybridWallet} {i : ℕ} {hybridID : CHybridKeyID}
  {taken : Option CHybridKeyID} {nValue nFeeRet : ℤ} {result : CreateResult}

/-- Every key that waits did before the call, or was generated in a round before `i`. -/
def Waited (rounds : ℕ → HybridRound C) (i : ℕ) (w₀ w : HybridWallet) : Prop :=
  ∀ hybridID ∈ w.setUnusedHybridKeys, hybridID ∈ w₀.setUnusedHybridKeys ∨
    ∃ j, j < i ∧ hybridID ∈ newIDs C (rounds j).fresh

/-- A key was taken before round `i`, and no later round generates it. -/
structure Lost (rounds : ℕ → HybridRound C) (i : ℕ) (w₀ w : HybridWallet)
    (hybridID : CHybridKeyID) : Prop where
  known : hybridID ∈ w₀.setUnusedHybridKeys ∨ hybridID ∉ w₀.setUsedHybridKeys
  used : hybridID ∈ w.setUsedHybridKeys
  gone : hybridID ∉ w.setUnusedHybridKeys
  later : ∀ j, i ≤ j → hybridID ∉ newIDs C (rounds j).fresh

theorem Lost.not_keeps (h : Lost rounds i w₀ w hybridID) : ¬ KeepsKey w₀ w hybridID := by
  intro hkeeps
  rcases h.known with hunused | hnew
  · exact h.gone (hkeeps.1 hunused)
  · exact hnew (hkeeps.2 h.used)

theorem Waited.step (h : Waited rounds i w₀ w)
    (hstep : Requested (newIDs C (rounds i).fresh) taken w w') :
    Waited rounds (i + 1) w₀ w' := by
  intro hybridID hmem
  rcases hstep.waiting hybridID hmem with hold | hnew
  · obtain hbefore | ⟨j, hj, hmade⟩ := h hybridID hold
    · exact Or.inl hbefore
    · exact Or.inr ⟨j, by omega, hmade⟩
  · exact Or.inr ⟨i, by omega, hnew⟩

theorem Lost.step (h : Lost rounds i w₀ w hybridID)
    (hstep : Requested (newIDs C (rounds i).fresh) taken w w') :
    Lost rounds (i + 1) w₀ w' hybridID where
  known := h.known
  used := by
    rw [hstep.used]
    cases taken with
    | none => exact h.used
    | some other => exact Finset.mem_insert_of_mem h.used
  gone hmem := (hstep.waiting hybridID hmem).elim h.gone (h.later i le_rfl)
  later j hj := h.later j (by omega)

/-- The key that a round takes is lost to the later ones. -/
theorem Waited.lost (hfresh : FreshRounds C w₀ rounds) (h : Waited rounds i w₀ w)
    (hstep : Requested (newIDs C (rounds i).fresh) (some hybridID) w w') :
    Lost rounds (i + 1) w₀ w' hybridID := by
  have hcame : hybridID ∈ w₀.setUnusedHybridKeys ∨
      ∃ j, j < i + 1 ∧ hybridID ∈ newIDs C (rounds j).fresh := by
    rcases hstep.waited hybridID rfl with hold | hnew
    · obtain hbefore | ⟨j, hj, hmade⟩ := h hybridID hold
      · exact Or.inl hbefore
      · exact Or.inr ⟨j, by omega, hmade⟩
    · exact Or.inr ⟨i, by omega, hnew⟩
  refine ⟨?_, ?_, hstep.gone hybridID rfl, ?_⟩
  · rcases hcame with hunused | ⟨j, -, hmade⟩
    · exact Or.inl hunused
    · exact Or.inr (hfresh.used j hybridID hmade)
  · rw [hstep.used]
    exact Finset.mem_insert_self ..
  · intro k hk hmade
    rcases hcame with hunused | ⟨j, hj, hbefore⟩
    · exact hfresh.unused k hybridID hmade hunused
    · exact hfresh.once j k (by omega) hybridID hbefore hmade

section

variable (hsend : vecSend ≠ []) (hfresh : FreshRounds C w₀ rounds) (hdest : env.changeDest = none)
include hsend hfresh hdest

/-- A round after the loss of a key ends in a state without it. -/
theorem Lost.finished (hwaited : Waited rounds i w₀ w)
    (h : Lost rounds i w₀ w hybridID) (hdefined : result ≠ .undefined)
    (hrun : (rounds i).run env vecSend nValue nFeeRet w = (some (.finished result), w')) :
    ¬ ChangeKeysKept rounds w₀ w' result := by
  have hstep := requested_of_run hrun
  have hlost := (h.step hstep).not_keeps
  cases result with
  | undefined => exact absurd rfl hdefined
  | failed strFailReason =>
    rintro ⟨hused, hsub, -⟩
    exact hlost ⟨fun hmem => hsub hmem, fun hmem => by rwa [← hused]⟩
  | created wtxNew vfChange nFee =>
    rintro ⟨change, hchange⟩
    obtain ⟨hpaid, hpays⟩ := hchange hybridID hlost
    rcases run_created hsend (congrArg Prod.fst hrun) with ⟨other, htaken, -⟩ | ⟨-, hnot⟩
    · rw [htaken] at hstep
      have hother := (hchange other (hwaited.lost hfresh hstep).not_keeps).1
      rw [hpaid] at hother
      rw [some.inj hother] at h
      exact (hstep.waited other rfl).elim h.gone (h.later i le_rfl)
    · exact hnot hdest hybridID hpays

/-- Once a key is lost, no call ends well. -/
theorem Lost.loop (hdefined : result ≠ .undefined) {fuel : ℕ}
    (hwaited : Waited rounds i w₀ w) (h : Lost rounds i w₀ w hybridID)
    (hloop : hybridFeeLoop env rounds vecSend nValue fuel i nFeeRet w = some (result, w')) :
    ¬ ChangeKeysKept rounds w₀ w' result := by
  induction fuel generalizing i nFeeRet w with
  | zero => cases hloop
  | succ fuel ih =>
    unfold hybridFeeLoop at hloop
    split at hloop
    · cases hloop
      exact absurd rfl hdefined
    · next hrun =>
      cases hloop
      exact h.finished hsend hfresh hdest hwaited hdefined hrun
    · next nFeeNext u hrun =>
      have hstep := requested_of_run hrun
      exact ih (hwaited.step hstep) (h.step hstep) hloop

end

/-- No key was taken so far. -/
structure Untouched (rounds : ℕ → HybridRound C) (i : ℕ) (w₀ w : HybridWallet) : Prop where
  used : w.setUsedHybridKeys = w₀.setUsedHybridKeys
  kept : w₀.setUnusedHybridKeys ⊆ w.setUnusedHybridKeys
  waited : Waited rounds i w₀ w

theorem Untouched.step (h : Untouched rounds i w₀ w)
    (hstep : Requested (newIDs C (rounds i).fresh) none w w') :
    Untouched rounds (i + 1) w₀ w' where
  used := hstep.used.trans h.used
  kept := fun hybridID hmem => (hstep.kept hybridID (h.kept hmem)).resolve_right nofun
  waited := h.waited.step hstep

/-- The last round. -/
theorem Untouched.finished_iff (hsend : vecSend ≠ []) (hfresh : FreshRounds C w₀ rounds)
    (h : Untouched rounds i w₀ w) (hdefined : result ≠ .undefined)
    (hrun : (rounds i).run env vecSend nValue nFeeRet w = (some (.finished result), w')) :
    ChangeKeysKept rounds w₀ w' result ↔
      (RoundStart.takesKey env ⟨rounds i, nValue, nFeeRet, w⟩ →
        RoundStart.creates env vecSend ⟨rounds i, nValue, nFeeRet, w⟩) := by
  have hstep := requested_of_run hrun
  rw [RoundStart.takesKey, RoundStart.creates, hrun]
  cases htaken : ((rounds i).requestKey env nValue nFeeRet w).1 with
  | none =>
    rw [htaken] at hstep
    have hafter := h.step hstep
    refine iff_of_true ?_ nofun
    cases result with
    | undefined => trivial
    | failed strFailReason =>
      refine ⟨hafter.used, hafter.kept, ?_⟩
      intro hybridID hmem
      exact (hafter.waited hybridID hmem).imp_right fun ⟨j, _, hmade⟩ => ⟨j, hmade⟩
    | created wtxNew vfChange nFee =>
      refine ⟨none, ?_⟩
      intro hybridID hnot
      exact absurd ⟨fun hmem => hafter.kept hmem, fun hmem => by rwa [← hafter.used]⟩ hnot
  | some hybridID =>
    rw [htaken] at hstep
    cases result with
    | undefined => exact absurd rfl hdefined
    | failed strFailReason =>
      refine iff_of_false ?_ fun himp => absurd (himp rfl) Bool.false_ne_true
      rintro ⟨hused, hsub, -⟩
      exact (h.waited.lost hfresh hstep).not_keeps
        ⟨fun hmem => hsub hmem, fun hmem => by rwa [← hused]⟩
    | created wtxNew vfChange nFee =>
      refine iff_of_true ⟨some hybridID, ?_⟩ fun _ => rfl
      intro other hnot
      have hother : hybridID = other := by
        by_contra hne
        apply hnot
        constructor
        · intro hmem
          exact (hstep.kept other (h.kept hmem)).resolve_right fun heq => hne (some.inj heq)
        · intro hmem
          rw [hstep.used] at hmem
          rw [← h.used]
          exact Finset.mem_of_mem_insert_of_ne hmem (Ne.symm hne)
      refine ⟨congrArg some hother, ?_⟩
      rcases run_created hsend (congrArg Prod.fst hrun) with ⟨paid, hpaid, hpays⟩ | ⟨hnone, -⟩
      · rw [htaken] at hpaid
        rwa [← hother, some.inj hpaid]
      · rw [htaken] at hnone
        cases hnone

theorem Untouched.loop_iff (hsend : vecSend ≠ []) (hfresh : FreshRounds C w₀ rounds)
    (hdefined : result ≠ .undefined) {fuel : ℕ} (h : Untouched rounds i w₀ w)
    (hloop : hybridFeeLoop env rounds vecSend nValue fuel i nFeeRet w = some (result, w')) :
    ChangeKeysKept rounds w₀ w' result ↔
      ∀ s ∈ reachedRounds env rounds vecSend nValue fuel i nFeeRet w,
        s.takesKey env → s.creates env vecSend := by
  induction fuel generalizing i nFeeRet w with
  | zero => cases hloop
  | succ fuel ih =>
    unfold hybridFeeLoop at hloop
    unfold reachedRounds
    split at hloop
    · cases hloop
      exact absurd rfl hdefined
    · next hrun =>
      cases hloop
      rw [hrun, forall_mem_singleton]
      exact h.finished_iff hsend hfresh hdefined hrun
    · next nFeeNext u hrun =>
      have hstep := requested_of_run hrun
      rw [hrun, forall_mem_cons]
      cases htaken : ((rounds i).requestKey env nValue nFeeRet w).1 with
      | none =>
        rw [htaken] at hstep
        rw [ih (h.step hstep) hloop]
        refine (and_iff_right ?_).symm
        rw [RoundStart.takesKey, htaken]
        exact nofun
      | some hybridID =>
        have hdest := changeDest_of_requestKey htaken
        rw [htaken] at hstep
        refine iff_of_false ?_ ?_
        · exact (h.waited.lost hfresh hstep).loop hsend hfresh hdest hdefined
            (h.waited.step hstep) hloop
        · rintro ⟨himp, -⟩
          have hcreates := himp (by
            rw [RoundStart.takesKey, htaken]
            rfl)
          rw [RoundStart.creates, hrun] at hcreates
          cases hcreates

end Call

/-- The keys come out as they should if and only if every round that takes a key creates the
transaction. -/
theorem changeKeysKept_iff {C : KeyCrypto} (env : CreateEnv) (rounds : ℕ → HybridRound C)
    (fuel : ℕ) (vecSend : List (CScript × ℤ)) (w w' : HybridWallet) (result : CreateResult)
    (hfresh : FreshRounds C w rounds)
    (h : CreateHybridTransaction env rounds fuel vecSend w = some (result, w'))
    (hdefined : result ≠ .undefined) :
    ChangeKeysKept rounds w w' result ↔ ∀ s ∈ roundsOf env rounds vecSend fuel w,
      s.takesKey env → s.creates env vecSend := by
  have hstart : Untouched rounds 0 w w := ⟨rfl, Finset.Subset.refl _, fun _ hmem => Or.inl hmem⟩
  have hfailed : ∀ strFailReason, ChangeKeysKept rounds w w (.failed strFailReason) :=
    fun _ => ⟨rfl, Finset.Subset.refl _, fun _ hmem => Or.inl hmem⟩
  unfold CreateHybridTransaction at h
  unfold roundsOf
  cases hsum : sumAmounts 0 vecSend with
  | error result' =>
    rw [hsum] at h
    cases h
    refine iff_of_true ?_ (forall_mem_nil _)
    rcases sumAmounts_eq_error hsum with rfl | rfl
    · exact absurd rfl hdefined
    · exact hfailed _
  | ok nValue =>
    rw [hsum] at h
    dsimp only at h ⊢
    split at h
    · next hnone =>
      cases h
      rw [if_pos (Or.inl hnone)]
      exact iff_of_true (hfailed _) (forall_mem_nil _)
    · next hsend =>
      split at h
      · next hneg =>
        cases h
        rw [if_pos (Or.inr hneg)]
        exact iff_of_true (hfailed _) (forall_mem_nil _)
      · next hpos =>
        rw [if_neg (not_or.mpr ⟨hsend, hpos⟩)]
        exact hstart.loop_iff hsend hfresh hdefined h

namespace HybridChange

def round (_ : ℕ) : HybridRound exampleCrypto where
  choices := PaymentExample.choices 0
  reservedKeyID := 3
  o := {}
  oPool := {}
  fresh _ := none

def env (nTransactionFee : ℤ) : CreateEnv :=
  { PaymentExample.wallet with
    nTransactionFee
    mapWallet := Finmap.singleton 1
      (.ofTransaction { vin := [], vout := [⟨5000000000, SetDestination (some (.hybridKey 7))⟩] }) }

def wallet : HybridWallet :=
  (newHybridWallet.EnsureHybridKeyPool exampleCrypto {} 6 fun i => some (freshKeyOf i)).2

deriving instance DecidableEq for FeeRound

def vecSend : List (CScript × ℤ) := [([0x53], 1000000000)]

theorem notMem_newIDs (i : ℕ) (hybridID : CHybridKeyID) :
    hybridID ∉ newIDs exampleCrypto (round i).fresh := by
  rintro ⟨n, hmem⟩
  obtain ⟨fresh, hfresh, hmade⟩ := mem_filterMap.mp hmem
  obtain ⟨_, -, rfl⟩ := List.mem_map.mp hfresh
  cases hmade

theorem freshRounds : FreshRounds exampleCrypto wallet round where
  unused i hybridID hmem := absurd hmem (notMem_newIDs i hybridID)
  used i hybridID hmem := absurd hmem (notMem_newIDs i hybridID)
  once i _ _ hybridID hmem := absurd hmem (notMem_newIDs i hybridID)

variable {nTransactionFee : ℤ}

theorem exists_taken (hwants : wantsHybridKey (env nTransactionFee) (round 0).choices 1000000000
      nTransactionFee = true) :
    ∃ hybridID ∈ wallet.setUnusedHybridKeys, ((round 0).requestKey (env nTransactionFee) 1000000000
      nTransactionFee wallet).1 = some hybridID := by
  obtain ⟨hybridID, hmem, hissued⟩ := GetUnusedHybridKey_eq_some (C := exampleCrypto) (o := {})
    (w := wallet) (by decide +kernel) rfl {} fun _ => none
  refine ⟨hybridID, hmem, ?_⟩
  rw [HybridRound.requestKey, if_pos hwants]
  exact hissued

/-- With a sufficient fee from the settings, the first round takes the only key. -/
theorem firstRound_keeps : ∃ result w',
    CreateHybridTransaction (env 1000000) round 5 vecSend wallet = some (result, w') ∧
      ChangeKeysKept round wallet w' result := by
  obtain ⟨hybridID, hmem, htaken⟩ := @exists_taken 1000000 (by decide +kernel)
  have hcreates : ∀ hybridID ∈ wallet.setUnusedHybridKeys, (createRound (env 1000000)
      ((round 0).withKeys (some hybridID)) vecSend 1000000000 1000000).any isCreated = true := by
    decide +kernel
  have hfirst := hcreates hybridID hmem
  rw [← htaken] at hfirst
  obtain ⟨ends, hends, hcreated⟩ := (Option.any_eq_true ..).mp hfirst
  have hrun := run_eq hends
  cases ends with
  | again nFeeRet => cases hcreated
  | finished result =>
    have h : CreateHybridTransaction (env 1000000) round 5 vecSend wallet = some (result,
        ((round 0).requestKey (env 1000000) 1000000000 1000000 wallet).2) := by
      change hybridFeeLoop (env 1000000) round vecSend 1000000000 5 0 1000000 wallet = _
      rw [hybridFeeLoop, hrun]
    refine ⟨result, _, h, ?_⟩
    apply (changeKeysKept_iff (env 1000000) round 5 vecSend wallet _ result freshRounds h ?_).mpr
    · change ∀ s ∈ reachedRounds (env 1000000) round vecSend 1000000000 5 0 1000000 wallet, _
      rw [reachedRounds, hrun, forall_mem_singleton]
      exact fun _ => hfirst
    · rintro rfl
      cases hcreated

/-- Without one the first round is repeated, and its key is lost. -/
theorem repeated_loses_key : ∃ result w',
    CreateHybridTransaction (env 0) round 5 vecSend wallet = some (result, w') ∧
      ¬ ChangeKeysKept round wallet w' result := by
  obtain ⟨hybridID, hmem, htaken⟩ := @exists_taken 0 (by decide +kernel)
  have hagain : ∀ hybridID ∈ wallet.setUnusedHybridKeys, createRound (env 0)
      ((round 0).withKeys (some hybridID)) vecSend 1000000000 0 = some (.again 1000000) := by
    decide +kernel
  have hlast : (createRound (env 0) ((round 1).withKeys none) vecSend 1000000000 1000000) =
      some (.finished (.failed .noUnusedHybridKey)) ∧
        ∀ hybridID ∈ wallet.setUnusedHybridKeys,
          (createRound (env 0) ((round 1).withKeys (some hybridID)) vecSend 1000000000
            1000000).any isCreated = true := by
    decide +kernel
  have hfirst := hagain hybridID hmem
  rw [← htaken] at hfirst
  have hrun := run_eq hfirst
  have hstep := @requested_requestKey _ (env 0) (round 0) 1000000000 0 wallet
  rw [htaken] at hstep
  generalize ((round 0).requestKey (env 0) 1000000000 0 wallet).2 = u at hrun hstep
  have hsecond : ∃ result, result ≠ .undefined ∧ createRound (env 0) ((round 1).withKeys
      ((round 1).requestKey (env 0) 1000000000 1000000 u).1) vecSend 1000000000 1000000 =
        some (.finished result) := by
    have hnext := @requested_requestKey _ (env 0) (round 1) 1000000000 1000000 u
    cases htaken' : ((round 1).requestKey (env 0) 1000000000 1000000 u).1 with
    | none => exact ⟨.failed .noUnusedHybridKey, by decide, hlast.1⟩
    | some other =>
      have hwaited := (hnext.waited other htaken').resolve_right (notMem_newIDs 1 other)
      have hbefore := (hstep.waiting other hwaited).resolve_right (notMem_newIDs 0 other)
      obtain ⟨ends, hends, hcreated⟩ := (Option.any_eq_true ..).mp (hlast.2 other hbefore)
      cases ends with
      | again nFeeRet => cases hcreated
      | finished result =>
        refine ⟨result, ?_, hends⟩
        rintro rfl
        cases hcreated
  obtain ⟨result, hdefined, hends⟩ := hsecond
  have hloop : hybridFeeLoop (env 0) round vecSend 1000000000 4 1 1000000 u =
      some (result, ((round 1).requestKey (env 0) 1000000000 1000000 u).2) := by
    rw [hybridFeeLoop, run_eq hends]
  refine ⟨result, ((round 1).requestKey (env 0) 1000000000 1000000 u).2, ?_, ?_⟩
  · change hybridFeeLoop (env 0) round vecSend 1000000000 5 0 0 wallet = _
    rw [hybridFeeLoop, hrun]
    exact hloop
  · have hwaited : Waited round 0 wallet wallet := fun _ hbefore => Or.inl hbefore
    exact (hwaited.lost freshRounds hstep).loop (cons_ne_nil _ _) freshRounds rfl hdefined
      (hwaited.step hstep) hloop

end HybridChange

end Phoenixcoin.Analysis
