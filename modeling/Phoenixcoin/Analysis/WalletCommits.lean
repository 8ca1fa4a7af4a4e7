import Phoenixcoin.Analysis.AbortedUpdates
import Phoenixcoin.Program.WalletCommit

/-!
# All or nothing

A transaction that the wallet database does not commit leaves the wallet as it was. What happens
before the transaction begins is not part of it: a build without a GUI takes the replacements
for a default key that is paid from the key pool, which writes records of its own.
-/

set_option autoImplicit false

namespace Phoenixcoin.Analysis

open Lib Program List Option Finmap WalletCommitEnv Table WalletCoins KeyPoolWallet

variable {E : WalletCommitEnv} {o : BatchOutcome} {w : DurableWallet} {t t' : CoinTable}
  {undo : SpentUndo} {hash : uint256} {wtx wtxIn : WalletCoins}

structure WalletKept (E : WalletCommitEnv) (t : CoinTable) : Prop where
  bound : ∀ hash wtx, t.lookup hash = some wtx → wtx.fBound = true
  keyed : ∀ hash wtx, t.lookup hash = some wtx → E.txHash wtx.toCTransaction = hash

theorem WalletKept.insert (h : WalletKept E t) (hbound : wtx.fBound = true)
    (hkeyed : E.txHash wtx.toCTransaction = hash) : WalletKept E (t.insert hash wtx) := by
  constructor
  · intro other wtx' hlookup
    rw [lookup_insert_ite] at hlookup
    split at hlookup
    · cases hlookup
      exact hbound
    · exact h.bound other wtx' hlookup
  · intro other wtx' hlookup
    rw [lookup_insert_ite] at hlookup
    split at hlookup
    · next heq =>
      cases hlookup
      rw [hkeyed, heq]
    · exact h.keyed other wtx' hlookup

/-! ## Preparing and rolling back -/

theorem bind_eq_self (hbound : wtx.fBound = true) : { wtx with fBound := true } = wtx := by
  obtain ⟨⟨_, _, _, fBound⟩, _⟩ := wtx
  cases hbound
  rfl

/-- `PrepareAddToWallet` changes the entry of the transaction, and counts a new one. -/
theorem prepareAddToWallet_insert (hkept : WalletKept E w.mapWallet) :
    ∃ wtx fInsertedNew fNeedsWrite nOrderPosNext,
      prepareAddToWallet E.toWalletEnv (E.txHash wtxIn.toCTransaction) wtxIn w.toSyncedWallet =
        (⟨w.mapWallet.insert (E.txHash wtxIn.toCTransaction) wtx, nOrderPosNext⟩, fInsertedNew,
          fNeedsWrite) ∧
      wtx.fBound = true ∧ E.txHash wtx.toCTransaction = E.txHash wtxIn.toCTransaction ∧
      (E.txHash wtxIn.toCTransaction ∈ w.mapWallet → nOrderPosNext = w.nOrderPosNext) := by
  unfold prepareAddToWallet
  cases hlookup : w.mapWallet.lookup (E.txHash wtxIn.toCTransaction) with
  | none =>
    refine ⟨_, _, _, _, rfl, rfl, rfl, ?_⟩
    intro hmem
    exact absurd hmem (lookup_eq_none.mp hlookup)
  | some wtx =>
    refine ⟨_, _, _, _, rfl, rfl, ?_, fun _ => rfl⟩
    exact hkept.keyed _ wtx hlookup

variable {nOrderPosNext : ℤ} {fAccepted : Bool} {reservekey : CReserveKey}

/-- `RollbackAddToWallet` restores the wallet, whatever the entry of the transaction is now. -/
theorem rollbackAddToWallet_eq (hkept : WalletKept E w.mapWallet)
    (hold : hash ∈ w.mapWallet → nOrderPosNext = w.nOrderPosNext) :
    rollbackAddToWallet hash w.toSyncedWallet ⟨w.mapWallet.insert hash wtx, nOrderPosNext⟩ =
      w.toSyncedWallet := by
  unfold rollbackAddToWallet
  cases hlookup : w.mapWallet.lookup hash with
  | none =>
    rw [erase_insert_of_lookup_none hlookup]
  | some prev =>
    have hbound := hkept.bound hash prev hlookup
    have hmem : hash ∈ w.mapWallet := mem_of_lookup_eq_some hlookup
    rw [lookup_insert, hold hmem]
    dsimp only
    rw [bind_eq_self hbound, Finmap.insert_insert, insert_of_lookup_some hlookup]

/-! ## Staging coins -/

section Staging

variable {fBind fCheckRange : Bool} {coins : List SpentCoin} {s s' : CoinStaging}
  {spent : SpentCoin}

theorem stageCoin_staged (fBind : Bool) (hs : Staged t s.mapWallet s.vSpentUndo)
    (hbound : wtx.fBound = true)
    (hlookup : s.mapWallet.lookup spent.1 = some wtx) :
    Staged t (E.stageCoin o fBind spent wtx s).2.mapWallet
      (E.stageCoin o fBind spent wtx s).2.vSpentUndo := by
  have hmark : MarkSpent spent.2 { wtx with fBound := wtx.fBound || fBind } =
      MarkSpent spent.2 wtx := by
    rw [hbound, Bool.true_or, bind_eq_self hbound]
  have hstep := hs.setSpent (MarkSpent spent.2 wtx).vfSpent hlookup
  unfold stageCoin
  dsimp only
  rw [hmark]
  split
  · exact hstep
  · exact hstep

theorem WalletKept.markSpent (fBind : Bool) (h : WalletKept E s.mapWallet)
    (hlookup : s.mapWallet.lookup spent.1 = some wtx) :
    WalletKept E (E.stageCoin o fBind spent wtx s).2.mapWallet := by
  have hbound : (MarkSpent spent.2
      { wtx with fBound := wtx.fBound || fBind }).fBound = true := by
    change (wtx.fBound || fBind) = true
    rw [h.bound _ wtx hlookup, Bool.true_or]
  have hinsert := h.insert hbound (h.keyed _ wtx hlookup)
  unfold stageCoin
  dsimp only
  split
  · exact hinsert
  · exact hinsert

/-- The whole loop, whether it ends early or not. -/
theorem stageCoins_staged (fBind fCheckRange : Bool) (coins : List SpentCoin)
    (hkept : WalletKept E s.mapWallet) (hs : Staged t s.mapWallet s.vSpentUndo) :
    Staged t (E.stageCoins o fBind fCheckRange coins s).2.mapWallet
      (E.stageCoins o fBind fCheckRange coins s).2.vSpentUndo := by
  induction coins generalizing s with
  | nil => exact hs
  | cons spent coins ih =>
    unfold stageCoins
    split
    · exact ih hkept hs
    · next wtx hlookup =>
      split
      · exact ih hkept hs
      · have hstep := stageCoin_staged (E := E) (o := o) fBind hs
          (hkept.bound _ wtx hlookup) hlookup
        have hstill := hkept.markSpent (o := o) fBind hlookup
        split
        · next heq =>
          rw [heq] at hstep
          exact hstep
        · next heq =>
          rw [heq] at hstep hstill
          exact ih hstill hstep

def SpentDurably (s : CoinStaging) (spent : SpentCoin) : Prop :=
  ∃ wtx, s.mapWallet.lookup spent.1 = some wtx ∧ wtx.IsSpent spent.2 = true ∧
    s.batch.db.tx.lookup spent.1 = some wtx

theorem stageCoin_spent (hkept : WalletKept E s.mapWallet)
    (hlookup : s.mapWallet.lookup spent.1 = some wtx) (hrange : spent.2 < wtx.vout.length)
    (hstage : E.stageCoin o fBind spent wtx s = (true, s')) :
    SpentDurably s' spent ∧ (∀ other, SpentDurably s other → SpentDurably s' other) ∧
      ∀ hash, (s'.mapWallet.lookup hash).map (fun wtx => wtx.vout) =
        (s.mapWallet.lookup hash).map fun wtx => wtx.vout := by
  obtain ⟨coin, hcoin⟩ : ∃ coin, coin =
      MarkSpent spent.2 { wtx with fBound := wtx.fBound || fBind } := ⟨_, rfl⟩
  have hkeyed : E.txHash coin.toCTransaction = spent.1 := by
    rw [hcoin]
    exact hkept.keyed _ wtx hlookup
  unfold stageCoin BatchOutcome.WriteTx BatchOutcome.put at hstage
  dsimp only at hstage
  rw [← hcoin, hkeyed] at hstage
  split at hstage
  · cases hstage
  · next batch hput =>
    split at hput
    · cases hput
      cases hstage
      have hspent (n : ℕ) : coin.IsSpent n =
          (decide (n < wtx.vout.length) && (decide (spent.2 = n) || wtx.IsSpent n)) := by
        rw [hcoin, isSpent_markSpent]
        rfl
      refine ⟨⟨coin, lookup_insert _, ?_, lookup_insert _⟩, ?_, ?_⟩
      · rw [hspent]
        simp [hrange]
      · rintro other ⟨wtx', hlookup', hspent', hrecord⟩
        unfold SpentDurably
        by_cases heq : other.1 = spent.1
        · rw [heq, hlookup] at hlookup'
          cases hlookup'
          rw [heq]
          refine ⟨coin, lookup_insert _, ?_, lookup_insert _⟩
          have hin : other.2 < wtx.vout.length := by
            unfold IsSpent at hspent'
            simp only [Bool.and_eq_true, decide_eq_true_eq] at hspent'
            exact hspent'.1
          rw [hspent, hspent']
          simp [hin]
        · refine ⟨wtx', ?_, hspent', ?_⟩
          · rw [lookup_insert_of_ne _ heq, hlookup']
          · rw [lookup_insert_of_ne _ heq, hrecord]
      · intro hash
        rw [lookup_insert_ite]
        split
        · next heq =>
          rw [heq, hlookup, hcoin]
          rfl
        · rfl
    · cases hput

theorem stageCoins_spent (hkept : WalletKept E s.mapWallet)
    (hstage : E.stageCoins o fBind true coins s = (true, s')) :
    (∀ other, SpentDurably s other → SpentDurably s' other) ∧
      (∀ hash, (s'.mapWallet.lookup hash).map (fun wtx => wtx.vout) =
        (s.mapWallet.lookup hash).map fun wtx => wtx.vout) ∧
      ∀ spent ∈ coins, ∀ wtx, s.mapWallet.lookup spent.1 = some wtx →
        spent.2 < wtx.vout.length → SpentDurably s' spent := by
  induction coins generalizing s with
  | nil =>
    cases hstage
    exact ⟨fun _ h => h, fun _ => rfl, fun _ hmem => nomatch hmem⟩
  | cons first coins ih =>
    unfold stageCoins at hstage
    split at hstage
    · next hnone =>
      obtain ⟨hstays, hvout, hspent⟩ := ih hkept hstage
      refine ⟨hstays, hvout, ?_⟩
      intro spent hmem wtx hlookup hrange
      rcases mem_cons.mp hmem with rfl | hmem
      · rw [hnone] at hlookup
        cases hlookup
      · exact hspent spent hmem wtx hlookup hrange
    · next wtx hfirst =>
      split at hstage
      · next hout =>
        obtain ⟨hstays, hvout, hspent⟩ := ih hkept hstage
        refine ⟨hstays, hvout, ?_⟩
        intro spent hmem wtx' hlookup hrange
        rcases mem_cons.mp hmem with rfl | hmem
        · rw [hfirst] at hlookup
          cases hlookup
          exact absurd hout.2 (not_le.mpr hrange)
        · exact hspent spent hmem wtx' hlookup hrange
      · next hin =>
        have hrange : first.2 < wtx.vout.length := not_le.mp fun hout => hin ⟨rfl, hout⟩
        have hstill := hkept.markSpent (o := o) fBind hfirst
        split at hstage
        · cases hstage
        · next s₁ heq =>
          obtain ⟨hdone, hkeeps, hvout₁⟩ := stageCoin_spent hkept hfirst hrange heq
          rw [heq] at hstill
          obtain ⟨hstays, hvout, hspent⟩ := ih hstill hstage
          refine ⟨fun other h => hstays other (hkeeps other h),
            fun hash => (hvout hash).trans (hvout₁ hash), ?_⟩
          intro spent hmem wtx' hlookup hrange'
          rcases mem_cons.mp hmem with rfl | hmem
          · exact hstays _ hdone
          · have hsame := hvout₁ spent.1
            rw [hlookup] at hsame
            obtain ⟨wtx₁, hlookup₁, hvoutEq⟩ := map_eq_some_iff.mp hsame
            exact hspent spent hmem wtx₁ hlookup₁ (by rw [hvoutEq]; exact hrange')

theorem stageCoins_undo (fBind fCheckRange : Bool) (coins : List SpentCoin)
    (item : uint256 × List Bool)
    (hmem : item ∈ (E.stageCoins o fBind fCheckRange coins s).2.vSpentUndo) :
    item ∈ s.vSpentUndo ∨ ∃ spent ∈ coins, spent.1 = item.1 := by
  induction coins generalizing s with
  | nil => exact Or.inl hmem
  | cons first coins ih =>
    have hrest {s₁ : CoinStaging}
        (h : item ∈ (E.stageCoins o fBind fCheckRange coins s₁).2.vSpentUndo) :
        item ∈ s₁.vSpentUndo ∨ ∃ spent ∈ first :: coins, spent.1 = item.1 := by
      rcases ih h with hold | ⟨spent, hspent, heq⟩
      · exact Or.inl hold
      · exact Or.inr ⟨spent, mem_cons_of_mem _ hspent, heq⟩
    unfold stageCoins at hmem
    split at hmem
    · exact hrest hmem
    · next wtx _ =>
      split at hmem
      · exact hrest hmem
      · have hstep (hin : item ∈ (E.stageCoin o fBind first wtx s).2.vSpentUndo) :
            item ∈ s.vSpentUndo ∨ ∃ spent ∈ first :: coins, spent.1 = item.1 := by
          have hundo : (E.stageCoin o fBind first wtx s).2.vSpentUndo =
              if s.vSpentUndo.any fun undo => undo.1 = first.1 then s.vSpentUndo
              else s.vSpentUndo ++ [(first.1, wtx.vfSpent)] := by
            unfold stageCoin
            dsimp only
            split <;> rfl
          rw [hundo] at hin
          split at hin
          · exact Or.inl hin
          · rcases mem_append.mp hin with hold | hnew
            · exact Or.inl hold
            · rw [mem_singleton.mp hnew]
              exact Or.inr ⟨first, mem_cons_self, rfl⟩
        split at hmem
        · next heq =>
          rw [heq] at hstep
          exact hstep hmem
        · next heq =>
          rw [heq] at hstep
          rcases hrest hmem with hold | hnew
          · exact hstep hold
          · exact Or.inr hnew

end Staging

theorem rollbackSpentCoins_eq (hs : Staged t t' undo) : rollbackSpentCoins undo t' = t :=
  ext_lookup fun hash => hs.rollback hash

theorem rollbackSpentCoins_cons (item : uint256 × List Bool) :
    rollbackSpentCoins (item :: undo) t = rollbackSpentCoins undo (match t.lookup item.1 with
        | some wtx => t.insert item.1 { wtx with vfSpent := item.2 }
        | none => t) := rfl

theorem rollbackSpentCoins_erase :
    rollbackSpentCoins undo (t.erase hash) = (rollbackSpentCoins undo t).erase hash := by
  induction undo generalizing t with
  | nil => rfl
  | cons item undo ih =>
    rw [rollbackSpentCoins_cons, rollbackSpentCoins_cons, lookup_erase_ite]
    by_cases heq : item.1 = hash
    · rw [if_pos heq]
      rw [ih]
      cases hlookup : t.lookup item.1 with
      | none => rfl
      | some wtx =>
        rw [← ih, ← ih, heq]
        congr 1
        apply ext_lookup
        intro other
        rw [lookup_erase_ite, lookup_erase_ite, lookup_insert_ite]
        split <;> rfl
    · rw [if_neg heq]
      cases hlookup : t.lookup item.1 with
      | none => exact ih
      | some wtx =>
        rw [← ih]
        congr 1
        apply ext_lookup
        intro other
        rw [lookup_insert_ite, lookup_erase_ite, lookup_erase_ite,
          lookup_insert_ite]
        by_cases hother : other = item.1
        · rw [if_pos hother, if_pos hother, if_neg (by rw [hother]; exact heq)]
        · rw [if_neg hother, if_neg hother]

/-- An entry that is restored before the flags of others. -/
theorem rollbackSpentCoins_insert (hundo : ∀ item ∈ undo, item.1 ≠ hash) :
    rollbackSpentCoins undo (t.insert hash wtx) = (rollbackSpentCoins undo t).insert hash wtx := by
  induction undo generalizing t with
  | nil => rfl
  | cons item undo ih =>
    have hne := hundo item mem_cons_self
    have ih {t : CoinTable} := ih (t := t) fun other hother =>
      hundo other (mem_cons_of_mem _ hother)
    rw [rollbackSpentCoins_cons, rollbackSpentCoins_cons, lookup_insert_of_ne _ hne]
    cases hlookup : t.lookup item.1 with
    | none => exact ih
    | some prev =>
      rw [← ih, insert_insert_of_ne _ hne]

/-! ## The transaction -/

section Batch

variable {prepared : SyncedWallet} {fInsertedNew fNeedsWrite fBind fCheckRange fCommitted : Bool}
  {vNewDefaultKeys : List CPubKey} {coins : List SpentCoin} {db : WalletTxRecords}
  {s : CoinStaging}

theorem runBatch_staged (hkept : WalletKept E prepared.mapWallet)
    (hrun : E.runBatch o hash prepared fInsertedNew fNeedsWrite vNewDefaultKeys
      (E.stageCoins o fBind fCheckRange coins) db = (fCommitted, s)) :
    Staged prepared.mapWallet s.mapWallet s.vSpentUndo ∧
      (∀ item ∈ s.vSpentUndo, ∃ spent ∈ coins, spent.1 = item.1) ∧
      (fCommitted = true → ∃ batch, E.stageCoins o fBind fCheckRange coins
        ⟨prepared.mapWallet, [], batch⟩ = (true, s)) := by
  have hnothing : Staged prepared.mapWallet prepared.mapWallet [] := Staged.refl _
  unfold runBatch at hrun
  dsimp only at hrun
  split at hrun
  · cases hrun
    exact ⟨hnothing, nofun, nofun⟩
  · split at hrun
    · cases hrun
      exact ⟨hnothing, nofun, nofun⟩
    · next batch _ =>
      have hstaged := stageCoins_staged (o := o) fBind fCheckRange coins
        (s := ⟨prepared.mapWallet, [], batch⟩) hkept hnothing
      have hundo := stageCoins_undo (E := E) (o := o) fBind fCheckRange coins
        (s := ⟨prepared.mapWallet, [], batch⟩)
      generalize hall : E.stageCoins o fBind fCheckRange coins ⟨prepared.mapWallet, [], batch⟩ =
        staged at hrun hstaged hundo
      obtain ⟨fStaged, s₁⟩ := staged
      cases hrun
      refine ⟨hstaged, ?_, ?_⟩
      · intro item hitem
        rcases hundo _ hitem with hold | hnew
        · cases hold
        · exact hnew
      · intro hcommitted
        have hstagedAll : fStaged = true := (Bool.and_eq_true_iff.mp hcommitted).1
        rw [hstagedAll] at hall
        exact ⟨batch, hall⟩

end Batch

/-! ## The key pool -/

section KeyPool

variable {newKey : ℕ → CPubKey} {nKeyPoolArg : ℤ} {pool : KeyPoolOutcome}
  {keyPool : KeyPoolWallet CPubKey}

theorem addStaged_vchDefaultKey (staged : List (ℕ × CPubKey)) (keyPool : KeyPoolWallet CPubKey) :
    (staged.foldl (addStaged pool) keyPool).vchDefaultKey =
      keyPool.vchDefaultKey := by
  induction staged generalizing keyPool with
  | nil => rfl
  | cons entry staged ih =>
    rw [foldl_cons, ih]
    rfl

variable {result : Bool × KeyPoolWallet CPubKey}

theorem refillKeyPool_vchDefaultKey {n nIndex : ℕ}
    (h : keyPool.refillKeyPool newKey pool n nIndex = some result) :
    result.2.vchDefaultKey = keyPool.vchDefaultKey := by
  unfold refillKeyPool at h
  split at h
  · cases h
    rfl
  · obtain ⟨staged, _, rfl⟩ := map_eq_some_iff.mp h
    split
    · exact addStaged_vchDefaultKey staged keyPool
    · rfl

theorem topUpKeyPool_vchDefaultKey (h : keyPool.topUpKeyPool newKey nKeyPoolArg pool = .ok result) :
    result.2.vchDefaultKey = keyPool.vchDefaultKey := by
  unfold topUpKeyPool at h
  split at h
  · cases h
    rfl
  · split at h
    · cases h
    · next hrefill =>
      cases h
      exact refillKeyPool_vchDefaultKey hrefill

variable (newKey nKeyPoolArg pool keyPool)

theorem reserveKeyFromKeyPool_vchDefaultKey :
    (keyPool.reserveKeyFromKeyPool newKey nKeyPoolArg pool).2.vchDefaultKey =
      keyPool.vchDefaultKey := by
  unfold reserveKeyFromKeyPool
  split
  · rfl
  · next topped htop =>
    have hsame : topped.vchDefaultKey = keyPool.vchDefaultKey := by
      split at htop
      · cases htop
        rfl
      · exact topUpKeyPool_vchDefaultKey htop
    split
    · dsimp only
      split
      · exact hsame
      · split <;> exact hsame
    · exact hsame

theorem getKeyFromPool_vchDefaultKey (fAllowReuse : Bool) :
    (keyPool.getKeyFromPool newKey nKeyPoolArg pool fAllowReuse).2.vchDefaultKey =
      keyPool.vchDefaultKey := by
  have hreserve := reserveKeyFromKeyPool_vchDefaultKey newKey nKeyPoolArg pool keyPool
  unfold getKeyFromPool
  split
  · next heq =>
    rw [heq] at hreserve
    exact hreserve
  · next heq =>
    rw [heq] at hreserve
    split
    · exact hreserve
    · split <;> exact hreserve
  · next heq =>
    rw [heq] at hreserve
    unfold keepKey
    split <;> exact hreserve

variable {newKey nKeyPoolArg pool keyPool}

theorem takeReplacements_vchDefaultKey (outputs : List CTxOut) (n : ℕ)
    (keyPool : KeyPoolWallet CPubKey) :
    (E.takeReplacements o n outputs keyPool).2.vchDefaultKey = keyPool.vchDefaultKey := by
  induction outputs generalizing n keyPool with
  | nil => rfl
  | cons txout outputs ih =>
    have hkey := getKeyFromPool_vchDefaultKey E.newKey E.nKeyPoolArg (o.keyPool n) keyPool false
    unfold takeReplacements
    split
    · next heq =>
      rw [heq] at hkey
      exact hkey
    · next keyPool₁ heq =>
      rw [heq] at hkey
      have hrest := ih (n + 1) keyPool₁
      split
      · next heq₁ =>
        rw [heq₁] at hrest
        exact hrest.trans hkey
      · next heq₁ =>
        rw [heq₁] at hrest
        exact hrest.trans hkey

theorem selectDefaultKeyReplacements_vchDefaultKey :
    (E.selectDefaultKeyReplacements o wtxIn keyPool).2.vchDefaultKey = keyPool.vchDefaultKey := by
  unfold selectDefaultKeyReplacements
  split
  · rfl
  · exact takeReplacements_vchDefaultKey _ _ _

theorem selectDefaultKeyReplacements_none
    (h : E.fQtGui = true ∨ E.defaultKeyOutputs wtxIn keyPool = []) :
    E.selectDefaultKeyReplacements o wtxIn keyPool = (.ok [], keyPool) := by
  unfold selectDefaultKeyReplacements
  split
  · rfl
  · next hgui =>
    rw [h.resolve_left hgui]
    rfl

end KeyPool

/-! ## AddToWallet -/

structure SameButKeyPool (w w' : DurableWallet) : Prop where
  mapWallet : w'.mapWallet = w.mapWallet
  nOrderPosNext : w'.nOrderPosNext = w.nOrderPosNext
  vchDefaultKey : w'.keyPool.vchDefaultKey = w.keyPool.vchDefaultKey
  mapAddressBook : w'.mapAddressBook = w.mapAddressBook
  mapRequestCount : w'.mapRequestCount = w.mapRequestCount
  db : w'.db = w.db

theorem SameButKeyPool.of_keyPool {keyPool : KeyPoolWallet CPubKey}
    (h : keyPool.vchDefaultKey = w.keyPool.vchDefaultKey) :
    SameButKeyPool w { w with keyPool := keyPool } :=
  ⟨rfl, rfl, h, rfl, rfl, rfl⟩

/-- Where `AddToWallet` returns false, it has only taken keys from the pool. -/
theorem AddToWallet_eq_false (hkept : WalletKept E w.mapWallet)
    (hfalse : (E.AddToWallet o wtxIn w).1 = .ok false) :
    (E.AddToWallet o wtxIn w).2 =
      { w with keyPool := (E.selectDefaultKeyReplacements o wtxIn w.keyPool).2 } := by
  unfold AddToWallet at hfalse ⊢
  generalize E.selectDefaultKeyReplacements o wtxIn w.keyPool = selected at hfalse ⊢
  obtain ⟨vNewDefaultKeys | vNewDefaultKeys, keyPool⟩ := selected
  · cases hfalse
  · obtain ⟨wtx, fInsertedNew, fNeedsWrite, nOrderPosNext, hprepare, hbound, hkeyed, hold⟩ :=
      prepareAddToWallet_insert (E := E) (w := { w with keyPool := keyPool }) hkept
    dsimp only at hfalse hprepare ⊢
    rw [hprepare] at hfalse ⊢
    split
    · next hneeded =>
      rw [if_pos hneeded] at hfalse
      generalize hrun : E.runBatch o (E.txHash wtxIn.toCTransaction)
        ⟨w.mapWallet.insert (E.txHash wtxIn.toCTransaction) wtx, nOrderPosNext⟩ fInsertedNew
        fNeedsWrite vNewDefaultKeys _ w.db = ran at hfalse ⊢
      obtain ⟨hstaged, _⟩ := runBatch_staged (hkept.insert hbound hkeyed) hrun
      split
      · next hcommitted =>
        rw [if_pos hcommitted] at hfalse
        cases hfalse
      · rw [rollbackSpentCoins_eq hstaged, rollbackAddToWallet_eq hkept hold]
    · next hneeded =>
      rw [if_neg hneeded] at hfalse
      cases hfalse

theorem sameButKeyPool_select {w' : DurableWallet}
    (h : w' = { w with keyPool := (E.selectDefaultKeyReplacements o wtxIn w.keyPool).2 }) :
    SameButKeyPool w w' ∧ w'.keyPool = (E.selectDefaultKeyReplacements o wtxIn w.keyPool).2 ∧
      (E.fQtGui = true ∨ E.defaultKeyOutputs wtxIn w.keyPool = [] → w' = w) := by
  rw [h]
  refine ⟨SameButKeyPool.of_keyPool selectDefaultKeyReplacements_vchDefaultKey, rfl, ?_⟩
  intro hnone
  rw [selectDefaultKeyReplacements_none hnone]

/-- Where `AddToWallet` returns false, the wallet and its database are as before, but for what the
replacement of a default key that is paid has taken from the key pool. -/
theorem addToWallet_false_restores (E : WalletCommitEnv) (o : BatchOutcome)
    (wtxIn : WalletCoins) (w : DurableWallet) (hkept : WalletKept E w.mapWallet)
    (hfalse : (E.AddToWallet o wtxIn w).1 = .ok false) :
    SameButKeyPool w (E.AddToWallet o wtxIn w).2 ∧
      (E.AddToWallet o wtxIn w).2.keyPool =
        (E.selectDefaultKeyReplacements o wtxIn w.keyPool).2 ∧
      (E.fQtGui = true ∨ E.defaultKeyOutputs wtxIn w.keyPool = [] →
        (E.AddToWallet o wtxIn w).2 = w) :=
  sameButKeyPool_select (AddToWallet_eq_false hkept hfalse)

namespace SampleCommit

/-- A build without a GUI. -/
def env : WalletCommitEnv where
  toWalletEnv := SampleSync.walletEnv
  digests := exampleCrypto.toDigests
  fQtGui := false
  newKey n := [UInt8.ofNat n]
  nKeyPoolArg := 1

def wallet : DurableWallet where
  mapWallet := ∅
  nOrderPosNext := 0
  keyPool := {
    setKeyPool := {1, 2}
    pool := ((∅ : Table ℕ (CKeyPool CPubKey)).insert 1 ⟨0, [1]⟩).insert 2 ⟨0, [2]⟩
    keys := [[1], [2], [9]]
    vchDefaultKey := some [9]
    fLocked := false
    nNewKeys := 3 }
  mapAddressBook := ∅
  mapRequestCount := ∅
  db := ⟨∅, none, none, ∅⟩

/-- A transaction that pays the default key. -/
def payment : WalletCoins :=
  { CWalletTx.null with
    vout := [⟨1, SetDestination (some (env.keyDestination [9]))⟩]
    vfSpent := [] }

/-- A coin of the wallet, under the hash 1. -/
def coin : WalletCoins := .ofTransaction { vin := [], vout := [⟨5, []⟩] }

/-- A wallet with one coin, in memory and in the database. Its default key is not paid. -/
def coinWallet : DurableWallet :=
  { wallet with
    mapWallet := Finmap.singleton 1 coin
    keyPool := { wallet.keyPool with vchDefaultKey := some [8] }
    db := ⟨Finmap.singleton 1 coin, none, none, ∅⟩ }

/-- A transaction that spends the coin; its hash is 2. -/
def spend : WalletCoins :=
  { payment with vin := [⟨⟨1, 0⟩, [], 0⟩], nLockTime := 1 }

theorem coinWallet_kept : WalletKept env coinWallet.mapWallet := by
  have hcoin : ∀ hash wtx, coinWallet.mapWallet.lookup hash = some wtx → hash = 1 ∧ coin = wtx := by
    intro hash wtx hlookup
    obtain rfl : hash = 1 := (Finmap.mem_singleton _ _ _).mp (mem_of_lookup_eq_some hlookup)
    exact ⟨rfl, Option.some.inj hlookup⟩
  constructor
  · intro hash wtx hlookup
    obtain ⟨-, rfl⟩ := hcoin hash wtx hlookup
    rfl
  · intro hash wtx hlookup
    obtain ⟨rfl, rfl⟩ := hcoin hash wtx hlookup
    rfl

end SampleCommit

open SampleCommit

/-- `TxnBegin` fails, and the record of the pool is gone from the database. -/
theorem addToWallet_false_takes_key :
    (env.AddToWallet { txnBegin := false } payment
        wallet).1 = .ok false ∧
      (env.AddToWallet { txnBegin := false } payment
        wallet).2.keyPool.pool.lookup 1 ≠ wallet.keyPool.pool.lookup 1 := by
  decide

/-- The write of the coin that a transaction spends fails, and the whole wallet is as before. With
all writes the coin is marked. -/
theorem addToWallet_false_restores_coin :
    (env.AddToWallet { write := fun n => n ≠ 2 } spend
        coinWallet).2 = coinWallet ∧
      ((env.AddToWallet {} spend
        coinWallet).2.mapWallet.lookup 1).map vfSpent = some [true] :=
  ⟨(addToWallet_false_restores env { write := fun n => n ≠ 2 } spend
    coinWallet coinWallet_kept (by decide)).2.2 (Or.inr (by decide)),
    by decide⟩

/-! ## CommitTransaction -/

theorem applyDefaultKeyReplacements_kept (vNewDefaultKeys : List CPubKey) :
    (E.applyDefaultKeyReplacements vNewDefaultKeys w).mapWallet = w.mapWallet ∧
      (E.applyDefaultKeyReplacements vNewDefaultKeys w).db = w.db := by
  unfold applyDefaultKeyReplacements
  split <;> exact ⟨rfl, rfl⟩

/-- A rollback in the order of `CommitTransaction`. -/
theorem rollback_CommitTransaction {s : CoinStaging} (hkept : WalletKept E w.mapWallet)
    (hold : hash ∈ w.mapWallet → nOrderPosNext = w.nOrderPosNext)
    (hstaged : Staged (w.mapWallet.insert hash wtx) s.mapWallet s.vSpentUndo)
    (hself : hash ∈ w.mapWallet → ∀ item ∈ s.vSpentUndo, item.1 ≠ hash) :
    ({ rollbackAddToWallet hash w.toSyncedWallet ⟨s.mapWallet, nOrderPosNext⟩ with
      mapWallet := rollbackSpentCoins s.vSpentUndo
        (rollbackAddToWallet hash w.toSyncedWallet ⟨s.mapWallet, nOrderPosNext⟩).mapWallet } :
      SyncedWallet) = w.toSyncedWallet := by
  have hback := rollbackSpentCoins_eq hstaged
  unfold rollbackAddToWallet
  cases hlookup : w.mapWallet.lookup hash with
  | none =>
    rw [rollbackSpentCoins_erase, hback, erase_insert_of_lookup_none hlookup]
  | some prev =>
    have hmem : hash ∈ w.mapWallet := mem_of_lookup_eq_some hlookup
    obtain ⟨vfSpent, hflags⟩ := hstaged.flags hash
    rw [lookup_insert, map_some] at hflags
    rw [hflags, hold hmem]
    dsimp only
    rw [bind_eq_self (hkept.bound hash prev hlookup), rollbackSpentCoins_insert (hself hmem), hback,
      Finmap.insert_insert, insert_of_lookup_some hlookup]

theorem CommitTransaction_eq_undone (hkept : WalletKept E w.mapWallet)
    (hself : E.txHash wtxIn.toCTransaction ∈ w.mapWallet → ∀ txin ∈ wtxIn.vin,
      txin.prevout.hash ≠ E.txHash wtxIn.toCTransaction)
    (hundone : (E.CommitTransaction o fAccepted wtxIn reservekey w).fCommitted = false) :
    (E.CommitTransaction o fAccepted wtxIn reservekey w).wallet =
        { w with keyPool := (E.selectDefaultKeyReplacements o wtxIn w.keyPool).2 } ∧
      (E.CommitTransaction o fAccepted wtxIn reservekey w).reservekey = reservekey ∧
      (E.CommitTransaction o fAccepted wtxIn reservekey w).calls = [] := by
  unfold CommitTransaction at hundone ⊢
  generalize E.selectDefaultKeyReplacements o wtxIn w.keyPool = selected at hundone ⊢
  obtain ⟨vNewDefaultKeys | vNewDefaultKeys, keyPool⟩ := selected
  · exact ⟨rfl, rfl, rfl⟩
  · obtain ⟨wtx, fInsertedNew, fNeedsWrite, nOrderPosNext, hprepare, hbound, hkeyed, hold⟩ :=
      prepareAddToWallet_insert (E := E) (w := { w with keyPool := keyPool }) hkept
    dsimp only at hundone hprepare ⊢
    rw [hprepare] at hundone ⊢
    generalize hrun : E.runBatch o (E.txHash wtxIn.toCTransaction)
      ⟨w.mapWallet.insert (E.txHash wtxIn.toCTransaction) wtx, nOrderPosNext⟩ fInsertedNew
      fNeedsWrite vNewDefaultKeys _ w.db = ran at hundone ⊢
    obtain ⟨hstaged, hcoins, _⟩ := runBatch_staged (hkept.insert hbound hkeyed) hrun
    split
    · refine ⟨?_, rfl, rfl⟩
      rw [rollback_CommitTransaction hkept hold hstaged]
      intro hmem item hitem heq
      obtain ⟨spent, hspent, hhash⟩ := hcoins item hitem
      obtain ⟨txin, htxin, rfl⟩ := List.mem_map.mp hspent
      exact hself hmem txin htxin (hhash.trans heq)
    · next hcommitted =>
      rw [if_neg hcommitted] at hundone
      split at hundone <;> cases hundone

/-- What a commit leaves: the entry of the transaction, and the inputs staged over it. -/
theorem CommitTransaction_committed (hkept : WalletKept E w.mapWallet)
    (hcommitted : (E.CommitTransaction o fAccepted wtxIn reservekey w).fCommitted = true) :
    ∃ new batch s, WalletKept E (w.mapWallet.insert (E.txHash wtxIn.toCTransaction) new) ∧
      (E.txHash wtxIn.toCTransaction ∉ w.mapWallet → new.vout = wtxIn.vout) ∧
      E.StageSpentCoins o wtxIn.toCTransaction
        ⟨w.mapWallet.insert (E.txHash wtxIn.toCTransaction) new, [], batch⟩ = (true, s) ∧
      (E.CommitTransaction o fAccepted wtxIn reservekey w).wallet.mapWallet = s.mapWallet ∧
      (E.CommitTransaction o fAccepted wtxIn reservekey w).wallet.db = s.batch.db := by
  unfold CommitTransaction at hcommitted ⊢
  generalize E.selectDefaultKeyReplacements o wtxIn w.keyPool = selected at hcommitted ⊢
  obtain ⟨vNewDefaultKeys | vNewDefaultKeys, keyPool⟩ := selected
  · cases hcommitted
  · obtain ⟨new, fInsertedNew, fNeedsWrite, nOrderPosNext, hprepare, hbound, hkeyed, _⟩ :=
      @prepareAddToWallet_insert E { w with keyPool := keyPool } wtxIn hkept
    have hkept₁ := hkept.insert hbound hkeyed
    have hvout (hnew : E.txHash wtxIn.toCTransaction ∉ w.mapWallet) : new.vout = wtxIn.vout := by
      have hsame := congrArg (fun prepared => (prepared.1.mapWallet.lookup
        (E.txHash wtxIn.toCTransaction)).map fun wtx => wtx.vout) hprepare
      unfold prepareAddToWallet at hsame
      dsimp only at hsame
      rw [lookup_eq_none.mpr hnew] at hsame
      simpa using hsame.symm
    dsimp only at hcommitted hprepare ⊢
    rw [hprepare] at hcommitted ⊢
    generalize hrun : E.runBatch o (E.txHash wtxIn.toCTransaction)
      ⟨w.mapWallet.insert (E.txHash wtxIn.toCTransaction) new, nOrderPosNext⟩ fInsertedNew
      fNeedsWrite vNewDefaultKeys _ w.db = ran at hcommitted ⊢
    obtain ⟨fCommitted, s⟩ := ran
    obtain ⟨_, _, hall⟩ := runBatch_staged hkept₁ hrun
    cases fCommitted with
    | false => cases hcommitted
    | true =>
      obtain ⟨batch, hstage⟩ := hall rfl
      obtain ⟨hwallet, hdb⟩ := applyDefaultKeyReplacements_kept (E := E) (w := { w with
        toSyncedWallet := ⟨s.mapWallet, nOrderPosNext⟩
        keyPool := (keepReservedKey o reservekey keyPool).1
        db := s.batch.db }) vNewDefaultKeys
      dsimp only
      rw [if_neg (by decide)]
      refine ⟨new, batch, s, hkept₁, hvout, hstage, ?_, ?_⟩
      · split <;> rw [hwallet]
      · split <;> rw [hdb]

theorem CommitTransaction_fCommitted
    (hresult : (E.CommitTransaction o fAccepted wtxIn reservekey w).result = .ok true) :
    (E.CommitTransaction o fAccepted wtxIn reservekey w).fCommitted = true := by
  unfold CommitTransaction at hresult ⊢
  split at hresult
  · cases hresult
  · dsimp only at hresult ⊢
    split at hresult
    · cases hresult
    · next hcommitted =>
      rw [if_neg hcommitted]
      split <;> rfl

/-- Every output that a committed transaction spends is marked in memory and on disk. -/
theorem CommitTransaction_spent (hkept : WalletKept E w.mapWallet)
    (hcommitted : (E.CommitTransaction o fAccepted wtxIn reservekey w).fCommitted = true)
    {txin : CTxIn} (htxin : txin ∈ wtxIn.vin)
    (hlookup : (E.CommitTransaction o fAccepted wtxIn reservekey w).wallet.mapWallet.lookup
      txin.prevout.hash = some wtx) (hrange : txin.prevout.n < wtx.vout.length) :
    wtx.IsSpent txin.prevout.n = true ∧
      (E.CommitTransaction o fAccepted wtxIn reservekey w).wallet.db.tx.lookup
        txin.prevout.hash = some wtx := by
  obtain ⟨new, batch, s, hkept₁, _, hstage, hwallet, hdb⟩ :=
    CommitTransaction_committed hkept hcommitted
  obtain ⟨_, hvout, hspent⟩ := stageCoins_spent hkept₁ hstage
  rw [hwallet] at hlookup
  have hsame := hvout txin.prevout.hash
  rw [hlookup, map_some] at hsame
  obtain ⟨wtx₁, hlookup₁, hvoutEq⟩ := map_eq_some_iff.mp hsame.symm
  obtain ⟨wtx₂, hlookup₂, hspent₂, hrecord⟩ := hspent (txin.prevout.hash, txin.prevout.n)
    (List.mem_map.mpr ⟨txin, htxin, rfl⟩) wtx₁ hlookup₁ (by rw [hvoutEq]; exact hrange)
  rw [hlookup] at hlookup₂
  cases hlookup₂
  refine ⟨hspent₂, ?_⟩
  rw [hdb, ← hrecord]

/-- A new transaction that is committed is in the wallet with its outputs. -/
theorem CommitTransaction_adds (hkept : WalletKept E w.mapWallet)
    (hnew : E.txHash wtxIn.toCTransaction ∉ w.mapWallet)
    (hcommitted : (E.CommitTransaction o fAccepted wtxIn reservekey w).fCommitted = true) :
    ∃ wtx, (E.CommitTransaction o fAccepted wtxIn reservekey w).wallet.mapWallet.lookup
      (E.txHash wtxIn.toCTransaction) = some wtx ∧ wtx.vout = wtxIn.vout := by
  obtain ⟨new, batch, s, hkept₁, hvoutNew, hstage, hwallet, _⟩ :=
    CommitTransaction_committed hkept hcommitted
  obtain ⟨_, hvout, _⟩ := stageCoins_spent hkept₁ hstage
  have hsame := hvout (E.txHash wtxIn.toCTransaction)
  rw [lookup_insert, map_some] at hsame
  obtain ⟨wtx, hlookup, heq⟩ := map_eq_some_iff.mp hsame
  exact ⟨wtx, by rw [hwallet, hlookup], heq.trans (hvoutNew hnew)⟩

/-- `CommitTransaction` does all or nothing. Where the batch does not commit, the wallet and its
database are as before, but for what the replacement of a default key that is paid has taken from
the key pool; the reserved key is still reserved, and nothing is sent. Where it commits, every
output that is spent is marked in memory and on disk. A transaction that the wallet knows
already must not refer to itself. -/
theorem commitTransaction_all_or_nothing (E : WalletCommitEnv) (o : BatchOutcome)
    (fAccepted : Bool) (wtxNew : WalletCoins) (reservekey : CReserveKey) (w : DurableWallet)
    (hkept : WalletKept E w.mapWallet)
    (hself : E.txHash wtxNew.toCTransaction ∈ w.mapWallet → ∀ txin ∈ wtxNew.vin,
      txin.prevout.hash ≠ E.txHash wtxNew.toCTransaction) :
    let r := E.CommitTransaction o fAccepted wtxNew reservekey w
    (r.fCommitted = false → (SameButKeyPool w r.wallet ∧
        r.wallet.keyPool = (E.selectDefaultKeyReplacements o wtxNew w.keyPool).2 ∧
        (E.fQtGui = true ∨ E.defaultKeyOutputs wtxNew w.keyPool = [] → r.wallet = w)) ∧
      r.reservekey = reservekey ∧ r.calls = []) ∧
    (r.fCommitted = true → ∀ txin ∈ wtxNew.vin, ∀ wtx,
      r.wallet.mapWallet.lookup txin.prevout.hash = some wtx →
      txin.prevout.n < wtx.vout.length → wtx.IsSpent txin.prevout.n = true ∧
        r.wallet.db.tx.lookup txin.prevout.hash = some wtx) := by
  constructor
  · intro hundone
    obtain ⟨hwallet, hkey, hcalls⟩ := CommitTransaction_eq_undone hkept hself hundone
    exact ⟨sameButKeyPool_select hwallet, hkey, hcalls⟩
  · intro hcommitted txin htxin wtx hlookup hrange
    exact CommitTransaction_spent hkept hcommitted htxin hlookup hrange

/-- The commit fails, and the record of the pool is gone from the database. -/
theorem commitTransaction_takes_key :
    (env.CommitTransaction { txnCommit := false } true payment
        ⟨none, []⟩ wallet).fCommitted = false ∧
      (env.CommitTransaction { txnCommit := false } true payment
        ⟨none, []⟩ wallet).wallet.keyPool.pool.lookup 1 ≠
      wallet.keyPool.pool.lookup 1 := by
  decide

/-- Where the write of the coin fails, the wallet and the reserved key are as before; where all
writes succeed, the coin is spent in memory and on disk. -/
theorem commitTransaction_spends_coin :
    ((env.CommitTransaction { write := fun n => n ≠ 2 } true spend
        ⟨some 2, [2]⟩ coinWallet).wallet = coinWallet ∧
      (env.CommitTransaction { write := fun n => n ≠ 2 } true spend
        ⟨some 2, [2]⟩ coinWallet).reservekey = ⟨some 2, [2]⟩) ∧
    (env.CommitTransaction {} true spend ⟨some 2, [2]⟩
      coinWallet).wallet.db.tx.lookup 1 =
        some { coin with vfSpent := [true] } := by
  have hself : env.txHash spend.toCTransaction ∈
      coinWallet.mapWallet → ∀ txin ∈ spend.vin,
        txin.prevout.hash ≠ env.txHash spend.toCTransaction :=
    fun _ => by decide
  constructor
  · obtain ⟨⟨_, _, hsame⟩, hkey, _⟩ := (commitTransaction_all_or_nothing env
      { write := fun n => n ≠ 2 } true spend ⟨some 2, [2]⟩ coinWallet
      coinWallet_kept hself).1 (by decide)
    exact ⟨hsame (Or.inr (by decide)), hkey⟩
  · exact ((commitTransaction_all_or_nothing env {} true spend
      ⟨some 2, [2]⟩ coinWallet coinWallet_kept hself).2 (by decide)
      ⟨⟨1, 0⟩, [], 0⟩ (by decide) { coin with vfSpent := [true] } (by decide)
      (by decide)).2

end Phoenixcoin.Analysis
