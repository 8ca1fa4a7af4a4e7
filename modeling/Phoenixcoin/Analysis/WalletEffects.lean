import Phoenixcoin.Program.WalletSync

/-!
# What one transaction of a block does to a wallet

A wallet is seen through its transactions, their block hashes and their spent outputs. A failed
`AddToWallet` leaves this view as it was, and the transactions that change it are named.
-/

set_option autoImplicit false

namespace Phoenixcoin.Analysis

open Lib Program WalletCoins List Option Table

variable {E : WalletEnv} {o : AddToWalletOutcome}

/-! ## The view of a wallet -/

def coinView (wtx : WalletCoins) : List CTxOut × uint256 × (ℕ → Bool) :=
  (wtx.vout, wtx.hashBlock, wtx.IsSpent)

def SameCoins (t t' : CoinTable) : Prop :=
  ∀ h, (t'.lookup h).map coinView = (t.lookup h).map coinView

section View

variable {t t' t'' : CoinTable} {h : uint256} {wtx wtx' : WalletCoins}

theorem SameCoins.refl (t : CoinTable) : SameCoins t t := fun _ => rfl

section

variable (ht : SameCoins t t')
include ht

theorem SameCoins.symm : SameCoins t' t := fun h => (ht h).symm

theorem SameCoins.trans (ht' : SameCoins t' t'') : SameCoins t t'' :=
  fun h => (ht' h).trans (ht h)

theorem SameCoins.lookup_some (hwtx : t.lookup h = some wtx) :
    ∃ wtx', t'.lookup h = some wtx' ∧ wtx'.vout = wtx.vout ∧ wtx'.hashBlock = wtx.hashBlock ∧
      wtx'.IsSpent = wtx.IsSpent := by
  have hmap := ht h
  rw [hwtx] at hmap
  obtain ⟨wtx', hwtx', hview⟩ := map_eq_some_iff.mp hmap
  simp only [coinView, Prod.mk.injEq] at hview
  exact ⟨wtx', hwtx', hview⟩

theorem SameCoins.lookup_none (hnone : t.lookup h = none) : t'.lookup h = none := by
  have hmap := ht h
  rw [hnone] at hmap
  exact map_eq_none_iff.mp hmap

theorem SameCoins.mem_iff : h ∈ t' ↔ h ∈ t := by
  rw [← not_iff_not, ← Finmap.lookup_eq_none, ← Finmap.lookup_eq_none]
  exact ⟨ht.symm.lookup_none, ht.lookup_none⟩

end

theorem SameCoins.insert (hwtx : t.lookup h = some wtx) (hview : coinView wtx' = coinView wtx) :
    SameCoins t (t.insert h wtx') := by
  intro a
  rw [lookup_insert_ite]
  split
  · next heq => rw [heq, hwtx, map_some, map_some, hview]
  · rfl

theorem SameCoins.insert_insert (ht : SameCoins t t') (hview : coinView wtx' = coinView wtx) :
    SameCoins (t.insert h wtx) (t'.insert h wtx') := by
  intro a
  rw [lookup_insert_ite, lookup_insert_ite]
  split
  · rw [map_some, map_some, hview]
  · exact ht a

theorem SameCoins.getDebitIn_eq (ht : SameCoins t t') (txin : CTxIn) :
    getDebitIn E t' txin = getDebitIn E t txin := by
  unfold getDebitIn
  cases hprev : t.lookup txin.prevout.hash with
  | none => rw [ht.lookup_none hprev]
  | some prev =>
    obtain ⟨prev', hprev', hvout, -⟩ := ht.lookup_some hprev
    rw [hprev']
    dsimp only
    rw [hvout]

theorem SameCoins.isFromMe_eq (ht : SameCoins t t') (tx : CTransaction) :
    isFromMe E t' tx = isFromMe E t tx := by
  unfold isFromMe
  rw [show getDebitIn E t' = getDebitIn E t from funext ht.getDebitIn_eq]

theorem SameCoins.collect_eq (ht : SameCoins t t') (tx : CTransaction) :
    collectWalletSpentCoins E t' tx = collectWalletSpentCoins E t tx := by
  have hcoin : spentCoin E t' = spentCoin E t := by
    funext txin
    unfold spentCoin
    cases hprev : t.lookup txin.prevout.hash with
    | none => rw [ht.lookup_none hprev]
    | some prev =>
      obtain ⟨prev', hprev', hvout, -, hspent⟩ := ht.lookup_some hprev
      rw [hprev']
      dsimp only
      rw [hvout, hspent]
  unfold collectWalletSpentCoins
  rw [hcoin]

theorem mem_collect {tx : CTransaction} {coin : SpentCoin}
    (hcoin : coin ∈ collectWalletSpentCoins E t tx) :
    ∃ wtx, t.lookup coin.1 = some wtx ∧ coin.2 < wtx.vout.length ∧ wtx.IsSpent coin.2 = false := by
  obtain ⟨txin, -, hspent⟩ := mem_filterMap.mp hcoin
  unfold spentCoin at hspent
  split at hspent
  · next wtx hwtx =>
    split at hspent
    · next txout htxout =>
      split at hspent
      · next hmine =>
        cases hspent
        exact ⟨wtx, hwtx, (List.getElem?_eq_some_iff.mp htxout).1, Bool.eq_false_iff.mpr hmine.1⟩
      · cases hspent
    · cases hspent
  · cases hspent

end View

/-! ## Marking coins as spent -/

theorem isSpent_markSpent (nOut : ℕ) (wtx : WalletCoins) (n : ℕ) :
    (wtx.MarkSpent nOut).IsSpent n =
      (n < wtx.vout.length && (nOut = n || wtx.IsSpent n)) := by
  unfold IsSpent MarkSpent
  by_cases hn : n < wtx.vout.length
  · simp only [hn, decide_true, Bool.true_and, getD_eq_getElem?_getD, getElem?_set]
    by_cases heq : nOut = n
    · subst heq
      simp [hn]
    · rw [if_neg heq, getElem?_take_of_lt hn, getElem?_append]
      split
      · simp [heq]
      · next hlen =>
        rw [getElem?_eq_none (not_lt.mp hlen), getElem?_replicate]
        simp only [heq, decide_false, Bool.false_or]
        split <;> rfl
  · simp [hn]

/-- `t'` has the transactions of `t` with the same block hashes and perhaps more spent
outputs. -/
structure MoreSpent (t t' : CoinTable) : Prop where
  absent : ∀ h, t.lookup h = none → t'.lookup h = none
  present : ∀ h wtx, t.lookup h = some wtx → ∃ wtx', t'.lookup h = some wtx' ∧
    wtx'.vout = wtx.vout ∧ wtx'.hashBlock = wtx.hashBlock ∧
    ∀ n, wtx.IsSpent n = true → wtx'.IsSpent n = true

section Marking

variable {t t' t'' : CoinTable}

theorem MoreSpent.refl (t : CoinTable) : MoreSpent t t :=
  ⟨fun _ h => h, fun _ wtx h => ⟨wtx, h, rfl, rfl, fun _ hn => hn⟩⟩

theorem MoreSpent.trans (ht : MoreSpent t t') (ht' : MoreSpent t' t'') : MoreSpent t t'' := by
  refine ⟨fun h hnone => ht'.absent h (ht.absent h hnone), fun h wtx hwtx => ?_⟩
  obtain ⟨wtx', hwtx', hvout, hblock, hspent⟩ := ht.present h wtx hwtx
  obtain ⟨wtx'', hwtx'', hvout', hblock', hspent'⟩ := ht'.present h wtx' hwtx'
  exact ⟨wtx'', hwtx'', hvout'.trans hvout, hblock'.trans hblock,
    fun n hn => hspent' n (hspent n hn)⟩

theorem markSpentCoin_moreSpent (t : CoinTable) (coin : SpentCoin) :
    MoreSpent t (markSpentCoin t coin) := by
  unfold markSpentCoin
  split
  · next wtx hwtx =>
    refine ⟨fun h hnone => ?_, fun h wtx' hwtx' => ?_⟩
    · rw [lookup_insert_ite, if_neg, hnone]
      rintro rfl
      cases hnone.symm.trans hwtx
    · rw [lookup_insert_ite]
      split
      · next heq =>
        subst heq
        cases hwtx.symm.trans hwtx'
        refine ⟨_, rfl, rfl, rfl, fun n hn => ?_⟩
        have hbound : n < wtx.vout.length := by
          unfold IsSpent at hn
          simp only [Bool.and_eq_true, decide_eq_true_eq] at hn
          exact hn.1
        rw [isSpent_markSpent, hn]
        simp [hbound]
      · exact ⟨wtx', hwtx', rfl, rfl, fun _ hn => hn⟩
  · exact .refl t

theorem markSpentCoins_moreSpent (coins : List SpentCoin) (t : CoinTable) :
    MoreSpent t (coins.foldl markSpentCoin t) := by
  induction coins generalizing t with
  | nil => exact .refl t
  | cons coin coins ih => exact (markSpentCoin_moreSpent t coin).trans (ih _)

theorem markSpentCoin_isSpent {coin : SpentCoin} {wtx : WalletCoins}
    (hwtx : t.lookup coin.1 = some wtx) (hbound : coin.2 < wtx.vout.length) :
    ∃ wtx', (markSpentCoin t coin).lookup coin.1 = some wtx' ∧ wtx'.IsSpent coin.2 = true := by
  rw [markSpentCoin, hwtx]
  rw [Finmap.lookup_insert]
  refine ⟨_, rfl, ?_⟩
  rw [isSpent_markSpent]
  simp [hbound]

/-- When a coin has been collected, some output becomes spent. -/
theorem markSpentCoins_newlySpent {tx : CTransaction}
    (hcoins : collectWalletSpentCoins E t tx ≠ []) :
    ∃ h wtx wtx' n, t.lookup h = some wtx ∧
      ((collectWalletSpentCoins E t tx).foldl markSpentCoin t).lookup h = some wtx' ∧
      wtx.IsSpent n = false ∧ wtx'.IsSpent n = true := by
  obtain ⟨coin, coins, heq⟩ := exists_cons_of_ne_nil hcoins
  obtain ⟨wtx, hwtx, hbound, hunspent⟩ :=
    mem_collect (heq ▸ mem_cons_self : coin ∈ collectWalletSpentCoins E t tx)
  obtain ⟨wtx1, hwtx1, hspent1⟩ := markSpentCoin_isSpent hwtx hbound
  obtain ⟨wtx2, hwtx2, -, -, hspent2⟩ :=
    (markSpentCoins_moreSpent coins (markSpentCoin t coin)).present _ _ hwtx1
  refine ⟨coin.1, wtx, wtx2, coin.2, hwtx, ?_, hunspent, hspent2 _ hspent1⟩
  rw [heq]
  exact hwtx2

end Marking

/-! ## Staging coins and rolling back -/

/-- Coins that are all written are all marked. -/
theorem stageWalletSpentCoins_true {coins : List SpentCoin} {t : CoinTable} {undo : SpentUndo}
    (hmem : ∀ coin ∈ coins, coin.1 ∈ t) (hwrite : ∀ coin ∈ coins, o.writeCoin coin = true) :
    ∃ undo', stageWalletSpentCoins o coins t undo = (true, coins.foldl markSpentCoin t, undo') := by
  induction coins generalizing t undo with
  | nil => exact ⟨undo, rfl⟩
  | cons coin coins ih =>
    obtain ⟨wtx, hwtx⟩ := Finmap.mem_iff.mp (hmem coin mem_cons_self)
    rw [stageWalletSpentCoins, foldl_cons, markSpentCoin, hwtx]
    dsimp only
    rw [if_pos (hwrite coin mem_cons_self)]
    exact ih (fun c hc => Finmap.mem_insert.mpr (.inr (hmem c (mem_cons_of_mem _ hc))))
      fun c hc => hwrite c (mem_cons_of_mem _ hc)

theorem stageWalletSpentCoins_false {coins : List SpentCoin} {t : CoinTable} {undo : SpentUndo}
    (hmem : ∀ coin ∈ coins, coin.1 ∈ t) (hwrite : ¬ ∀ coin ∈ coins, o.writeCoin coin = true) :
    (stageWalletSpentCoins o coins t undo).1 = false := by
  induction coins generalizing t undo with
  | nil => exact absurd (fun c hc => absurd hc not_mem_nil) hwrite
  | cons coin coins ih =>
    obtain ⟨wtx, hwtx⟩ := Finmap.mem_iff.mp (hmem coin mem_cons_self)
    rw [stageWalletSpentCoins, hwtx]
    dsimp only
    split
    · next hok =>
      refine ih (fun c hc => Finmap.mem_insert.mpr (.inr (hmem c (mem_cons_of_mem _ hc))))
        fun hrest => hwrite fun c hc => ?_
      rcases mem_cons.mp hc with rfl | hc
      · exact hok
      · exact hrest c hc
    · rfl

/-- `t'` differs from `t` in spent flags, and `undo` holds the old flags. -/
structure Staged (t t' : CoinTable) (undo : SpentUndo) : Prop where
  flags : ∀ h, ∃ vfSpent, t'.lookup h = (t.lookup h).map fun wtx => { wtx with vfSpent := vfSpent }
  saved : ∀ h vfSpent, (h, vfSpent) ∈ undo → ∃ wtx, t.lookup h = some wtx ∧ wtx.vfSpent = vfSpent
  kept : ∀ h, h ∉ undo.map Prod.fst → t'.lookup h = t.lookup h

section Rollback

variable {t t' : CoinTable} {undo : SpentUndo}

theorem Staged.refl (t : CoinTable) : Staged t t [] := by
  refine ⟨fun h => ?_, fun h vfSpent hmem => absurd hmem not_mem_nil, fun _ _ => rfl⟩
  cases hwtx : t.lookup h with
  | none => exact ⟨[], rfl⟩
  | some wtx => exact ⟨wtx.vfSpent, rfl⟩

/-- New flags for a transaction whose old ones have been saved. -/
theorem Staged.setSpent {h : uint256} {wtx : WalletCoins} (vfSpent : List Bool)
    (hs : Staged t t' undo) (hwtx : t'.lookup h = some wtx) :
    Staged t (t'.insert h { wtx with vfSpent := vfSpent })
      (if undo.any fun item => item.1 = h then undo else undo ++ [(h, wtx.vfSpent)]) := by
  obtain ⟨vfOld, hold⟩ := hs.flags h
  rw [hwtx] at hold
  obtain ⟨wtx₀, hwtx₀, heq⟩ := map_eq_some_iff.mp hold.symm
  have hkeys : h ∈ (if undo.any fun item => item.1 = h then undo
      else undo ++ [(h, wtx.vfSpent)]).map Prod.fst := by
    split
    · next hany =>
      obtain ⟨item, hitem, hkey⟩ := List.any_eq_true.mp hany
      exact List.mem_map.mpr ⟨item, hitem, of_decide_eq_true hkey⟩
    · simp
  refine ⟨fun a => ?_, fun a vf ha => ?_, fun a ha => ?_⟩
  · rw [lookup_insert_ite]
    split
    · next hah =>
      subst hah heq
      exact ⟨vfSpent, by rw [hwtx₀, map_some]⟩
    · exact hs.flags a
  · split at ha
    · exact hs.saved a vf ha
    · next hany =>
      rcases mem_append.mp ha with ha | ha
      · exact hs.saved a vf ha
      · cases mem_singleton.mp ha
        have hnew : h ∉ undo.map Prod.fst := by
          intro hmem
          obtain ⟨item, hitem, hkey⟩ := List.mem_map.mp hmem
          exact hany (List.any_eq_true.mpr ⟨item, hitem, decide_eq_true hkey⟩)
        exact ⟨wtx, (hs.kept h hnew).symm.trans hwtx, rfl⟩
  · rw [lookup_insert_ite, if_neg]
    · refine hs.kept a fun hmem => ha ?_
      split
      · exact hmem
      · rw [map_append]
        exact mem_append_left _ hmem
    · rintro rfl
      exact ha hkeys

theorem stageWalletSpentCoins_staged {coins : List SpentCoin} (hs : Staged t t' undo) :
    Staged t (stageWalletSpentCoins o coins t' undo).2.1
      (stageWalletSpentCoins o coins t' undo).2.2 := by
  induction coins generalizing t' undo with
  | nil => exact hs
  | cons coin coins ih =>
    rw [stageWalletSpentCoins]
    split
    · exact ih hs
    · next wtx hwtx =>
      dsimp only
      split
      · exact ih (hs.setSpent _ hwtx)
      · exact hs.setSpent _ hwtx

/-- Rolling back restores every transaction. -/
theorem Staged.rollback (hs : Staged t t' undo) (h : uint256) :
    (rollbackSpentCoins undo t').lookup h = t.lookup h := by
  induction undo generalizing t' with
  | nil => exact hs.kept h not_mem_nil
  | cons item undo ih =>
    obtain ⟨a, vfSpent⟩ := item
    obtain ⟨wtx, hwtx, hsaved⟩ := hs.saved a vfSpent mem_cons_self
    obtain ⟨vf, hflags⟩ := hs.flags a
    rw [hwtx, map_some] at hflags
    have hstep : rollbackSpentCoins ((a, vfSpent) :: undo) t' =
        rollbackSpentCoins undo (t'.insert a wtx) := by
      unfold rollbackSpentCoins
      rw [foldl_cons, hflags]
      rw [← hsaved]
    rw [hstep]
    refine ih ⟨fun b => ?_, fun b vf' hb => hs.saved b vf' (mem_cons_of_mem _ hb), fun b hb => ?_⟩
    · rw [lookup_insert_ite]
      split
      · next heq => exact ⟨wtx.vfSpent, by rw [heq, hwtx]; rfl⟩
      · exact hs.flags b
    · rw [lookup_insert_ite]
      split
      · next heq => rw [heq, hwtx]
      · next hne =>
        refine hs.kept b fun hmem => ?_
        rcases mem_cons.mp hmem with heq | hmem
        · exact hne heq
        · exact hb hmem

end Rollback

/-! ## AddToWallet -/

def blockTx (E : WalletEnv) (block : CBlock) (tx : CTransaction) : WalletCoins :=
  (ofTransaction tx).setMerkleBranch E block

theorem blockTx_spec (block : CBlock) (tx : CTransaction) :
    (blockTx E block tx).toCTransaction = tx ∧
      (blockTx E block tx).hashBlock = E.blockHash block.toCBlockHeader ∧
      (blockTx E block tx).vfSpent = [] := by
  unfold blockTx setMerkleBranch
  split <;> exact ⟨rfl, rfl, rfl⟩

section AddToWallet

variable {hash : uint256} {wtxIn wtx : WalletCoins} {w : SyncedWallet}

def ReplacesBlock (hashBlock hashOld : uint256) : Prop := hashBlock ≠ 0 ∧ hashBlock ≠ hashOld

instance (hashBlock hashOld : uint256) : Decidable (ReplacesBlock hashBlock hashOld) :=
  inferInstanceAs (Decidable (_ ∧ _))

theorem prepareAddToWallet_new (hnone : w.mapWallet.lookup hash = none) :
    ∃ wtx, (prepareAddToWallet E hash wtxIn w).1.mapWallet = w.mapWallet.insert hash wtx ∧
      (prepareAddToWallet E hash wtxIn w).2.2 = true := by
  rw [prepareAddToWallet, hnone]
  exact ⟨_, rfl, rfl⟩

theorem prepareAddToWallet_existing (hwtx : w.mapWallet.lookup hash = some wtx)
    (hspent : wtxIn.vfSpent = []) :
    ∃ wtx', (prepareAddToWallet E hash wtxIn w).1.mapWallet = w.mapWallet.insert hash wtx' ∧
      wtx'.vout = wtx.vout ∧ wtx'.IsSpent = wtx.IsSpent ∧
      wtx'.hashBlock =
        (if ReplacesBlock wtxIn.hashBlock wtx.hashBlock then wtxIn.hashBlock else wtx.hashBlock) ∧
      (ReplacesBlock wtxIn.hashBlock wtx.hashBlock →
        (prepareAddToWallet E hash wtxIn w).2.2 = true) := by
  rw [prepareAddToWallet, hwtx]
  refine ⟨_, rfl, rfl, ?_, rfl, fun hreplaces => ?_⟩
  · unfold WalletCoins.IsSpent WalletCoins.merge
    rw [hspent]
    rfl
  · exact decide_eq_true (.inl hreplaces)

def Written (o : AddToWalletOutcome) (coins : List SpentCoin) : Prop :=
  o.txnBegin = true ∧ o.writePrepared = true ∧ (∀ coin ∈ coins, o.writeCoin coin = true) ∧
    o.txnCommit = true

/-- `RollbackAddToWallet` gives the wallet back that `PrepareAddToWallet` saw. -/
theorem rollbackAddToWallet_same {w' : SyncedWallet}
    (hw' : ∀ h, w'.mapWallet.lookup h = (prepareAddToWallet E hash wtxIn w).1.mapWallet.lookup h) :
    SameCoins w.mapWallet (rollbackAddToWallet hash w w').mapWallet := by
  intro a
  unfold rollbackAddToWallet
  cases hwtx : w.mapWallet.lookup hash with
  | none =>
    obtain ⟨wtx, hinsert, -⟩ := @prepareAddToWallet_new E hash wtxIn w hwtx
    rw [lookup_erase_ite, hw', hinsert, lookup_insert_ite]
    split
    · next heq => rw [heq, hwtx]
    · rfl
  | some wtx =>
    have hprepared : ∃ wtx', (prepareAddToWallet E hash wtxIn w).1.mapWallet =
        w.mapWallet.insert hash wtx' := by
      rw [prepareAddToWallet, hwtx]
      exact ⟨_, rfl⟩
    obtain ⟨wtx', hinsert⟩ := hprepared
    rw [hw', hinsert, Finmap.lookup_insert]
    rw [lookup_insert_ite, hw', hinsert, lookup_insert_ite]
    split
    · next heq =>
      rw [heq, hwtx]
      rfl
    · rfl

/-- The three ways in which `AddToWallet` ends: nothing to write, everything written, or rolled
back. -/
theorem addToWallet_cases {prepared : SyncedWallet × Bool × Bool} {coins : List SpentCoin}
    (hprepared : prepareAddToWallet E (E.txHash wtxIn.toCTransaction) wtxIn w = prepared)
    (hcoins : collectWalletSpentCoins E prepared.1.mapWallet wtxIn.toCTransaction = coins) :
    (prepared.2.2 = false ∧ coins = [] ∧ addToWallet E o wtxIn w = (true, prepared.1)) ∨
    (Written o coins ∧ addToWallet E o wtxIn w =
      (true, { prepared.1 with mapWallet := coins.foldl markSpentCoin prepared.1.mapWallet })) ∨
    (¬ Written o coins ∧ (addToWallet E o wtxIn w).1 = false ∧
      SameCoins w.mapWallet (addToWallet E o wtxIn w).2.mapWallet) := by
  have hmem : ∀ coin ∈ coins, coin.1 ∈ prepared.1.mapWallet := by
    intro coin hcoin
    obtain ⟨wtx, hwtx, -⟩ := mem_collect (hcoins ▸ hcoin)
    exact Finmap.mem_iff.mpr ⟨wtx, hwtx⟩
  unfold addToWallet
  dsimp only
  rw [hprepared, hcoins]
  by_cases hneeded : prepared.2.2 = true ∨ coins ≠ []
  · rw [if_pos hneeded]
    by_cases hbegin : o.txnBegin = true ∧ o.writePrepared = true
    · rw [if_neg (by simp [hbegin.1, hbegin.2])]
      by_cases hwrite : ∀ coin ∈ coins, o.writeCoin coin = true
      · obtain ⟨undo, hstaged⟩ := @stageWalletSpentCoins_true o coins _ [] hmem hwrite
        rw [hstaged]
        by_cases hcommit : o.txnCommit = true
        · rw [if_neg (by simp [hcommit])]
          exact .inr (.inl ⟨⟨hbegin.1, hbegin.2, hwrite, hcommit⟩, rfl⟩)
        · rw [if_pos (.inr hcommit)]
          refine .inr (.inr ⟨fun hwritten => hcommit hwritten.2.2.2, rfl, ?_⟩)
          have hrolled := @stageWalletSpentCoins_staged o _ _ _ coins (.refl prepared.1.mapWallet)
          rw [hstaged] at hrolled
          exact rollbackAddToWallet_same fun h => by rw [hprepared, hrolled.rollback h]
      · rw [if_pos (.inl (by simp [stageWalletSpentCoins_false hmem hwrite]))]
        refine .inr (.inr ⟨fun hwritten => hwrite hwritten.2.2.1, rfl, ?_⟩)
        have hrolled := @stageWalletSpentCoins_staged o _ _ _ coins (.refl prepared.1.mapWallet)
        exact rollbackAddToWallet_same fun h => by rw [hprepared, hrolled.rollback h]
    · have hfail : ¬ o.txnBegin = true ∨ ¬ o.writePrepared = true := not_and_or.mp hbegin
      rw [if_pos hfail]
      refine .inr (.inr ⟨fun hwritten => hbegin ⟨hwritten.1, hwritten.2.1⟩, rfl, ?_⟩)
      exact rollbackAddToWallet_same fun h => by rw [hprepared]
  · rw [if_neg hneeded]
    obtain ⟨hclean, hnone⟩ := not_or.mp hneeded
    exact .inl ⟨Bool.eq_false_iff.mpr hclean, not_not.mp hnone, rfl⟩

end AddToWallet

end Phoenixcoin.Analysis
