import Phoenixcoin.Analysis.ImportRollback
import Phoenixcoin.Analysis.WalletEffects

/-!
# Wallets under an aborted chain update

`ConnectBlock` tells the wallets about a block before its caller commits, and nothing takes that
back when the transaction is aborted. The wallets are left alone exactly when none of the
transactions that they were told about concerns them.
-/

set_option autoImplicit false

namespace Phoenixcoin.Analysis

open Lib Program

/-! ## Updates that are aborted -/

/-- What a call under a batch tells the wallets. -/
def batchCallEvents (env : NodeEnv) (state : Node × CChainImportBatch) : BatchCall → List ChainEvent
  | .add nFile nBlockPos block o =>
    addToBlockIndexEvents env o nFile nBlockPos block state.1 state.2
  | .addBytes _ => []

def batchEvents (env : NodeEnv) : Node × CChainImportBatch → List BatchCall → List ChainEvent
  | _, [] => []
  | state, call :: calls =>
    batchCallEvents env state call ++ batchEvents env (batchCall env state call) calls

/-- A database transaction of the chain that does not commit: a block that should extend the
best chain, a reorganisation, or the blocks of an import batch that is rolled back. -/
inductive AbortedUpdate (env : NodeEnv) where
  | extension (o : ChainOutcome) (n : Node) (pindexNew : uint256) (block : CBlock)
      (hparent : (n.chain.pprev pindexNew).isSome)
      (hfail : (setBestChainInner env o false n pindexNew block).1 = false)
  | reorganisation (o : ChainOutcome) (n : Node) (pindexNew : uint256)
      (hfail : reorganize env o n pindexNew = none)
  | importBatch (ok : Bool) (n n₀ : Node) (batch batch₀ : CChainImportBatch)
      (hbegin : batch.beginBatch ok n = (true, n₀, batch₀)) (calls : List BatchCall)

namespace AbortedUpdate

variable {env : NodeEnv}

def events : AbortedUpdate env → List ChainEvent
  | extension o n pindexNew block _ _ => setBestChainInnerEvents env o false n pindexNew block
  | reorganisation o n pindexNew _ => reorganizeEvents env o n pindexNew
  | importBatch _ _ n₀ _ batch₀ _ calls => batchEvents env (n₀, batch₀) calls

/-- The calls of `AddToWalletIfInvolvingMe` for one wallet during the update. -/
def calls (u : AbortedUpdate env) : List (CBlock × CTransaction) := syncCalls u.events

def blockHashes (u : AbortedUpdate env) : List uint256 :=
  u.calls.map fun call => env.blockHash call.1.toCBlockHeader

end AbortedUpdate

/-! ## The property -/

/-- From `t` to `t'` no transaction was added, none got one of the block hashes, and no output
became spent. -/
structure LeftAlone (blockHashes : List uint256) (t t' : CoinTable) : Prop where
  added : ∀ h, h ∈ t' → h ∈ t
  hashBlock : ∀ h wtx wtx', t.lookup h = some wtx → t'.lookup h = some wtx' →
    wtx'.hashBlock ∈ blockHashes → wtx'.hashBlock = wtx.hashBlock
  spent : ∀ h wtx wtx' n, t.lookup h = some wtx → t'.lookup h = some wtx' →
    wtx'.IsSpent n = true → wtx.IsSpent n = true

section Property

variable {blockHashes : List uint256} {t t₀ t' : CoinTable}

theorem SameCoins.leftAlone (h : SameCoins t t') : LeftAlone blockHashes t t' := by
  refine ⟨fun a ha => h.mem_iff.mp ha, fun a wtx wtx' hwtx hwtx' _ => ?_,
    fun a wtx wtx' n hwtx hwtx' hn => ?_⟩
  · obtain ⟨wtx1, hwtx1, -, hblock, -⟩ := h.lookup_some hwtx
    cases hwtx1.symm.trans hwtx'
    exact hblock
  · obtain ⟨wtx1, hwtx1, -, -, hspent⟩ := h.lookup_some hwtx
    cases hwtx1.symm.trans hwtx'
    rw [← hspent]
    exact hn

theorem LeftAlone.of_same (h : LeftAlone blockHashes t₀ t') (hsame : SameCoins t₀ t) :
    LeftAlone blockHashes t t' := by
  refine ⟨fun a ha => hsame.mem_iff.mpr (h.added a ha), fun a wtx wtx' hwtx hwtx' hmem => ?_,
    fun a wtx wtx' n hwtx hwtx' hn => ?_⟩
  · obtain ⟨wtx₀, hwtx₀, -, hblock, -⟩ := hsame.symm.lookup_some hwtx
    rw [h.hashBlock a wtx₀ wtx' hwtx₀ hwtx' hmem, hblock]
  · obtain ⟨wtx₀, hwtx₀, -, -, hspent⟩ := hsame.symm.lookup_some hwtx
    rw [← hspent]
    exact h.spent a wtx₀ wtx' n hwtx₀ hwtx' hn

end Property

/-! ## Transactions that concern the wallet -/

section Concerns

variable (E : WalletEnv) (outcomes : CBlock → CTransaction → AddToWalletOutcome)

def Involves (w : SyncedWallet) (tx : CTransaction) : Prop :=
  E.txHash tx ∈ w.mapWallet ∨ tx.vout.any E.isMine ∨ isFromMe E w.mapWallet tx

instance (w : SyncedWallet) (tx : CTransaction) : Decidable (Involves E w tx) :=
  inferInstanceAs (Decidable (_ ∨ _ ∨ _))

def involvedCoins (w : SyncedWallet) (call : CBlock × CTransaction) : List SpentCoin :=
  collectWalletSpentCoins E
    (prepareAddToWallet E (E.txHash call.2) (blockTx E call.1 call.2) w).1.mapWallet call.2

/-- A transaction that the wallet takes note of is new to it, was known with another block, or
spends an output that the wallet holds as unspent, and the wallet database takes the change. A
transaction that it takes no note of spends such an output. -/
def Concerns (w : SyncedWallet) (call : CBlock × CTransaction) : Prop :=
  if Involves E w call.2 then
    Written (outcomes call.1 call.2) (involvedCoins E w call) ∧
      (E.txHash call.2 ∉ w.mapWallet ∨
        (∃ wtx, w.mapWallet.lookup (E.txHash call.2) = some wtx ∧
          ReplacesBlock (E.blockHash call.1.toCBlockHeader) wtx.hashBlock) ∨
        involvedCoins E w call ≠ [])
  else collectWalletSpentCoins E w.mapWallet call.2 ≠ []

end Concerns

variable {E : WalletEnv} {outcomes : CBlock → CTransaction → AddToWalletOutcome}
  {w w' : SyncedWallet} {call : CBlock × CTransaction}

theorem involves_congr (h : SameCoins w.mapWallet w'.mapWallet) (tx : CTransaction) :
    Involves E w' tx ↔ Involves E w tx := by
  unfold Involves
  rw [h.mem_iff, h.isFromMe_eq]

theorem prepareAddToWallet_congr {hash : uint256} {wtxIn : WalletCoins}
    (hspent : wtxIn.vfSpent = []) (h : SameCoins w.mapWallet w'.mapWallet) :
    SameCoins (prepareAddToWallet E hash wtxIn w).1.mapWallet
      (prepareAddToWallet E hash wtxIn w').1.mapWallet := by
  cases hwtx : w.mapWallet.lookup hash with
  | none =>
    unfold prepareAddToWallet
    rw [hwtx, h.lookup_none hwtx]
    exact h.insert_insert rfl
  | some wtx =>
    obtain ⟨wtx', hwtx', hvout, hblock, hspent'⟩ := h.lookup_some hwtx
    obtain ⟨p, hp, hpvout, hpspent, hpblock, -⟩ :=
      @prepareAddToWallet_existing E hash wtxIn wtx w hwtx hspent
    obtain ⟨p', hp', hpvout', hpspent', hpblock', -⟩ :=
      @prepareAddToWallet_existing E hash wtxIn wtx' w' hwtx' hspent
    rw [hp, hp']
    refine h.insert_insert ?_
    unfold coinView
    rw [hpvout, hpvout', hpspent, hpspent', hpblock, hpblock', hvout, hspent', hblock]

theorem involvedCoins_congr (h : SameCoins w.mapWallet w'.mapWallet) :
    involvedCoins E w' call = involvedCoins E w call :=
  (prepareAddToWallet_congr (blockTx_spec call.1 call.2).2.2 h).collect_eq call.2

theorem Concerns.congr (h : SameCoins w.mapWallet w'.mapWallet)
    (hconcerns : Concerns E outcomes w' call) : Concerns E outcomes w call := by
  unfold Concerns at hconcerns ⊢
  simp only [involves_congr h, involvedCoins_congr h, h.collect_eq, h.mem_iff] at hconcerns
  split
  · next hinvolves =>
    rw [if_pos hinvolves] at hconcerns
    obtain ⟨hwritten, hnew | ⟨wtx', hwtx', hreplaces⟩ | hcoins⟩ := hconcerns
    · exact ⟨hwritten, .inl hnew⟩
    · obtain ⟨wtx, hwtx, -, hblock, -⟩ := h.symm.lookup_some hwtx'
      exact ⟨hwritten, .inr (.inl ⟨wtx, hwtx, hblock ▸ hreplaces⟩)⟩
    · exact ⟨hwritten, .inr (.inr hcoins)⟩
  · next hinvolves =>
    rw [if_neg hinvolves] at hconcerns
    exact hconcerns

/-! ## One call -/

theorem syncCall_involved (hinvolves : Involves E w call.2) :
    syncCall E outcomes w call =
      (addToWallet E (outcomes call.1 call.2) (blockTx E call.1 call.2) w).2 := by
  exact congrArg Prod.snd (if_pos hinvolves)

theorem syncCall_notInvolved (hinvolves : ¬ Involves E w call.2) :
    syncCall E outcomes w call = walletUpdateSpent E call.2 w := by
  exact congrArg Prod.snd (if_neg hinvolves)

theorem addToWallet_blockTx_cases (o : AddToWalletOutcome) (w : SyncedWallet)
    (call : CBlock × CTransaction) :
    ((prepareAddToWallet E (E.txHash call.2) (blockTx E call.1 call.2) w).2.2 = false ∧
      involvedCoins E w call = [] ∧ addToWallet E o (blockTx E call.1 call.2) w =
        (true, (prepareAddToWallet E (E.txHash call.2) (blockTx E call.1 call.2) w).1)) ∨
    (Written o (involvedCoins E w call) ∧
      (addToWallet E o (blockTx E call.1 call.2) w).2.mapWallet =
      (involvedCoins E w call).foldl markSpentCoin
        (prepareAddToWallet E (E.txHash call.2) (blockTx E call.1 call.2) w).1.mapWallet) ∨
    (¬ Written o (involvedCoins E w call) ∧
      SameCoins w.mapWallet (addToWallet E o (blockTx E call.1 call.2) w).2.mapWallet) := by
  have htx : (blockTx E call.1 call.2).toCTransaction = call.2 := (blockTx_spec _ _).1
  have hcases := @addToWallet_cases E o (blockTx E call.1 call.2) w _ _ rfl rfl
  rw [htx] at hcases
  rcases hcases with hclean | ⟨hwritten, hadd⟩ | ⟨hfailed, -, hsame⟩
  · exact .inl hclean
  · exact .inr (.inl ⟨hwritten, by rw [hadd]; rfl⟩)
  · exact .inr (.inr ⟨hfailed, hsame⟩)

theorem syncCall_same (hconcerns : ¬ Concerns E outcomes w call) :
    SameCoins w.mapWallet (syncCall E outcomes w call).mapWallet := by
  unfold Concerns at hconcerns
  by_cases hinvolves : Involves E w call.2
  · rw [if_pos hinvolves] at hconcerns
    rw [syncCall_involved hinvolves]
    -- Without a new transaction or block hash, preparing keeps the view.
    have hprepared : E.txHash call.2 ∈ w.mapWallet →
        (¬ ∃ wtx, w.mapWallet.lookup (E.txHash call.2) = some wtx ∧
          ReplacesBlock (E.blockHash call.1.toCBlockHeader) wtx.hashBlock) →
        SameCoins w.mapWallet
          (prepareAddToWallet E (E.txHash call.2) (blockTx E call.1 call.2) w).1.mapWallet := by
      intro hmem hreplaces
      obtain ⟨wtx, hwtx⟩ := Finmap.mem_iff.mp hmem
      obtain ⟨p, hp, hvout, hspent, hblock, -⟩ := @prepareAddToWallet_existing E _
        (blockTx E call.1 call.2) wtx w hwtx (blockTx_spec call.1 call.2).2.2
      rw [(blockTx_spec call.1 call.2).2.1, if_neg fun h => hreplaces ⟨wtx, hwtx, h⟩] at hblock
      rw [hp]
      refine SameCoins.insert hwtx ?_
      unfold coinView
      rw [hvout, hspent, hblock]
    rcases @addToWallet_blockTx_cases E (outcomes call.1 call.2) w call with
      ⟨hclean, -, hadd⟩ | ⟨hwritten, hadd⟩ | ⟨-, hsame⟩
    · rw [hadd]
      refine hprepared ?_ ?_
      · by_contra hnew
        obtain ⟨wtx, -, hneeded⟩ := @prepareAddToWallet_new E _ (blockTx E call.1 call.2) w
          (Finmap.lookup_eq_none.mpr hnew)
        cases hclean.symm.trans hneeded
      · rintro ⟨wtx, hwtx, hreplaces⟩
        obtain ⟨p, -, -, -, -, hneeded⟩ := @prepareAddToWallet_existing E _
          (blockTx E call.1 call.2) wtx w hwtx (blockTx_spec call.1 call.2).2.2
        rw [(blockTx_spec call.1 call.2).2.1] at hneeded
        cases hclean.symm.trans (hneeded hreplaces)
    · obtain ⟨hmem, hrest⟩ := not_or.mp fun h => hconcerns ⟨hwritten, h⟩
      obtain ⟨hreplaces, hcoins⟩ := not_or.mp hrest
      rw [hadd, not_not.mp hcoins]
      exact hprepared (not_not.mp hmem) hreplaces
    · exact hsame
  · rw [if_neg hinvolves, not_not] at hconcerns
    rw [syncCall_notInvolved hinvolves]
    unfold walletUpdateSpent
    rw [hconcerns]
    exact .refl _

/-- Preparing a transaction spends nothing. -/
theorem prepareAddToWallet_isSpent {hash h : uint256} {wtxIn wtx : WalletCoins}
    (hspent : wtxIn.vfSpent = []) (hmem : hash ∈ w.mapWallet)
    (hwtx : (prepareAddToWallet E hash wtxIn w).1.mapWallet.lookup h = some wtx) :
    ∃ wtx₀, w.mapWallet.lookup h = some wtx₀ ∧ wtx.IsSpent = wtx₀.IsSpent := by
  obtain ⟨e, he⟩ := Finmap.mem_iff.mp hmem
  obtain ⟨p, hp, -, hpspent, -⟩ := @prepareAddToWallet_existing E hash wtxIn e w he hspent
  rw [hp, Table.lookup_insert_ite] at hwtx
  split at hwtx
  · next heq =>
    cases hwtx
    exact ⟨e, heq ▸ he, hpspent⟩
  · exact ⟨wtx, hwtx, rfl⟩

theorem syncCall_breaks {blockHashes : List uint256}
    (hblock : E.blockHash call.1.toCBlockHeader ∈ blockHashes)
    (hconcerns : Concerns E outcomes w call) :
    ¬ LeftAlone blockHashes w.mapWallet (syncCall E outcomes w call).mapWallet := by
  intro halone
  unfold Concerns at hconcerns
  by_cases hinvolves : Involves E w call.2
  · rw [if_pos hinvolves] at hconcerns
    rw [syncCall_involved hinvolves] at halone
    obtain ⟨hwritten, hreason⟩ := hconcerns
    obtain ⟨-, hhash, hvfSpent⟩ := @blockTx_spec E call.1 call.2
    rcases @addToWallet_blockTx_cases E (outcomes call.1 call.2) w call with
      ⟨hclean, hcoins, -⟩ | ⟨-, hadd⟩ | ⟨hfailed, -⟩
    · rcases hreason with hnew | ⟨wtx, hwtx, hreplaces⟩ | hspends
      · obtain ⟨wtx, -, hneeded⟩ := @prepareAddToWallet_new E _ (blockTx E call.1 call.2) w
          (Finmap.lookup_eq_none.mpr hnew)
        cases hclean.symm.trans hneeded
      · obtain ⟨p, -, -, -, -, hneeded⟩ := @prepareAddToWallet_existing E _
          (blockTx E call.1 call.2) wtx w hwtx hvfSpent
        cases hclean.symm.trans (hneeded (hhash ▸ hreplaces))
      · exact hspends hcoins
    · rw [hadd] at halone
      have hmarked := markSpentCoins_moreSpent (involvedCoins E w call)
        (prepareAddToWallet E (E.txHash call.2) (blockTx E call.1 call.2) w).1.mapWallet
      by_cases hmem : E.txHash call.2 ∈ w.mapWallet
      · rcases hreason with hnew | ⟨wtx, hwtx, hreplaces⟩ | hspends
        · exact hnew hmem
        · obtain ⟨p, hp, -, -, hpblock, -⟩ := @prepareAddToWallet_existing E _
            (blockTx E call.1 call.2) wtx w hwtx hvfSpent
          rw [hhash, if_pos hreplaces] at hpblock
          obtain ⟨wtx', hwtx', -, hblock', -⟩ := hmarked.present (E.txHash call.2) p
            (by rw [hp, Finmap.lookup_insert])
          have hnow : wtx'.hashBlock = E.blockHash call.1.toCBlockHeader := hblock'.trans hpblock
          exact hreplaces.2
            (hnow.symm.trans (halone.hashBlock _ wtx wtx' hwtx hwtx' (hnow ▸ hblock)))
        · obtain ⟨h, wtx, wtx', n, hwtx, hwtx', hunspent, hspent⟩ :=
            markSpentCoins_newlySpent hspends
          obtain ⟨wtx₀, hwtx₀, hsame⟩ := prepareAddToWallet_isSpent hvfSpent hmem hwtx
          have hbefore := halone.spent h wtx₀ wtx' n hwtx₀ hwtx' hspent
          rw [← hsame, hunspent] at hbefore
          cases hbefore
      · obtain ⟨p, hp, -⟩ := @prepareAddToWallet_new E _ (blockTx E call.1 call.2) w
          (Finmap.lookup_eq_none.mpr hmem)
        obtain ⟨wtx', hwtx', -⟩ := hmarked.present (E.txHash call.2) p
          (by rw [hp, Finmap.lookup_insert])
        exact hmem (halone.added _ (Finmap.mem_iff.mpr ⟨wtx', hwtx'⟩))
    · exact hfailed hwritten
  · rw [if_neg hinvolves] at hconcerns
    rw [syncCall_notInvolved hinvolves] at halone
    obtain ⟨h, wtx, wtx', n, hwtx, hwtx', hunspent, hspent⟩ := markSpentCoins_newlySpent hconcerns
    have hbefore := halone.spent h wtx wtx' n hwtx hwtx' hspent
    rw [hunspent] at hbefore
    cases hbefore

/-! ## The whole update -/

/-- **Wallets under an aborted update.** From the start of the update to its end a wallet is left
alone exactly when no transaction of a block that was connected concerns the wallet as it was
before. -/
theorem abortedUpdate_leftAlone_iff (E : WalletEnv)
    (outcomes : CBlock → CTransaction → AddToWalletOutcome) (u : AbortedUpdate E.toNodeEnv)
    (w : SyncedWallet) :
    (∀ calls, calls <+: u.calls → LeftAlone u.blockHashes w.mapWallet
      (calls.foldl (syncCall E outcomes) w).mapWallet) ↔
    ∀ call ∈ u.calls, ¬ Concerns E outcomes w call := by
  have hrun := @foldl_prefixes_iff _ _ (syncCall E outcomes)
    (fun w' => SameCoins w.mapWallet w'.mapWallet)
    (fun w' => LeftAlone u.blockHashes w.mapWallet w'.mapWallet)
    (fun call => Concerns E outcomes w call) u.calls
    (fun w' hsame => hsame.leftAlone)
    (fun call _ w' hsame hconcerns =>
      hsame.trans (syncCall_same fun hconcerns' => hconcerns (hconcerns'.congr hsame)))
    (fun call hcall w' hsame hconcerns halone =>
      syncCall_breaks (List.mem_map.mpr ⟨call, hcall, rfl⟩) (hconcerns.congr hsame.symm)
        (halone.of_same hsame))
  exact hrun w (.refl _)

namespace SampleSync

/-- A wallet that owns every output. -/
def walletEnv : WalletEnv where
  toNodeEnv := SampleFork.forkEnv
  getMerkleBranch _ _ := []
  isMine _ := true
  nAdjustedTime := 0

/-- The best chain with the entry of a new block, in an open transaction. -/
def node : Node where
  chain :=
    { SampleFork.chain with
      mapBlockIndex := SampleFork.chain.mapBlockIndex.insert 11
        (newBlockIndex SampleFork.chain 11 1 10 (SampleBatch.block 10 2)) }
  txdb := { SampleFork.node.txdb with activeTxn := some SampleFork.node.txdb.stored }

def update : AbortedUpdate walletEnv.toNodeEnv :=
  .extension { txnCommit := fun _ => false } node 11 (SampleBatch.block 10 2) (by decide)
    (by decide)

end SampleSync

/-- The coinbase of a block whose commit fails has been added to an empty wallet. -/
theorem abortedUpdate_adds_coinBase :
    ¬ LeftAlone SampleSync.update.blockHashes ∅ (SampleSync.update.calls.foldl
      (syncCall SampleSync.walletEnv fun _ _ => {}) ⟨∅, 0⟩).mapWallet := by
  intro halone
  have hadded := halone.added 11 (by decide)
  exact absurd hadded (by decide)

end Phoenixcoin.Analysis
