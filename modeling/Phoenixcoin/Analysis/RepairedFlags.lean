import Phoenixcoin.Analysis.AbortedUpdates
import Phoenixcoin.Analysis.ZappedFlags
import Phoenixcoin.Lib.Loop
import Phoenixcoin.Program.Reaccept

/-!
# Repaired flags

`ReacceptWalletTransactions` ends, since every further round needs a transaction that was not in
the wallet. What its last round leaves unmarked is read off the wallet before that round: outputs
of a coinbase that is passed over because its first output is marked, and outputs that only a
wallet transaction outside the chain spends. There are none of these if the given wallet, the index
and the blocks give no cause for them.
-/

set_option autoImplicit false

namespace Phoenixcoin.Analysis

open Lib Program WalletCoins List Finmap SampleSync Table

/-! ## Marked outputs -/

def Marked (t : CoinTable) (coin : SpentCoin) : Prop :=
  ∃ wtx, t.lookup coin.1 = some wtx ∧ wtx.IsSpent coin.2 = true

/-- An output of a wallet transaction that `IsMine` recognises. -/
def IsOwn (E : WalletEnv) (t : CoinTable) (coin : SpentCoin) : Prop :=
  ∃ wtx txout, t.lookup coin.1 = some wtx ∧ wtx.vout[coin.2]? = some txout ∧ E.isMine txout = true

def SpendsCoin (tx : CTransaction) (coin : SpentCoin) : Prop :=
  ∃ txin ∈ tx.vin, txin.prevout = ⟨coin.1, coin.2⟩

section Marks

variable {E : WalletEnv} {t t' : CoinTable} {c coin : SpentCoin}

variable {hash : uint256} {wtx : WalletCoins} {coins : List SpentCoin} {tx : CTransaction}

theorem SameTxs.exists_lookup (h : SameTxs t t') (hwtx : t.lookup hash = some wtx) :
    ∃ wtx', t'.lookup hash = some wtx' ∧ wtx'.toCWalletTx = wtx.toCWalletTx := by
  have hmap := h hash
  rw [hwtx] at hmap
  exact Option.map_eq_some_iff.mp hmap.symm

theorem SameTxs.symm (h : SameTxs t t') : SameTxs t' t := fun hash => (h hash).symm

theorem SameTxs.isOwn_iff (h : SameTxs t t') : IsOwn E t' coin ↔ IsOwn E t coin := by
  have hmono {a b : CoinTable} (hab : SameTxs a b) (hown : IsOwn E a coin) : IsOwn E b coin := by
    obtain ⟨wtx, txout, hwtx, hout, hmine⟩ := hown
    obtain ⟨wtx', hwtx', htx⟩ := hab.exists_lookup hwtx
    exact ⟨wtx', txout, hwtx', by rw [htx]; exact hout, hmine⟩
  exact ⟨hmono h.symm, hmono h⟩

theorem SameTxs.mem_iff (h : SameTxs t t') (hash : uint256) : hash ∈ t' ↔ hash ∈ t := by
  rw [← lookup_isSome, ← lookup_isSome]
  exact (h.isSome hash).symm

theorem lookup_markSpentCoin (hash : uint256) :
    (markSpentCoin t coin).lookup hash =
      if hash = coin.1 then (t.lookup hash).map (MarkSpent coin.2)
      else t.lookup hash := by
  unfold markSpentCoin
  split
  · next wtx hwtx =>
    rw [lookup_insert_ite]
    split
    · next heq => rw [heq, hwtx, Option.map_some]
    · rfl
  · next hnone =>
    split
    · next heq => rw [heq, hnone, Option.map_none]
    · rfl

theorem sameTxs_markSpentCoin (t : CoinTable) (coin : SpentCoin) :
    SameTxs t (markSpentCoin t coin) := by
  intro hash
  rw [lookup_markSpentCoin]
  split
  · cases t.lookup hash <;> rfl
  · rfl

theorem sameTxs_markSpentCoins (coins : List SpentCoin) (t : CoinTable) :
    SameTxs t (coins.foldl markSpentCoin t) := by
  induction coins generalizing t with
  | nil => exact .refl t
  | cons coin coins ih => exact (sameTxs_markSpentCoin t coin).trans (ih _)

theorem isSpent_length {n : ℕ} (h : wtx.IsSpent n = true) : n < wtx.vout.length := by
  unfold IsSpent at h
  simp only [Bool.and_eq_true, decide_eq_true_eq] at h
  exact h.1

theorem Marked.markSpentCoins (h : Marked t c) (coins : List SpentCoin) :
    Marked (coins.foldl markSpentCoin t) c := by
  induction coins generalizing t with
  | nil => exact h
  | cons coin coins ih =>
    apply ih
    obtain ⟨wtx, hwtx, hspent⟩ := h
    rw [Marked, lookup_markSpentCoin, hwtx]
    split
    · refine ⟨_, rfl, ?_⟩
      rw [isSpent_markSpent, hspent, Bool.or_true, Bool.and_true, decide_eq_true_eq]
      exact isSpent_length hspent
    · exact ⟨wtx, rfl, hspent⟩

theorem marked_markSpentCoin (hown : IsOwn E t coin) :
    Marked (markSpentCoin t coin) c ↔ Marked t c ∨ c = coin := by
  obtain ⟨wtx, txout, hwtx, hout, -⟩ := hown
  have hbound : coin.2 < wtx.vout.length := (List.getElem?_eq_some_iff.mp hout).1
  unfold Marked
  rw [lookup_markSpentCoin]
  split
  · next heq =>
    rw [heq, hwtx]
    simp only [Option.map_some, Option.some.injEq, exists_eq_left', isSpent_markSpent]
    rw [Prod.ext_iff, and_iff_right heq, Bool.and_eq_true, Bool.or_eq_true, decide_eq_true_eq,
      decide_eq_true_eq]
    constructor
    · rintro ⟨-, hsame | hspent⟩
      · exact Or.inr hsame.symm
      · exact Or.inl hspent
    · rintro (hspent | hsame)
      · exact ⟨isSpent_length hspent, Or.inr hspent⟩
      · rw [hsame]
        exact ⟨hbound, Or.inl rfl⟩
  · next hne =>
    rw [or_iff_left]
    rintro rfl
    exact hne rfl

theorem marked_markSpentCoins (hown : ∀ coin ∈ coins, IsOwn E t coin) :
    Marked (coins.foldl markSpentCoin t) c ↔ Marked t c ∨ c ∈ coins := by
  induction coins generalizing t with
  | nil => simp
  | cons coin coins ih =>
    rw [forall_mem_cons] at hown
    have hrest : ∀ coin' ∈ coins, IsOwn E (markSpentCoin t coin) coin' := fun coin' hmem =>
      (sameTxs_markSpentCoin t coin).isOwn_iff.mpr (hown.2 coin' hmem)
    rw [foldl_cons, ih hrest, marked_markSpentCoin hown.1, mem_cons, or_assoc]

/-- The coins that `CollectWalletSpentCoins` collects. -/
theorem spentCoin_eq_some {txin : CTxIn} :
    spentCoin E t txin = some coin ↔
      IsOwn E t coin ∧ ¬ Marked t coin ∧ txin.prevout = ⟨coin.1, coin.2⟩ := by
  unfold spentCoin IsOwn Marked
  constructor
  · intro h
    split at h
    · next wtx hwtx =>
      split at h
      · next txout hout =>
        split at h
        · next hfree =>
          cases h
          refine ⟨⟨wtx, txout, hwtx, hout, hfree.2⟩, ?_, rfl⟩
          rintro ⟨wtx', hwtx', hspent⟩
          cases hwtx.symm.trans hwtx'
          exact hfree.1 hspent
        · cases h
      · cases h
    · cases h
  · rintro ⟨⟨wtx, txout, hwtx, hout, hmine⟩, hfree, hprevout⟩
    have hnot : ¬ wtx.IsSpent coin.2 = true := fun hspent => hfree ⟨wtx, hwtx, hspent⟩
    rw [hprevout]
    simp [hwtx, hout, hnot, hmine]

theorem mem_collect_iff :
    coin ∈ collectWalletSpentCoins E t tx ↔
      IsOwn E t coin ∧ ¬ Marked t coin ∧ SpendsCoin tx coin := by
  rw [collectWalletSpentCoins, SpendsCoin, mem_filterMap]
  simp only [spentCoin_eq_some]
  constructor
  · rintro ⟨txin, hmem, hown, hfree, hprevout⟩
    exact ⟨hown, hfree, txin, hmem, hprevout⟩
  · rintro ⟨hown, hfree, txin, hmem, hprevout⟩
    exact ⟨txin, hmem, hown, hfree, hprevout⟩

theorem marked_collected :
    Marked ((collectWalletSpentCoins E t tx).foldl markSpentCoin t) c ↔
      Marked t c ∨ IsOwn E t c ∧ SpendsCoin tx c := by
  rw [marked_markSpentCoins fun coin hcoin => (mem_collect_iff.mp hcoin).1, mem_collect_iff]
  by_cases hmarked : Marked t c
  · simp [hmarked]
  · simp [hmarked]

theorem lookup_markSpentCoins_of_notMem (h : hash ∉ coins.map Prod.fst) :
    (coins.foldl markSpentCoin t).lookup hash = t.lookup hash := by
  induction coins generalizing t with
  | nil => rfl
  | cons coin coins ih =>
    rw [map_cons, mem_cons, not_or] at h
    rw [foldl_cons, ih h.2, lookup_markSpentCoin, if_neg h.1]

end Marks

/-! ## The records of the database -/

def InDatabase (st : ReacceptState) : Prop :=
  ∀ hash wtx, st.mapWallet.lookup hash = some wtx → st.tx.lookup hash = some wtx

/-- Every access to the database succeeds. -/
structure AllSucceed (o : ReacceptOutcome) : Prop where
  writeTx : ∀ n, o.writeTx n = true
  addToWallet : ∀ n coins, Written (o.addToWallet n) coins

section Writes

variable {E : WalletEnv} {o : ReacceptOutcome} {st st' : ReacceptState}

theorem inDatabase_insert {hash : uint256} {wtx : WalletCoins} (hdb : InDatabase st)
    (hmap : st'.mapWallet = st.mapWallet.insert hash wtx)
    (htx : st'.tx = st.tx.insert hash wtx) : InDatabase st' := by
  intro hash' wtx' hwtx'
  rw [hmap, lookup_insert_ite] at hwtx'
  rw [htx, lookup_insert_ite]
  split
  · next heq => rwa [if_pos heq] at hwtx'
  · next hne =>
    rw [if_neg hne] at hwtx'
    exact hdb hash' wtx' hwtx'

theorem markAndWrite_mapWallet (spent : SpentCoin) :
    (markAndWrite o st spent).mapWallet = markSpentCoin st.mapWallet spent := by
  unfold markAndWrite markSpentCoin
  cases st.mapWallet.lookup spent.1 <;> rfl

theorem markAndWrite_inDatabase (ho : AllSucceed o) (hdb : InDatabase st) (spent : SpentCoin) :
    InDatabase (markAndWrite o st spent) := by
  unfold markAndWrite
  split
  · exact hdb
  · exact inDatabase_insert hdb rfl (if_pos (ho.writeTx _))

theorem markAllAndWrite (ho : AllSucceed o) (coins : List SpentCoin) (st : ReacceptState) :
    (coins.foldl (markAndWrite o) st).mapWallet = coins.foldl markSpentCoin st.mapWallet ∧
      (InDatabase st → InDatabase (coins.foldl (markAndWrite o) st)) := by
  induction coins generalizing st with
  | nil => exact ⟨rfl, id⟩
  | cons coin coins ih =>
    rw [foldl_cons, foldl_cons, ← markAndWrite_mapWallet (o := o)]
    exact ⟨(ih _).1, fun hdb => (ih _).2 (markAndWrite_inDatabase ho hdb coin)⟩

/-! ## The first pass over the wallet -/

def KeepsTxs (st st' : ReacceptState) : Prop :=
  SameTxs st.mapWallet st'.mapWallet ∧ (InDatabase st → InDatabase st')

theorem KeepsTxs.refl (st : ReacceptState) : KeepsTxs st st := ⟨.refl _, id⟩

theorem KeepsTxs.trans {st'' : ReacceptState} (h : KeepsTxs st st') (h' : KeepsTxs st' st'') :
    KeepsTxs st st'' :=
  ⟨h.1.trans h'.1, h'.2 ∘ h.2⟩

theorem keepsTxs_markAndWrite (ho : AllSucceed o) (st : ReacceptState) (spent : SpentCoin) :
    KeepsTxs st (markAndWrite o st spent) := by
  refine ⟨?_, fun hdb => markAndWrite_inDatabase ho hdb spent⟩
  rw [markAndWrite_mapWallet]
  exact sameTxs_markSpentCoin _ spent

def WalletSpends (t : CoinTable) (coin : SpentCoin) : Prop :=
  ∃ hash wtx, t.lookup hash = some wtx ∧ SpendsCoin wtx.toCTransaction coin

/-- The repair has marked the own outputs that `p` selects, and nothing else has changed. -/
def Repairs (E : WalletEnv) (p : SpentCoin → Prop) (st st' : ReacceptState) : Prop :=
  KeepsTxs st st' ∧ ∀ coin,
    Marked st'.mapWallet coin ↔ Marked st.mapWallet coin ∨ IsOwn E st.mapWallet coin ∧ p coin

theorem Repairs.foldl {A : Type} {f : ReacceptState → A → ReacceptState}
    {p : A → SpentCoin → Prop} {st₀ : ReacceptState}
    (hf : ∀ st a, KeepsTxs st₀ st → Repairs E (p a) st (f st a)) (l : List A) :
    ∀ st, KeepsTxs st₀ st → Repairs E (fun coin => ∃ a ∈ l, p a coin) st (l.foldl f st) := by
  induction l with
  | nil => exact fun st _ => ⟨.refl st, by simp⟩
  | cons a l ih =>
    intro st hst
    obtain ⟨hkeeps, hmarked⟩ := hf st a hst
    obtain ⟨hkeeps', hmarked'⟩ := ih (f st a) (hst.trans hkeeps)
    refine ⟨hkeeps.trans hkeeps', fun coin => ?_⟩
    rw [foldl_cons, hmarked', hmarked, hkeeps.1.isOwn_iff, or_assoc, ← and_or_left]
    simp

theorem repairs_input (ho : AllSucceed o) (st : ReacceptState) (txin : CTxIn) :
    Repairs E (fun coin => txin.prevout = ⟨coin.1, coin.2⟩) st
      ((spentCoin E st.mapWallet txin).elim st (markAndWrite o st)) := by
  cases hcoin : spentCoin E st.mapWallet txin with
  | none =>
    refine ⟨.refl st, fun coin => (or_iff_left_of_imp ?_).symm⟩
    rintro ⟨hown, hprevout⟩
    by_contra hfree
    cases hcoin.symm.trans (spentCoin_eq_some.mpr ⟨hown, hfree, hprevout⟩)
  | some coin =>
    obtain ⟨hown, -, hprevout⟩ := spentCoin_eq_some.mp hcoin
    refine ⟨keepsTxs_markAndWrite ho st coin, fun coin' => ?_⟩
    rw [Option.elim_some, markAndWrite_mapWallet, marked_markSpentCoin hown, hprevout]
    apply or_congr_right
    constructor
    · rintro rfl
      exact ⟨hown, rfl⟩
    · rintro ⟨-, hsame⟩
      obtain ⟨hhash, hn⟩ := COutPoint.mk.inj hsame
      exact Prod.ext hhash.symm hn.symm

/-- The repair marks the own outputs that a wallet transaction spends. -/
theorem repairs_repairSpent (ho : AllSucceed o) (st : ReacceptState) :
    Repairs E (WalletSpends st.mapWallet) st (repairSpent E o st) := by
  have htx (st₁ : ReacceptState) (hash : uint256) (hst₁ : KeepsTxs st st₁) :
      Repairs E (fun coin => ∃ wtx, st.mapWallet.lookup hash = some wtx ∧
        SpendsCoin wtx.toCTransaction coin) st₁ (repairTx E o st₁ hash) := by
    unfold repairTx
    split
    · next hnone =>
      refine ⟨.refl st₁, fun coin => (or_iff_left ?_).symm⟩
      rintro ⟨-, wtx, hwtx, -⟩
      obtain ⟨wtx₁, hwtx₁, -⟩ := hst₁.1.exists_lookup hwtx
      cases hnone.symm.trans hwtx₁
    · next wtx₁ hwtx₁ =>
      obtain ⟨wtx, hwtx, hsame⟩ := hst₁.1.symm.exists_lookup hwtx₁
      obtain ⟨hkeeps, hmarked⟩ := Repairs.foldl (E := E)
        (fun st txin (_ : KeepsTxs st₁ st) => repairs_input ho st txin) wtx₁.vin st₁ (.refl st₁)
      refine ⟨hkeeps, fun coin => ?_⟩
      rw [hmarked]
      simp [hwtx, SpendsCoin, hsame]
  obtain ⟨hkeeps, hmarked⟩ := Repairs.foldl htx (sortedKeys st.mapWallet) st (.refl st)
  refine ⟨hkeeps, fun coin => ?_⟩
  rw [repairSpent, hmarked]
  apply or_congr_right
  apply and_congr_right
  intro _
  constructor
  · rintro ⟨hash, -, wtx, hwtx, hspends⟩
    exact ⟨hash, wtx, hwtx, hspends⟩
  · rintro ⟨hash, wtx, hwtx, hspends⟩
    exact ⟨hash, mem_sortedKeys.mpr (Option.isSome_of_eq_some hwtx), wtx, hwtx, hspends⟩

end Writes

/-! ## One transaction and its entry in the index -/

/-- The index knows that the output is spent, by a transaction at the position. -/
def IndexSpends (index : TxIndexTable) (coin : SpentCoin) (pos : CDiskTxPos) : Prop :=
  ∃ txindex, index.lookup coin.1 = some txindex ∧ txindex.vSpent[coin.2]? = some pos ∧ ¬ pos.IsNull

/-- The transaction is a coinbase whose first output is marked, so the index is not looked at. -/
def Skipped (t : CoinTable) (hash : uint256) : Prop :=
  (∃ wtx, t.lookup hash = some wtx ∧ wtx.IsCoinBase) ∧ Marked t (hash, 0)

section IndexEntry

variable {E : WalletEnv} {txindex : CTxIndex} {acc : WalletCoins × List CDiskTxPos}

/-- The entry says that an own output is spent at the position. -/
def EntrySpends (E : WalletEnv) (txindex : CTxIndex) (wtx : WalletCoins) (i : ℕ)
    (pos : CDiskTxPos) : Prop :=
  txindex.vSpent[i]? = some pos ∧ ¬ pos.IsNull ∧
    ∃ txout, wtx.vout[i]? = some txout ∧ E.isMine txout = true

variable {wtx : WalletCoins}

theorem entrySpends_congr {wtx' : WalletCoins} (h : wtx'.toCWalletTx = wtx.toCWalletTx) (i : ℕ)
    (pos : CDiskTxPos) :
    EntrySpends E txindex wtx' i pos ↔ EntrySpends E txindex wtx i pos := by
  unfold EntrySpends
  rw [h]

theorem isSpent_of_markSpent {txout : CTxOut} {i k : ℕ} (hout : wtx.vout[i]? = some txout) :
    (wtx.MarkSpent i).IsSpent k = true ↔ wtx.IsSpent k = true ∨ k = i := by
  have hbound : i < wtx.vout.length := (List.getElem?_eq_some_iff.mp hout).1
  rw [isSpent_markSpent, Bool.and_eq_true, Bool.or_eq_true, decide_eq_true_eq, decide_eq_true_eq]
  constructor
  · rintro ⟨-, hsame | hspent⟩
    · exact Or.inr hsame.symm
    · exact Or.inl hspent
  · rintro (hspent | hsame)
    · exact ⟨isSpent_length hspent, Or.inr hspent⟩
    · exact ⟨hsame ▸ hbound, Or.inl hsame.symm⟩

/-- One output against the entry. -/
theorem markOutput_spec (i : ℕ) :
    (markOutput E txindex acc i).1.toCWalletTx = acc.1.toCWalletTx ∧
    (∀ k, (markOutput E txindex acc i).1.IsSpent k = true ↔
      acc.1.IsSpent k = true ∨ k = i ∧ ∃ pos, EntrySpends E txindex acc.1 i pos) ∧
    (∀ pos, pos ∈ (markOutput E txindex acc i).2 ↔
      pos ∈ acc.2 ∨ ¬ acc.1.IsSpent i = true ∧ EntrySpends E txindex acc.1 i pos) := by
  unfold markOutput
  split
  · next hspent =>
    refine ⟨rfl, fun k => (or_iff_left_of_imp ?_).symm, fun pos => ?_⟩
    · rintro ⟨rfl, -⟩
      exact hspent
    · simp [hspent]
  · next hfree =>
    have hunmarked (hnone : ∀ pos, ¬ EntrySpends E txindex acc.1 i pos) :
        acc.1.toCWalletTx = acc.1.toCWalletTx ∧
        (∀ k, acc.1.IsSpent k = true ↔
          acc.1.IsSpent k = true ∨ k = i ∧ ∃ pos, EntrySpends E txindex acc.1 i pos) ∧
        (∀ pos, pos ∈ acc.2 ↔
          pos ∈ acc.2 ∨ ¬ acc.1.IsSpent i = true ∧ EntrySpends E txindex acc.1 i pos) := by
      simp [hnone]
    split
    · next pos txout hpos hout =>
      split
      · next hown =>
        have hentry (pos' : CDiskTxPos) : EntrySpends E txindex acc.1 i pos' ↔ pos' = pos := by
          constructor
          · rintro ⟨hpos', -⟩
            exact Option.some.inj (hpos'.symm.trans hpos)
          · rintro rfl
            exact ⟨hpos, hown.1, txout, hout, hown.2⟩
        refine ⟨rfl, fun k => ?_, fun pos' => ?_⟩
        · rw [isSpent_of_markSpent hout]
          simp [hentry]
        · simp [hentry, hfree]
      · next hother =>
        apply hunmarked
        rintro pos' ⟨hpos', hnull, txout', hout', hmine⟩
        cases hpos.symm.trans hpos'
        cases hout.symm.trans hout'
        exact hother ⟨hnull, hmine⟩
    · next hnone =>
      apply hunmarked
      rintro pos ⟨hpos, -, txout, hout, -⟩
      exact hnone pos txout hpos hout

theorem foldl_markOutput (l : List ℕ) (acc : WalletCoins × List CDiskTxPos) :
    (l.foldl (markOutput E txindex) acc).1.toCWalletTx = acc.1.toCWalletTx ∧
    (∀ k, (l.foldl (markOutput E txindex) acc).1.IsSpent k = true ↔
      acc.1.IsSpent k = true ∨ k ∈ l ∧ ∃ pos, EntrySpends E txindex acc.1 k pos) ∧
    (∀ pos, pos ∈ (l.foldl (markOutput E txindex) acc).2 ↔
      pos ∈ acc.2 ∨ ∃ k ∈ l, ¬ acc.1.IsSpent k = true ∧ EntrySpends E txindex acc.1 k pos) := by
  induction l generalizing acc with
  | nil => simp
  | cons i l ih =>
    obtain ⟨htx₁, hspent₁, hpos₁⟩ := @markOutput_spec E txindex acc i
    obtain ⟨htx, hspent, hpos⟩ := ih (markOutput E txindex acc i)
    simp only [entrySpends_congr htx₁, hspent₁, hpos₁] at hspent hpos
    rw [foldl_cons]
    refine ⟨htx.trans htx₁, fun k => ?_, fun pos => ?_⟩
    · rw [hspent]
      by_cases hk : k = i
      · subst hk
        tauto
      · simp [hk]
    · rw [hpos]
      constructor
      · rintro ((hold | hnew) | ⟨k, hk, hfree, hentry⟩)
        · exact Or.inl hold
        · exact Or.inr ⟨i, mem_cons_self, hnew⟩
        · exact Or.inr ⟨k, mem_cons_of_mem i hk, fun h => hfree (Or.inl h), hentry⟩
      · rintro (hold | ⟨k, hk, hfree, hentry⟩)
        · exact Or.inl (Or.inl hold)
        · by_cases hki : k = i
          · subst hki
            exact Or.inl (Or.inr ⟨hfree, hentry⟩)
          · refine Or.inr ⟨k, (mem_cons.mp hk).resolve_left hki, ?_, hentry⟩
            exact fun h => h.elim hfree fun hsame => hki hsame.1

end IndexEntry

/-! ## The wallet against the index -/

/-- Transactions are kept under their hashes, and their entries in the index have as many places
as they have outputs. -/
def MatchesIndex (E : WalletEnv) (index : TxIndexTable) (t : CoinTable) : Prop :=
  ∀ hash wtx, t.lookup hash = some wtx → E.txHash wtx.toCTransaction = hash ∧
    ∀ txindex, index.lookup hash = some txindex → txindex.vSpent.length = wtx.vout.length

def FoundSpent (E : WalletEnv) (index : TxIndexTable) (t : CoinTable) (coin : SpentCoin)
    (pos : CDiskTxPos) : Prop :=
  IsOwn E t coin ∧ IndexSpends index coin pos ∧ ¬ Skipped t coin.1

section IndexPass

variable {E : WalletEnv} {o : ReacceptOutcome} {index : TxIndexTable} {t t' : CoinTable}
  {hash : uint256}

theorem SameTxs.matchesIndex (h : SameTxs t t') (hmatch : MatchesIndex E index t) :
    MatchesIndex E index t' := by
  intro hash wtx hwtx
  obtain ⟨wtx', hwtx', htx⟩ := h.symm.exists_lookup hwtx
  rw [← htx]
  exact hmatch hash wtx' hwtx'

theorem SameTxs.skipped_iff (h : SameTxs t t')
    (hmarked : Marked t' (hash, 0) ↔ Marked t (hash, 0)) :
    Skipped t' hash ↔ Skipped t hash := by
  have hmono {a b : CoinTable} (hab : SameTxs a b)
      (hcoinbase : ∃ wtx, a.lookup hash = some wtx ∧ wtx.IsCoinBase) :
      ∃ wtx, b.lookup hash = some wtx ∧ wtx.IsCoinBase := by
    obtain ⟨wtx, hwtx, hbase⟩ := hcoinbase
    obtain ⟨wtx', hwtx', htx⟩ := hab.exists_lookup hwtx
    exact ⟨wtx', hwtx', by rw [htx]; exact hbase⟩
  exact and_congr ⟨hmono h.symm, hmono h⟩ hmarked

variable {txindex : CTxIndex} {wtx : WalletCoins} {p : SpentCoin → Prop}

theorem foundSpent_iff {i : ℕ} {pos : CDiskTxPos} (hwtx : t.lookup hash = some wtx)
    (hindex : index.lookup hash = some txindex) (hskip : ¬ Skipped t hash) :
    FoundSpent E index t (hash, i) pos ↔ EntrySpends E txindex wtx i pos := by
  constructor
  · rintro ⟨⟨wtx', txout, hwtx', hout, hmine⟩, ⟨txindex', hindex', hpos, hnull⟩, -⟩
    cases hwtx.symm.trans hwtx'
    cases hindex.symm.trans hindex'
    exact ⟨hpos, hnull, txout, hout, hmine⟩
  · rintro ⟨hpos, hnull, txout, hout, hmine⟩
    exact ⟨⟨wtx, txout, hwtx, hout, hmine⟩, ⟨txindex, hindex, hpos, hnull⟩, hskip⟩

/-- What the pass has done with the outputs that `p` selects. -/
structure IndexPassed (E : WalletEnv) (index : TxIndexTable) (p : SpentCoin → Prop)
    (acc next : ReacceptState × List CDiskTxPos) : Prop where
  keeps : KeepsTxs acc.1 next.1
  marked : ∀ coin, Marked next.1.mapWallet coin ↔
    Marked acc.1.mapWallet coin ∨ p coin ∧ ∃ pos, FoundSpent E index acc.1.mapWallet coin pos
  missing : ∀ pos, pos ∈ next.2 ↔ pos ∈ acc.2 ∨
    ∃ coin, p coin ∧ ¬ Marked acc.1.mapWallet coin ∧ FoundSpent E index acc.1.mapWallet coin pos

variable {acc : ReacceptState × List CDiskTxPos}

theorem IndexPassed.of_none
    (h : ∀ coin pos, p coin → FoundSpent E index acc.1.mapWallet coin pos →
      Marked acc.1.mapWallet coin) : IndexPassed E index p acc acc where
  keeps := .refl acc.1
  marked coin := by
    refine (or_iff_left_of_imp ?_).symm
    rintro ⟨hp, pos, hfound⟩
    exact h coin pos hp hfound
  missing pos := by
    refine (or_iff_left_of_imp ?_).symm
    rintro ⟨coin, hp, hfree, hfound⟩
    exact absurd (h coin pos hp hfound) hfree

theorem checkEntry_passed (ho : AllSucceed o) (hwtx : acc.1.mapWallet.lookup hash = some wtx)
    (hindex : index.lookup hash = some txindex) (hskip : ¬ Skipped acc.1.mapWallet hash)
    {marked : WalletCoins × List CDiskTxPos}
    (hall : (List.range txindex.vSpent.length).foldl (markOutput E txindex) (wtx, []) = marked) :
    IndexPassed E index (fun coin => coin.1 = hash) acc (if marked.2 = [] then acc
      else
        ({ acc.1 with
            mapWallet := acc.1.mapWallet.insert hash marked.1
            tx := if o.writeTx acc.1.nAccess then acc.1.tx.insert hash marked.1 else acc.1.tx
            nAccess := acc.1.nAccess + 1 }, acc.2 ++ marked.2)) := by
  obtain ⟨htx, hspent, hmissing⟩ := @foldl_markOutput E txindex
    (List.range txindex.vSpent.length) (wtx, [])
  rw [hall] at htx hspent hmissing
  have hrange {i : ℕ} {pos : CDiskTxPos} (hentry : EntrySpends E txindex wtx i pos) :
      i ∈ List.range txindex.vSpent.length :=
    mem_range.mpr (List.getElem?_eq_some_iff.mp hentry.1).1
  have hfound (i : ℕ) (pos : CDiskTxPos) :
      FoundSpent E index acc.1.mapWallet (hash, i) pos ↔ EntrySpends E txindex wtx i pos :=
    foundSpent_iff hwtx hindex hskip
  have hmarked (i : ℕ) : Marked acc.1.mapWallet (hash, i) ↔ wtx.IsSpent i = true := by
    simp [Marked, hwtx]
  split
  · next hnil =>
    apply IndexPassed.of_none
    rintro ⟨hash', i⟩ pos hsame hspends
    obtain rfl : hash' = hash := hsame
    by_contra hfree
    rw [hfound] at hspends
    rw [hmarked] at hfree
    have hmem := (hmissing pos).mpr (Or.inr ⟨i, hrange hspends, hfree, hspends⟩)
    rw [hnil] at hmem
    exact not_mem_nil hmem
  · refine ⟨⟨?_, fun hdb => inDatabase_insert hdb rfl (if_pos (ho.writeTx _))⟩, ?_, ?_⟩
    · intro hash'
      rw [lookup_insert_ite]
      split
      · next heq => rw [heq, hwtx, Option.map_some, Option.map_some, htx]
      · rfl
    · rintro ⟨hash', i⟩
      unfold Marked
      rw [lookup_insert_ite]
      split
      · next heq =>
        subst heq
        simp only [Option.some.injEq, exists_eq_left', hspent, hwtx, hfound, true_and]
        apply or_congr_right
        constructor
        · rintro ⟨-, hentry⟩
          exact hentry
        · rintro ⟨pos, hentry⟩
          exact ⟨hrange hentry, pos, hentry⟩
      · next hne => simp [hne]
    · intro pos
      rw [mem_append, hmissing]
      simp only [not_mem_nil, false_or]
      apply or_congr_right
      constructor
      · rintro ⟨i, -, hfree, hentry⟩
        exact ⟨(hash, i), rfl, by rwa [hmarked], by rwa [hfound]⟩
      · rintro ⟨⟨hash', i⟩, hsame, hfree, hspends⟩
        obtain rfl : hash' = hash := hsame
        rw [hfound] at hspends
        rw [hmarked] at hfree
        exact ⟨i, hrange hspends, hfree, hspends⟩

theorem checkIndex_passed (ho : AllSucceed o) (hmatch : MatchesIndex E index acc.1.mapWallet)
    (hash : uint256) :
    IndexPassed E index (fun coin => coin.1 = hash) acc (checkIndex E o index acc hash) := by
  unfold checkIndex
  split
  · next hnone =>
    apply IndexPassed.of_none
    rintro coin pos rfl ⟨⟨wtx, -, hwtx, -⟩, -⟩
    cases hnone.symm.trans hwtx
  · next wtx hwtx =>
    obtain ⟨hhash, hlength⟩ := hmatch hash wtx hwtx
    rw [hhash]
    split
    · next hskip =>
      apply IndexPassed.of_none
      rintro coin pos rfl ⟨-, -, hnot⟩
      exact absurd ⟨⟨wtx, hwtx, hskip.1⟩, wtx, hwtx, hskip.2⟩ hnot
    · next hskip =>
      split
      · next hnone =>
        apply IndexPassed.of_none
        rintro coin pos rfl ⟨-, ⟨txindex, hindex, -⟩, -⟩
        cases hnone.symm.trans hindex
      · next txindex hindex =>
        rw [if_neg (not_not.mpr (hlength txindex hindex))]
        refine checkEntry_passed ho hwtx hindex ?_ rfl
        rintro ⟨⟨wtx₁, hwtx₁, hbase⟩, wtx₂, hwtx₂, hspent⟩
        cases hwtx.symm.trans hwtx₁
        cases hwtx.symm.trans hwtx₂
        exact hskip ⟨hbase, hspent⟩

/-- Passes over the outputs of different transactions do not see each other. -/
theorem IndexPassed.trans {q : SpentCoin → Prop} {mid next : ReacceptState × List CDiskTxPos}
    (hdisjoint : ∀ coin coin', p coin → q coin' → coin.1 ≠ coin'.1)
    (h : IndexPassed E index p acc mid) (h' : IndexPassed E index q mid next) :
    IndexPassed E index (fun coin => p coin ∨ q coin) acc next := by
  have hsame (coin coin' : SpentCoin) (hq : q coin) (hhash : coin'.1 = coin.1) :
      Marked mid.1.mapWallet coin' ↔ Marked acc.1.mapWallet coin' := by
    rw [h.marked, or_iff_left]
    rintro ⟨hp, -⟩
    exact hdisjoint coin' coin hp hq hhash
  have hfound (coin : SpentCoin) (pos : CDiskTxPos) (hq : q coin) :
      FoundSpent E index mid.1.mapWallet coin pos ↔
      FoundSpent E index acc.1.mapWallet coin pos := by
    unfold FoundSpent
    rw [h.keeps.1.isOwn_iff, h.keeps.1.skipped_iff (hsame coin (coin.1, 0) hq rfl)]
  constructor
  · exact h.keeps.trans h'.keeps
  · intro coin
    rw [h'.marked, h.marked, or_assoc, or_and_right]
    apply or_congr_right
    apply or_congr_right
    exact and_congr_right fun hq => exists_congr fun pos => hfound coin pos hq
  · intro pos
    rw [h'.missing, h.missing, or_assoc, ← exists_or]
    apply or_congr_right
    apply exists_congr
    intro coin
    rw [or_and_right]
    apply or_congr_right
    apply and_congr_right
    intro hq
    rw [hsame coin coin hq rfl, hfound coin pos hq]

theorem foldl_checkIndex_passed (ho : AllSucceed o) {keys : List uint256} (hnodup : keys.Nodup)
    (hmatch : MatchesIndex E index acc.1.mapWallet) :
    IndexPassed E index (fun coin => coin.1 ∈ keys) acc
      (keys.foldl (checkIndex E o index) acc) := by
  induction keys generalizing acc with
  | nil => exact .of_none fun _ _ hmem => absurd hmem not_mem_nil
  | cons hash keys ih =>
    rw [nodup_cons] at hnodup
    have hfirst := checkIndex_passed ho hmatch hash
    have hrest := ih hnodup.2 (hfirst.keeps.1.matchesIndex hmatch)
    simp only [mem_cons]
    refine hfirst.trans ?_ hrest
    rintro coin coin' rfl hmem hsame
    exact hnodup.1 (hsame ▸ hmem)

/-- The pass over the whole wallet. -/
theorem indexPass (ho : AllSucceed o) {st : ReacceptState}
    (hmatch : MatchesIndex E index st.mapWallet) :
    IndexPassed E index (fun _ => True) (st, [])
      ((sortedKeys st.mapWallet).foldl (checkIndex E o index) (st, [])) := by
  have hpass : IndexPassed E index (fun coin => coin.1 ∈ sortedKeys st.mapWallet) (st, []) _ :=
    foldl_checkIndex_passed ho (nodup_sortedKeys st.mapWallet) hmatch
  have hkey (coin : SpentCoin) (pos : CDiskTxPos)
      (hfound : FoundSpent E index st.mapWallet coin pos) :
      coin.1 ∈ sortedKeys st.mapWallet := by
    obtain ⟨⟨wtx, -, hwtx, -⟩, -⟩ := hfound
    exact mem_sortedKeys.mpr (Option.isSome_of_eq_some hwtx)
  refine ⟨hpass.keeps, fun coin => ?_, fun pos => ?_⟩
  · rw [hpass.marked, true_and]
    apply or_congr_right
    exact and_iff_right_of_imp fun ⟨pos, hfound⟩ => hkey coin pos hfound
  · rw [hpass.missing]
    apply or_congr_right
    apply exists_congr
    intro coin
    rw [true_and]
    exact and_iff_right_of_imp fun hfree => hkey coin pos hfree.2

end IndexPass

/-! ## Scanning blocks -/

/-- A scan of the transactions that `p` selects. While nothing is found, it only marks outputs. -/
structure Scanned (E : WalletEnv) (p : CTransaction → Prop) (acc next : ReacceptState × ℕ) :
    Prop where
  kept : ∀ hash wtx, acc.1.mapWallet.lookup hash = some wtx →
    ∃ wtx', next.1.mapWallet.lookup hash = some wtx' ∧ wtx'.toCWalletTx = wtx.toCWalletTx
  marks : ∀ coin, Marked acc.1.mapWallet coin → Marked next.1.mapWallet coin
  spends : ∀ hash wtx, next.1.mapWallet.lookup hash = some wtx → hash ∉ acc.1.mapWallet →
    ∀ coin, IsOwn E acc.1.mapWallet coin → SpendsCoin wtx.toCTransaction coin →
      Marked next.1.mapWallet coin
  counts : acc.2 ≤ next.2
  found : acc.2 < next.2 →
    ∃ tx, p tx ∧ E.txHash tx ∉ acc.1.mapWallet ∧ E.txHash tx ∈ next.1.mapWallet
  database : InDatabase acc.1 → InDatabase next.1
  source : ∀ hash wtx, next.1.mapWallet.lookup hash = some wtx →
    (∃ wtx₀, acc.1.mapWallet.lookup hash = some wtx₀ ∧ wtx.toCWalletTx = wtx₀.toCWalletTx) ∨
      p wtx.toCTransaction ∧ E.txHash wtx.toCTransaction = hash
  quiet : next.2 = acc.2 → SameTxs acc.1.mapWallet next.1.mapWallet ∧
    ∀ coin, Marked next.1.mapWallet coin ↔ Marked acc.1.mapWallet coin ∨
      IsOwn E acc.1.mapWallet coin ∧ ∃ tx, p tx ∧ E.txHash tx ∉ acc.1.mapWallet ∧ SpendsCoin tx coin

section Scan

variable {E : WalletEnv} {o : ReacceptOutcome} {p q : CTransaction → Prop}
  {acc mid next : ReacceptState × ℕ}

theorem Scanned.grows (h : Scanned E p acc next) {hash : uint256} (hmem : hash ∈ acc.1.mapWallet) :
    hash ∈ next.1.mapWallet := by
  rw [← lookup_isSome, Option.isSome_iff_exists] at hmem
  obtain ⟨wtx, hwtx⟩ := hmem
  obtain ⟨wtx', hwtx', -⟩ := h.kept hash wtx hwtx
  exact mem_of_lookup_eq_some hwtx'

theorem Scanned.lookup_of_mem (h : Scanned E p acc next) {hash : uint256} {wtx : WalletCoins}
    (hmem : hash ∈ acc.1.mapWallet) (hwtx : next.1.mapWallet.lookup hash = some wtx) :
    ∃ wtx₁, acc.1.mapWallet.lookup hash = some wtx₁ ∧ wtx.toCWalletTx = wtx₁.toCWalletTx := by
  rw [← lookup_isSome, Option.isSome_iff_exists] at hmem
  obtain ⟨wtx₁, hwtx₁⟩ := hmem
  obtain ⟨wtx', hwtx', htx⟩ := h.kept hash wtx₁ hwtx₁
  cases hwtx.symm.trans hwtx'
  exact ⟨wtx₁, hwtx₁, htx⟩

theorem Scanned.isOwn (h : Scanned E p acc next) {coin : SpentCoin}
    (hown : IsOwn E acc.1.mapWallet coin) : IsOwn E next.1.mapWallet coin := by
  obtain ⟨wtx, txout, hwtx, hout, hmine⟩ := hown
  obtain ⟨wtx', hwtx', htx⟩ := h.kept _ wtx hwtx
  exact ⟨wtx', txout, hwtx', by rw [htx]; exact hout, hmine⟩

theorem Scanned.refl (hp : ∀ tx, p tx → E.txHash tx ∈ acc.1.mapWallet) : Scanned E p acc acc where
  kept _ wtx hwtx := ⟨wtx, hwtx, rfl⟩
  marks _ := id
  spends _ _ hwtx hnew := absurd (mem_of_lookup_eq_some hwtx) hnew
  counts := Nat.le_refl acc.2
  found hlt := absurd hlt (Nat.lt_irrefl acc.2)
  database := id
  source _ wtx hwtx := Or.inl ⟨wtx, hwtx, rfl⟩
  quiet _ := by
    refine ⟨.refl _, fun coin => (or_iff_left ?_).symm⟩
    rintro ⟨-, tx, htx, hnew, -⟩
    exact hnew (hp tx htx)

theorem Scanned.of_marked {tx : CTransaction} (hnew : E.txHash tx ∉ acc.1.mapWallet)
    (hcount : next.2 = acc.2)
    (hmap : next.1.mapWallet =
      (collectWalletSpentCoins E acc.1.mapWallet tx).foldl markSpentCoin acc.1.mapWallet)
    (hdb : InDatabase acc.1 → InDatabase next.1) : Scanned E (fun tx' => tx' = tx) acc next := by
  have hsame : SameTxs acc.1.mapWallet next.1.mapWallet := by
    rw [hmap]
    exact sameTxs_markSpentCoins _ _
  refine ⟨fun hash wtx hwtx => hsame.exists_lookup hwtx, ?_, fun hash wtx hwtx hmem => ?_,
    hcount.ge, fun hlt => ?_, hdb, ?_, ?_⟩
  · intro coin hmarked
    rw [hmap]
    exact hmarked.markSpentCoins _
  · exact absurd ((hsame.mem_iff hash).mp (mem_of_lookup_eq_some hwtx)) hmem
  · exact absurd hcount hlt.ne'
  · intro hash wtx hwtx
    obtain ⟨wtx₀, hwtx₀, htx⟩ := hsame.symm.exists_lookup hwtx
    exact Or.inl ⟨wtx₀, hwtx₀, htx.symm⟩
  · refine fun _ => ⟨hsame, fun coin => ?_⟩
    rw [hmap, marked_collected]
    simp [hnew]

/-- A transaction that comes to the wallet. -/
theorem Scanned.of_added {wtx : WalletCoins} {coins : List SpentCoin}
    (hnew : E.txHash wtx.toCTransaction ∉ acc.1.mapWallet) (hcount : next.2 = acc.2 + 1)
    (hcoins : collectWalletSpentCoins E
      (acc.1.mapWallet.insert (E.txHash wtx.toCTransaction) wtx) wtx.toCTransaction = coins)
    (hmap : next.1.mapWallet = coins.foldl markSpentCoin
      (acc.1.mapWallet.insert (E.txHash wtx.toCTransaction) wtx))
    (hdb : InDatabase acc.1 → InDatabase next.1) :
    Scanned E (fun tx => tx = wtx.toCTransaction) acc next := by
  have hsame : SameTxs (acc.1.mapWallet.insert (E.txHash wtx.toCTransaction) wtx)
      next.1.mapWallet := by
    rw [hmap]
    exact sameTxs_markSpentCoins _ _
  have hold {hash : uint256} {wtx' : WalletCoins}
      (hwtx' : acc.1.mapWallet.lookup hash = some wtx') :
      (acc.1.mapWallet.insert (E.txHash wtx.toCTransaction) wtx).lookup hash = some wtx' := by
    rw [lookup_insert_of_ne, hwtx']
    rintro rfl
    exact hnew (mem_of_lookup_eq_some hwtx')
  refine ⟨fun hash wtx' hwtx' => hsame.exists_lookup (hold hwtx'), ?_, ?_, by omega,
    fun _ => ⟨_, rfl, hnew, ?_⟩, hdb, ?_, fun hsum => ?_⟩
  · rintro coin ⟨wtx', hwtx', hspent⟩
    rw [hmap]
    exact Marked.markSpentCoins ⟨wtx', hold hwtx', hspent⟩ coins
  · rintro hash wtx' hwtx' hmem coin ⟨prev, txout, hprev, hout, hmine⟩ hspends
    obtain ⟨wtx₀, hwtx₀, htx⟩ := hsame.symm.exists_lookup hwtx'
    rw [lookup_insert_ite] at hwtx₀
    split at hwtx₀
    · cases hwtx₀
      rw [hmap, ← hcoins, marked_collected]
      rw [← htx] at hspends
      exact Or.inr ⟨⟨prev, txout, hold hprev, hout, hmine⟩, hspends⟩
    · exact absurd (mem_of_lookup_eq_some hwtx₀) hmem
  · exact (hsame.mem_iff _).mpr (mem_insert.mpr (Or.inl rfl))
  · intro hash wtx' hwtx'
    obtain ⟨wtx₀, hwtx₀, htx⟩ := hsame.symm.exists_lookup hwtx'
    rw [lookup_insert_ite] at hwtx₀
    split at hwtx₀
    · next heq =>
      cases hwtx₀
      rw [← htx]
      exact Or.inr ⟨rfl, heq.symm⟩
    · exact Or.inl ⟨wtx₀, hwtx₀, htx.symm⟩
  · omega

theorem Scanned.trans (h : Scanned E p acc mid) (h' : Scanned E q mid next) :
    Scanned E (fun tx => p tx ∨ q tx) acc next where
  kept hash wtx hwtx := by
    obtain ⟨wtx₁, hwtx₁, htx₁⟩ := h.kept hash wtx hwtx
    obtain ⟨wtx₂, hwtx₂, htx₂⟩ := h'.kept hash wtx₁ hwtx₁
    exact ⟨wtx₂, hwtx₂, htx₂.trans htx₁⟩
  marks coin := h'.marks coin ∘ h.marks coin
  spends hash wtx hwtx hnew coin hown hspends := by
    by_cases hmid : hash ∈ mid.1.mapWallet
    · rw [← lookup_isSome, Option.isSome_iff_exists] at hmid
      obtain ⟨wtx₁, hwtx₁⟩ := hmid
      obtain ⟨wtx₂, hwtx₂, htx⟩ := h'.kept hash wtx₁ hwtx₁
      cases hwtx.symm.trans hwtx₂
      rw [htx] at hspends
      exact h'.marks coin (h.spends hash wtx₁ hwtx₁ hnew coin hown hspends)
    · exact h'.spends hash wtx hwtx hmid coin (h.isOwn hown) hspends
  counts := h.counts.trans h'.counts
  found hlt := by
    by_cases hfirst : acc.2 < mid.2
    · obtain ⟨tx, hp, hnew, hmem⟩ := h.found hfirst
      exact ⟨tx, Or.inl hp, hnew, h'.grows hmem⟩
    · obtain ⟨tx, hq, hnew, hmem⟩ := h'.found (by omega)
      exact ⟨tx, Or.inr hq, fun hold => hnew (h.grows hold), hmem⟩
  database := h'.database ∘ h.database
  source hash wtx hwtx := by
    obtain ⟨wtx₁, hwtx₁, htx₁⟩ | ⟨hq, hhash⟩ := h'.source hash wtx hwtx
    · rw [htx₁]
      obtain hold | ⟨hp, hhash⟩ := h.source hash wtx₁ hwtx₁
      · exact Or.inl hold
      · exact Or.inr ⟨Or.inl hp, hhash⟩
    · exact Or.inr ⟨Or.inr hq, hhash⟩
  quiet hcount := by
    have hcounts := h.counts
    have hcounts' := h'.counts
    obtain ⟨hsame, hmarked⟩ := h.quiet (by omega)
    obtain ⟨hsame', hmarked'⟩ := h'.quiet (by omega)
    refine ⟨hsame.trans hsame', fun coin => ?_⟩
    rw [hmarked', hmarked, hsame.isOwn_iff, or_assoc, ← and_or_left, ← exists_or]
    simp [hsame.mem_iff, or_and_right]

/-- The records that one `AddToWallet` writes. -/
theorem lookup_written (m tx : CoinTable) (written : List uint256) (hash : uint256) :
    (written.foldl (fun tx hash => (m.lookup hash).elim tx (tx.insert hash ·)) tx).lookup hash =
      if hash ∈ written then (m.lookup hash).or (tx.lookup hash) else tx.lookup hash := by
  induction written generalizing tx with
  | nil => rfl
  | cons hash₀ written ih =>
    rw [foldl_cons, ih]
    by_cases heq : hash = hash₀
    · subst heq
      cases hm : m.lookup hash <;> simp
    · cases m.lookup hash₀ <;> simp [heq, lookup_insert_of_ne]

/-- `AddToWallet` of a transaction that the wallet does not have. -/
theorem addToWallet_new {o : AddToWalletOutcome} {wtxIn : WalletCoins} {w : SyncedWallet}
    (ho : ∀ coins, Written o coins) (hnew : E.txHash wtxIn.toCTransaction ∉ w.mapWallet)
    {coins : List SpentCoin}
    (hcoins : collectWalletSpentCoins E
      (prepareAddToWallet E (E.txHash wtxIn.toCTransaction) wtxIn w).1.mapWallet
        wtxIn.toCTransaction = coins) :
    (addToWallet E o wtxIn w).1 = true ∧
      ∃ wtx, wtx.toCTransaction = wtxIn.toCTransaction ∧
        collectWalletSpentCoins E (w.mapWallet.insert (E.txHash wtxIn.toCTransaction) wtx)
          wtxIn.toCTransaction = coins ∧
        (addToWallet E o wtxIn w).2.mapWallet = coins.foldl markSpentCoin
          (w.mapWallet.insert (E.txHash wtxIn.toCTransaction) wtx) := by
  have hnone := lookup_eq_none.mpr hnew
  obtain ⟨wtx, htx, hprepared⟩ : ∃ wtx : WalletCoins, wtx.toCTransaction = wtxIn.toCTransaction ∧
      (prepareAddToWallet E (E.txHash wtxIn.toCTransaction) wtxIn w).1.mapWallet =
        w.mapWallet.insert (E.txHash wtxIn.toCTransaction) wtx := by
    rw [prepareAddToWallet, hnone]
    let wtx : WalletCoins :=
      { wtxIn with fBound := true, nTimeReceived := E.nAdjustedTime, nOrderPos := w.nOrderPosNext }
    exact ⟨wtx, rfl, rfl⟩
  obtain ⟨-, hnil, hadded⟩ | ⟨-, hadded⟩ | ⟨hfail, -⟩ :=
    @addToWallet_cases E o wtxIn w _ coins rfl hcoins
  · rw [hadded, hnil]
    exact ⟨rfl, wtx, htx, by rw [← hprepared, hcoins, hnil], hprepared⟩
  · rw [hadded]
    exact ⟨rfl, wtx, htx, by rw [← hprepared, hcoins], by rw [← hprepared]⟩
  · exact absurd (ho coins) hfail

/-- One transaction of a scan. -/
theorem addIfInvolvingMe_scanned (ho : AllSucceed o) (acc : ReacceptState × ℕ) (block : CBlock)
    (tx : CTransaction) :
    Scanned E (fun tx' => tx' = tx) acc (scanTx E o acc (block, tx)) := by
  unfold scanTx addIfInvolvingMe
  split
  · next hmem => exact .refl fun tx' htx' => htx' ▸ hmem
  · next hnew =>
    split
    · obtain ⟨hblockTx, -, -⟩ := @blockTx_spec E block tx
      unfold blockTx at hblockTx
      have hhash : E.txHash ((ofTransaction tx).setMerkleBranch E block).toCTransaction
          ∉ acc.1.mapWallet := by rwa [hblockTx]
      obtain ⟨hadded, wtx, htx, hcoins, hmap⟩ := @addToWallet_new E (o.addToWallet acc.1.nAccess)
        ((ofTransaction tx).setMerkleBranch E block) acc.1.toSyncedWallet
        (ho.addToWallet acc.1.nAccess) hhash _ rfl
      rw [hblockTx] at htx hcoins hmap
      subst htx
      refine .of_added hnew (if_pos hadded) hcoins hmap fun hdb hash' wtx' hwtx' => ?_
      dsimp only at hwtx' ⊢
      rw [if_pos hadded, lookup_written, hwtx']
      split
      · rfl
      · next hunwritten =>
        rw [mem_cons, not_or] at hunwritten
        rw [hmap, lookup_markSpentCoins_of_notMem hunwritten.2,
          lookup_insert_of_ne _ hunwritten.1] at hwtx'
        exact hdb hash' wtx' hwtx'
    · obtain ⟨hmap, hdb⟩ := markAllAndWrite ho (collectWalletSpentCoins E acc.1.mapWallet tx) acc.1
      exact .of_marked hnew rfl hmap hdb

theorem Scanned.congr (hpq : ∀ tx, p tx ↔ q tx) (h : Scanned E p acc next) :
    Scanned E q acc next := by
  obtain rfl : p = q := funext fun tx => propext (hpq tx)
  exact h

theorem foldl_scanned {A : Type} {f : ReacceptState × ℕ → A → ReacceptState × ℕ}
    {r : A → CTransaction → Prop} (hf : ∀ acc a, Scanned E (r a) acc (f acc a)) (l : List A)
    (acc : ReacceptState × ℕ) : Scanned E (fun tx => ∃ a ∈ l, r a tx) acc (l.foldl f acc) := by
  induction l generalizing acc with
  | nil => exact .refl fun _ ⟨_, hmem, _⟩ => absurd hmem not_mem_nil
  | cons a l ih => exact ((hf acc a).trans (ih (f acc a))).congr fun tx => by simp

theorem scanBlock_scanned (ho : AllSucceed o) (acc : ReacceptState × ℕ) (block : CBlock) :
    Scanned E (fun tx => tx ∈ block.vtx) acc (scanBlock E o acc block) :=
  (foldl_scanned (fun acc tx => addIfInvolvingMe_scanned ho acc block tx) block.vtx acc).congr
    fun tx => by simp

theorem scanBlocks_scanned (ho : AllSucceed o) (nBlockKeys : List ℕ) (acc : ReacceptState × ℕ)
    (hread : ∀ nBlockKey ∈ nBlockKeys, ∃ block, readBlockAt E nBlockKey = some block) :
    ∃ next, scanBlocks E o nBlockKeys acc = (false, next) ∧
      Scanned E (fun tx => ∃ nBlockKey ∈ nBlockKeys, ∃ block,
        readBlockAt E nBlockKey = some block ∧ tx ∈ block.vtx) acc next := by
  induction nBlockKeys generalizing acc with
  | nil =>
    refine ⟨acc, rfl, .refl ?_⟩
    rintro tx ⟨nBlockKey, hmem, -⟩
    exact absurd hmem not_mem_nil
  | cons nBlockKey nBlockKeys ih =>
    rw [forall_mem_cons] at hread
    obtain ⟨⟨block, hblock⟩, hrest⟩ := hread
    obtain ⟨next, hscan, hscanned⟩ := ih (scanBlock E o acc block) hrest
    refine ⟨next, by rw [scanBlocks, hblock]; exact hscan, ?_⟩
    exact ((scanBlock_scanned ho acc block).trans hscanned).congr fun tx => by simp [hblock]

end Scan

/-! ## One round -/

/-- The blocks that the index names can be read, and the entries of their transactions have as
many places as these have outputs. -/
def IndexReadable (E : WalletEnv) (index : TxIndexTable) : Prop :=
  ∀ coin pos, IndexSpends index coin pos → ∃ block, readBlockAt E (blockKey pos) = some block ∧
    ∀ tx ∈ block.vtx, ∀ txindex, index.lookup (E.txHash tx) = some txindex →
      txindex.vSpent.length = tx.vout.length

def Rescanned (E : WalletEnv) (index : TxIndexTable) (t : CoinTable) (tx : CTransaction) : Prop :=
  ∃ coin pos block, ¬ Marked t coin ∧ FoundSpent E index t coin pos ∧
    readBlockAt E (blockKey pos) = some block ∧ tx ∈ block.vtx

/-- The hashes of all transactions that a round can find. -/
def rescanHashes (E : WalletEnv) (index : TxIndexTable) : Finset uint256 :=
  (((sortedKeys index).filterMap index.lookup).flatMap fun txindex =>
    txindex.vSpent.flatMap fun pos =>
      ((readBlockAt E (blockKey pos)).elim [] CBlock.vtx).map E.txHash).toFinset

section Round

variable {E : WalletEnv} {o : ReacceptOutcome} {index : TxIndexTable} {chain : List CBlock}
  {st st' : ReacceptState} {tx : CTransaction}

theorem mem_rescanHashes (h : Rescanned E index st.mapWallet tx) :
    E.txHash tx ∈ rescanHashes E index := by
  obtain ⟨coin, pos, block, -, ⟨-, ⟨txindex, hindex, hpos, -⟩, -⟩, hread, htx⟩ := h
  rw [rescanHashes, List.mem_toFinset, mem_flatMap]
  refine ⟨txindex, mem_filterMap.mpr ⟨coin.1, ?_, hindex⟩, ?_⟩
  · exact mem_sortedKeys.mpr (Option.isSome_of_eq_some hindex)
  · refine mem_flatMap.mpr ⟨pos, mem_of_getElem? hpos, ?_⟩
    rw [hread]
    exact List.mem_map.mpr ⟨tx, htx, rfl⟩

/-- A round is a pass over the index and a scan. -/
theorem reacceptRound_spec (ho : AllSucceed o) (hread : IndexReadable E index)
    (hmatch : MatchesIndex E index st.mapWallet) :
    ∃ checked next, IndexPassed E index (fun _ => True) (st, []) checked ∧
      Scanned E (Rescanned E index st.mapWallet) (checked.1, 0) next ∧
      reacceptRound E o index chain st = (next.1, decide (next.2 > 0)) := by
  obtain ⟨checked, hchecked⟩ : ∃ checked,
      (sortedKeys st.mapWallet).foldl (checkIndex E o index) (st, []) = checked := ⟨_, rfl⟩
  have hpass := indexPass ho hmatch
  rw [hchecked] at hpass
  have hmissing (pos : CDiskTxPos) : pos ∈ checked.2 ↔
      ∃ coin, ¬ Marked st.mapWallet coin ∧ FoundSpent E index st.mapWallet coin pos := by
    simpa using hpass.missing pos
  rw [reacceptRound, hchecked]
  dsimp only
  split
  · next hnil =>
    refine ⟨checked, (checked.1, 0), hpass, .refl ?_, rfl⟩
    rintro tx ⟨coin, pos, block, hfree, hfound, -⟩
    have hpos := (hmissing pos).mpr ⟨coin, hfree, hfound⟩
    rw [hnil] at hpos
    exact absurd hpos not_mem_nil
  · obtain ⟨nBlockKeys, hkeys⟩ : ∃ nBlockKeys,
        (checked.2.map blockKey).dedup.insertionSort (· ≤ ·) = nBlockKeys := ⟨_, rfl⟩
    have hmem (nBlockKey : ℕ) :
        nBlockKey ∈ nBlockKeys ↔ ∃ pos ∈ checked.2, blockKey pos = nBlockKey := by
      rw [← hkeys, mem_insertionSort, mem_dedup, List.mem_map]
    have hreadable : ∀ nBlockKey ∈ nBlockKeys, ∃ block, readBlockAt E nBlockKey = some block := by
      intro nBlockKey hkey
      obtain ⟨pos, hpos, rfl⟩ := (hmem nBlockKey).mp hkey
      obtain ⟨coin, -, hfound⟩ := (hmissing pos).mp hpos
      obtain ⟨block, hblock, -⟩ := hread coin pos hfound.2.1
      exact ⟨block, hblock⟩
    obtain ⟨next, hscan, hscanned⟩ :=
      scanBlocks_scanned ho nBlockKeys (checked.1, 0) hreadable
    rw [hkeys, hscan]
    refine ⟨checked, next, hpass, hscanned.congr fun tx => ?_, rfl⟩
    constructor
    · rintro ⟨nBlockKey, hkey, block, hblock, htx⟩
      obtain ⟨pos, hpos, rfl⟩ := (hmem nBlockKey).mp hkey
      obtain ⟨coin, hfree, hfound⟩ := (hmissing pos).mp hpos
      exact ⟨coin, pos, block, hfree, hfound, hblock, htx⟩
    · rintro ⟨coin, pos, block, hfree, hfound, hblock, htx⟩
      have hpos := (hmissing pos).mpr ⟨coin, hfree, hfound⟩
      exact ⟨blockKey pos, (hmem _).mpr ⟨pos, hpos, rfl⟩, block, hblock, htx⟩

/-- What every round keeps. -/
structure ReacceptInput (E : WalletEnv) (index : TxIndexTable) (st : ReacceptState) : Prop where
  matchesIndex : MatchesIndex E index st.mapWallet
  inDatabase : InDatabase st

theorem reacceptRound_input (ho : AllSucceed o) (hread : IndexReadable E index)
    (h : ReacceptInput E index st) :
    ReacceptInput E index (reacceptRound E o index chain st).1 := by
  obtain ⟨checked, next, hpass, hscanned, hround⟩ :=
    @reacceptRound_spec E o index chain st ho hread h.matchesIndex
  rw [hround]
  have hchecked := hpass.keeps.1.matchesIndex h.matchesIndex
  refine ⟨fun hash wtx hwtx => ?_, hscanned.database (hpass.keeps.2 h.inDatabase)⟩
  obtain ⟨wtx₀, hwtx₀, htx⟩ | ⟨hrescanned, hhash⟩ := hscanned.source hash wtx hwtx
  · rw [htx]
    exact hchecked hash wtx₀ hwtx₀
  · obtain ⟨coin, pos, block, -, hfound, hblock, hmem⟩ := hrescanned
    obtain ⟨block', hblock', hcounts⟩ := hread coin pos hfound.2.1
    cases hblock.symm.trans hblock'
    refine ⟨hhash, fun txindex hindex => hcounts _ hmem txindex ?_⟩
    rw [hhash]
    exact hindex

theorem reacceptRound_lower (ho : AllSucceed o) (hread : IndexReadable E index)
    (hmatch : MatchesIndex E index st.mapWallet)
    (hrepeat : (reacceptRound E o index chain st).2 = true) :
    (rescanHashes E index \ (reacceptRound E o index chain st).1.mapWallet.keys).card <
      (rescanHashes E index \ st.mapWallet.keys).card := by
  obtain ⟨checked, next, hpass, hscanned, hround⟩ :=
    @reacceptRound_spec E o index chain st ho hread hmatch
  rw [hround] at hrepeat ⊢
  have hsame (hash : uint256) : hash ∈ checked.1.mapWallet ↔ hash ∈ st.mapWallet :=
    hpass.keeps.1.mem_iff hash
  obtain ⟨tx, htx, hnew, hmem⟩ := hscanned.found (of_decide_eq_true hrepeat)
  apply Finset.card_lt_card
  rw [Finset.ssubset_iff_of_subset]
  · refine ⟨E.txHash tx, ?_, ?_⟩
    · rw [Finset.mem_sdiff, Finmap.mem_keys, ← hsame]
      exact ⟨mem_rescanHashes htx, hnew⟩
    · rw [Finset.mem_sdiff]
      exact fun hout => hout.2 hmem
  · apply Finset.sdiff_subset_sdiff (Finset.Subset.refl _)
    intro hash hold
    exact hscanned.grows ((hsame hash).mpr hold)

/-- A transaction that the round scans and the wallet does not have spends the output. -/
def RescanSpends (E : WalletEnv) (index : TxIndexTable) (t : CoinTable) (coin : SpentCoin) : Prop :=
  ∃ tx, Rescanned E index t tx ∧ E.txHash tx ∉ t ∧ SpendsCoin tx coin

/-- What the last round does to the flags. -/
theorem reacceptRound_last (ho : AllSucceed o) (hread : IndexReadable E index)
    (hmatch : MatchesIndex E index st.mapWallet)
    (hlast : (reacceptRound E o index chain st).2 = false) :
    SameTxs st.mapWallet (reacceptRound E o index chain st).1.mapWallet ∧
      ∀ coin, Marked (reacceptRound E o index chain st).1.mapWallet coin ↔
        Marked st.mapWallet coin ∨ (∃ pos, FoundSpent E index st.mapWallet coin pos) ∨
          IsOwn E st.mapWallet coin ∧ RescanSpends E index st.mapWallet coin := by
  obtain ⟨checked, next, hpass, hscanned, hround⟩ :=
    @reacceptRound_spec E o index chain st ho hread hmatch
  rw [hround] at hlast ⊢
  have hzero : next.2 = 0 := Nat.eq_zero_of_not_pos (of_decide_eq_false hlast)
  obtain ⟨hsame, hmarked⟩ := hscanned.quiet hzero
  refine ⟨hpass.keeps.1.trans hsame, fun coin => ?_⟩
  rw [hmarked, hpass.marked, hpass.keeps.1.isOwn_iff, true_and, or_assoc]
  simp [hpass.keeps.1.mem_iff, RescanSpends]

end Round

/-! ## The repair -/

def IndexSpent (index : TxIndexTable) (coin : SpentCoin) : Prop := ∃ pos, IndexSpends index coin pos

def Repaired (E : WalletEnv) (index : TxIndexTable) (st : ReacceptState) : Prop :=
  ∀ coin, IsOwn E st.mapWallet coin → IndexSpent index coin ∨ WalletSpends st.mapWallet coin →
    Marked st.mapWallet coin ∧ Marked st.tx coin

/-- An output that the index has as spent, of a coinbase that is skipped for its first output. -/
def PassedOver (E : WalletEnv) (index : TxIndexTable) (t : CoinTable) (coin : SpentCoin) : Prop :=
  IsOwn E t coin ∧ IndexSpent index coin ∧ Skipped t coin.1

def SpentAside (E : WalletEnv) (index : TxIndexTable) (t : CoinTable) (coin : SpentCoin) : Prop :=
  IsOwn E t coin ∧ WalletSpends t coin ∧ ¬ IndexSpent index coin

section Repair

variable {E : WalletEnv} {o : ReacceptOutcome} {index : TxIndexTable} {chain : List CBlock}
  {st : ReacceptState} {t t' : CoinTable} {coin : SpentCoin}

theorem SameTxs.walletSpends_iff (h : SameTxs t t') :
    WalletSpends t' coin ↔ WalletSpends t coin := by
  have hmono {a b : CoinTable} (hab : SameTxs a b) (hspends : WalletSpends a coin) :
      WalletSpends b coin := by
    obtain ⟨hash, wtx, hwtx, hspend⟩ := hspends
    obtain ⟨wtx', hwtx', htx⟩ := hab.exists_lookup hwtx
    exact ⟨hash, wtx', hwtx', by rw [htx]; exact hspend⟩
  exact ⟨hmono h.symm, hmono h⟩

section

variable (ho : AllSucceed o) (hread : IndexReadable E index) (h : ReacceptInput E index st)
include ho hread h

/-- After the last round the flags are right if and only if every output that this round cannot
find was marked before it. -/
theorem repaired_last_iff (hlast : (reacceptRound E o index chain st).2 = false) :
    Repaired E index (reacceptRound E o index chain st).1 ↔
      ∀ coin, PassedOver E index st.mapWallet coin ∨ SpentAside E index st.mapWallet coin →
        Marked st.mapWallet coin ∨ RescanSpends E index st.mapWallet coin := by
  obtain ⟨hsame, hmarked⟩ := @reacceptRound_last E o index chain st ho hread h.matchesIndex hlast
  have hdb := (@reacceptRound_input E o index chain st ho hread h).inDatabase
  have hboth (coin : SpentCoin)
      (hmem : Marked (reacceptRound E o index chain st).1.mapWallet coin) :
      Marked (reacceptRound E o index chain st).1.tx coin := by
    obtain ⟨wtx, hwtx, hspent⟩ := hmem
    exact ⟨wtx, hdb _ wtx hwtx, hspent⟩
  constructor
  · intro hrepaired coin hleft
    have hown : IsOwn E st.mapWallet coin := hleft.elim And.left And.left
    have hspent : IndexSpent index coin ∨ WalletSpends st.mapWallet coin :=
      hleft.imp (fun hpassed => hpassed.2.1) fun haside => haside.2.1
    have hflag := (hrepaired coin (hsame.isOwn_iff.mpr hown)
      (hspent.imp id hsame.walletSpends_iff.mpr)).1
    obtain hold | ⟨pos, hfound⟩ | ⟨-, hrescan⟩ := (hmarked coin).mp hflag
    · exact Or.inl hold
    · obtain hpassed | haside := hleft
      · exact absurd hpassed.2.2 hfound.2.2
      · exact absurd ⟨pos, hfound.2.1⟩ haside.2.2
    · exact Or.inr hrescan
  · intro hcondition coin hown hspent
    rw [hsame.isOwn_iff] at hown
    rw [hsame.walletSpends_iff] at hspent
    suffices hflag : Marked (reacceptRound E o index chain st).1.mapWallet coin from
      ⟨hflag, hboth coin hflag⟩
    rw [hmarked]
    by_cases hindex : IndexSpent index coin
    · by_cases hskip : Skipped st.mapWallet coin.1
      · obtain hold | hrescan := hcondition coin (Or.inl ⟨hown, hindex, hskip⟩)
        · exact Or.inl hold
        · exact Or.inr (Or.inr ⟨hown, hrescan⟩)
      · obtain ⟨pos, hpos⟩ := hindex
        exact Or.inr (Or.inl ⟨pos, hown, hpos, hskip⟩)
    · have hwallet := hspent.resolve_left hindex
      obtain hold | hrescan := hcondition coin (Or.inr ⟨hown, hwallet, hindex⟩)
      · exact Or.inl hold
      · exact Or.inr (Or.inr ⟨hown, hrescan⟩)

end

/-! ## The given wallet -/

/-- A transaction of a block in which the index has an output as spent. -/
def InSpendingBlock (E : WalletEnv) (index : TxIndexTable) (tx : CTransaction) : Prop :=
  ∃ coin pos block, IndexSpends index coin pos ∧ readBlockAt E (blockKey pos) = some block ∧
    tx ∈ block.vtx

/-- The output is marked, or it is once the flags are repaired from the wallet's own inputs. -/
def MarkedEarly (E : WalletEnv) (t : CoinTable) (coin : SpentCoin) : Prop :=
  Marked t coin ∨ IsOwn E t coin ∧ WalletSpends t coin

/-- A wallet in which no round passes over an output. A coinbase whose first output is marked has
no other own output left that the index has as spent. What the blocks can add to the wallet is no
coinbase with such an output but the first, and the index knows all its own outputs that a
transaction of the wallet or of the blocks spends. -/
structure NonePassedOver (E : WalletEnv) (index : TxIndexTable) (t : CoinTable) : Prop where
  coinbase : ∀ coin wtx, t.lookup coin.1 = some wtx → wtx.IsCoinBase → IsOwn E t coin →
    IndexSpent index coin → MarkedEarly E t (coin.1, 0) → MarkedEarly E t coin
  addedCoinbase : ∀ tx i txout, InSpendingBlock E index tx → E.txHash tx ∉ t → tx.IsCoinBase →
    tx.vout[i]? = some txout → E.isMine txout = true → IndexSpent index (E.txHash tx, i) → i = 0
  addedSpent : ∀ tx i txout, InSpendingBlock E index tx → E.txHash tx ∉ t →
    tx.vout[i]? = some txout → E.isMine txout = true →
    (WalletSpends t (E.txHash tx, i) ∨
      ∃ tx', InSpendingBlock E index tx' ∧ SpendsCoin tx' (E.txHash tx, i)) →
    IndexSpent index (E.txHash tx, i)

/-- The transactions are those of `t` and others of blocks. -/
def FromBlocks (E : WalletEnv) (index : TxIndexTable) (t m : CoinTable) : Prop :=
  ∀ hash wtx, m.lookup hash = some wtx →
    (∃ wtx₀, t.lookup hash = some wtx₀ ∧ wtx.toCWalletTx = wtx₀.toCWalletTx) ∨
      hash ∉ t ∧ InSpendingBlock E index wtx.toCTransaction

/-- What holds before every round, for the wallet `t` that the command was given. -/
structure RepairInv (E : WalletEnv) (index : TxIndexTable) (t : CoinTable) (st : ReacceptState) :
    Prop where
  grows : ∀ hash ∈ t, hash ∈ st.mapWallet
  known : FromBlocks E index t st.mapWallet
  passed : ∀ coin, PassedOver E index st.mapWallet coin → Marked st.mapWallet coin
  aside : ∀ coin, SpentAside E index st.mapWallet coin → Marked st.mapWallet coin

theorem FromBlocks.spender {m : CoinTable} (h : FromBlocks E index t m)
    (hspends : WalletSpends m coin) :
    WalletSpends t coin ∨ ∃ tx, InSpendingBlock E index tx ∧ SpendsCoin tx coin := by
  obtain ⟨hash, wtx, hwtx, hspend⟩ := hspends
  rcases h hash wtx hwtx with ⟨wtx₀, hwtx₀, hsame⟩ | ⟨-, hblock⟩
  · rw [hsame] at hspend
    exact Or.inl ⟨hash, wtx₀, hwtx₀, hspend⟩
  · exact Or.inr ⟨_, hblock, hspend⟩

theorem FromBlocks.scanned {st : ReacceptState} {acc next : ReacceptState × ℕ}
    (h : FromBlocks E index t st.mapWallet) (hsame : SameTxs st.mapWallet acc.1.mapWallet)
    (hgrows : ∀ hash ∈ t, hash ∈ acc.1.mapWallet)
    (hscanned : Scanned E (Rescanned E index st.mapWallet) acc next) :
    FromBlocks E index t next.1.mapWallet := by
  intro hash wtx hwtx
  by_cases hmem : hash ∈ acc.1.mapWallet
  · obtain ⟨wtx₁, hwtx₁, htx₁⟩ := hscanned.lookup_of_mem hmem hwtx
    obtain ⟨wtx₂, hwtx₂, htx₂⟩ := hsame.symm.exists_lookup hwtx₁
    have hknown := h hash wtx₂ hwtx₂
    rwa [htx₂, ← htx₁] at hknown
  · rcases hscanned.source hash wtx hwtx with ⟨wtx₁, hwtx₁, -⟩ | ⟨hrescanned, -⟩
    · exact absurd (mem_of_lookup_eq_some hwtx₁) hmem
    · obtain ⟨coin, pos, block, -, hfound, hblock, htx⟩ := hrescanned
      exact Or.inr ⟨fun hin => hmem (hgrows hash hin), coin, pos, block, hfound.2.1, hblock, htx⟩

/-- An own output is one of the wallet before the scan, or of a transaction that the blocks add. -/
theorem FromBlocks.own_cases {p : CTransaction → Prop} {acc next : ReacceptState × ℕ}
    (h : FromBlocks E index t next.1.mapWallet) (hkeyed : MatchesIndex E index next.1.mapWallet)
    (hgrows : ∀ hash ∈ t, hash ∈ acc.1.mapWallet) (hscanned : Scanned E p acc next)
    (hown : IsOwn E next.1.mapWallet coin) :
    IsOwn E acc.1.mapWallet coin ∨ ∃ wtx txout,
      next.1.mapWallet.lookup coin.1 = some wtx ∧ InSpendingBlock E index wtx.toCTransaction ∧
        coin.1 ∉ t ∧ E.txHash wtx.toCTransaction = coin.1 ∧ wtx.vout[coin.2]? = some txout ∧
          E.isMine txout = true := by
  obtain ⟨wtx, txout, hwtx, hout, hmine⟩ := hown
  by_cases hmem : coin.1 ∈ acc.1.mapWallet
  · obtain ⟨wtx₁, hwtx₁, htx⟩ := hscanned.lookup_of_mem hmem hwtx
    exact Or.inl ⟨wtx₁, txout, hwtx₁, by rw [← htx]; exact hout, hmine⟩
  · rcases h _ wtx hwtx with ⟨wtx₀, hwtx₀, -⟩ | ⟨hnot, hblock⟩
    · exact absurd (hgrows _ (mem_of_lookup_eq_some hwtx₀)) hmem
    · exact Or.inr ⟨wtx, txout, hwtx, hblock, hnot, (hkeyed _ wtx hwtx).1, hout, hmine⟩

section

variable (ho : AllSucceed o)
include ho

theorem repairInv_repairSpent (hgiven : NonePassedOver E index st.mapWallet) :
    RepairInv E index st.mapWallet (repairSpent E o st) := by
  obtain ⟨⟨hsame, -⟩, hmarked⟩ := repairs_repairSpent (E := E) ho st
  refine ⟨fun hash => (hsame.mem_iff hash).mpr, fun hash wtx hwtx => ?_, ?_, ?_⟩
  · obtain ⟨wtx₀, hwtx₀, htx⟩ := hsame.symm.exists_lookup hwtx
    exact Or.inl ⟨wtx₀, hwtx₀, htx.symm⟩
  · rintro coin ⟨hown, hindex, ⟨wtx, hwtx, hbase⟩, hfirst⟩
    obtain ⟨wtx₀, hwtx₀, htx⟩ := hsame.symm.exists_lookup hwtx
    rw [← htx] at hbase
    exact (hmarked coin).mpr (hgiven.coinbase coin wtx₀ hwtx₀ hbase (hsame.isOwn_iff.mp hown)
      hindex ((hmarked _).mp hfirst))
  · rintro coin ⟨hown, hspends, -⟩
    exact (hmarked coin).mpr (Or.inr ⟨hsame.isOwn_iff.mp hown, hsame.walletSpends_iff.mp hspends⟩)

theorem reacceptRound_inv (hread : IndexReadable E index) (hgiven : NonePassedOver E index t)
    (hinput : ReacceptInput E index st) (h : RepairInv E index t st) :
    RepairInv E index t (reacceptRound E o index chain st).1 := by
  have hkeyed := (@reacceptRound_input E o index chain st ho hread hinput).matchesIndex
  obtain ⟨checked, next, hpass, hscanned, hround⟩ :=
    @reacceptRound_spec E o index chain st ho hread hinput.matchesIndex
  rw [hround] at hkeyed ⊢
  have hsame := hpass.keeps.1
  have hgrows (hash : uint256) (hmem : hash ∈ t) : hash ∈ checked.1.mapWallet :=
    (hsame.mem_iff hash).mpr (h.grows hash hmem)
  have hknown := h.known.scanned hsame hgrows hscanned
  refine ⟨fun hash hmem => hscanned.grows (hgrows hash hmem), hknown, ?_, ?_⟩
  · rintro ⟨hash, i⟩ ⟨hown, hindex, ⟨wtx, hwtx, hbase⟩, hfirst⟩
    rcases hknown.own_cases hkeyed hgrows hscanned hown with
      hold | ⟨wtx', txout, hwtx', hblock, hnot, hhash, hout, hmine⟩
    · apply hscanned.marks
      rw [hpass.marked]
      rw [hsame.isOwn_iff] at hold
      by_cases hskip : Skipped st.mapWallet hash
      · exact Or.inl (h.passed (hash, i) ⟨hold, hindex, hskip⟩)
      · obtain ⟨pos, hpos⟩ := hindex
        exact Or.inr ⟨trivial, pos, hold, hpos, hskip⟩
    · cases hwtx.symm.trans hwtx'
      obtain rfl : E.txHash wtx.toCTransaction = hash := hhash
      obtain rfl := hgiven.addedCoinbase _ i txout hblock hnot hbase hout hmine hindex
      exact hfirst
  · rintro ⟨hash, i⟩ ⟨hown, hspends, hindex⟩
    rcases hknown.own_cases hkeyed hgrows hscanned hown with
      hold | ⟨wtx', txout, -, hblock, hnot, hhash, hout, hmine⟩
    · obtain ⟨hash', wtx, hwtx, hspend⟩ := hspends
      by_cases hmem : hash' ∈ checked.1.mapWallet
      · obtain ⟨wtx₁, hwtx₁, htx⟩ := hscanned.lookup_of_mem hmem hwtx
        rw [htx] at hspend
        apply hscanned.marks
        rw [hpass.marked]
        exact Or.inl (h.aside (hash, i) ⟨hsame.isOwn_iff.mp hold,
          hsame.walletSpends_iff.mp ⟨hash', wtx₁, hwtx₁, hspend⟩, hindex⟩)
      · exact hscanned.spends hash' wtx hwtx hmem (hash, i) hold hspend
    · obtain rfl : E.txHash wtx'.toCTransaction = hash := hhash
      exact absurd (hgiven.addedSpent _ i txout hblock hnot hout hmine (hknown.spender hspends))
        hindex

end

end Repair

/-! ## A coinbase with two outputs -/

namespace CoinbaseOfTwo

def outcome : ReacceptOutcome := ⟨fun _ => true, fun _ => {}⟩

/-- A coinbase with two outputs. -/
def coinbaseTx (vfSpent : List Bool) : WalletCoins :=
  { CWalletTx.null with
    vin := [⟨⟨0, uintMax⟩, [], 0⟩]
    vout := [⟨5, []⟩, ⟨5, []⟩]
    vfSpent := vfSpent }

def wallet (vfSpent : List Bool) : ReacceptState where
  mapWallet := singleton 1 (coinbaseTx vfSpent)
  nOrderPosNext := 0
  tx := singleton 1 (coinbaseTx vfSpent)
  nAccess := 0

/-- The second output is spent in a block that can be read. -/
def index : TxIndexTable := singleton 1 ⟨⟨1, 0, 0⟩, [CDiskTxPos.null, ⟨1, 3, 0⟩]⟩

theorem lookup_singleton_eq {V : Type} {k : uint256} {v v' : V}
    (h : (Finmap.singleton 1 v : Table uint256 V).lookup k = some v') : k = 1 ∧ v = v' := by
  have hmem := Finmap.mem_of_lookup_eq_some h
  rw [Finmap.mem_singleton] at hmem
  subst hmem
  exact ⟨rfl, Option.some.inj h⟩

theorem succeeds : AllSucceed outcome :=
  ⟨fun _ => rfl, fun _ _ => ⟨rfl, rfl, fun _ _ => rfl, rfl⟩⟩

theorem indexSpends_eq {coin : SpentCoin} {pos : CDiskTxPos} (h : IndexSpends index coin pos) :
    coin.1 = 1 ∧ pos = ⟨1, 3, 0⟩ := by
  obtain ⟨hash, i⟩ := coin
  obtain ⟨txindex, hindex, hpos, hnull⟩ := h
  obtain ⟨rfl, rfl⟩ := lookup_singleton_eq hindex
  refine ⟨rfl, ?_⟩
  match i, hpos with
  | 0, hpos => exact absurd (Option.some.inj hpos ▸ rfl) hnull
  | 1, hpos => exact (Option.some.inj hpos).symm

theorem readable : IndexReadable walletEnv index := by
  intro coin pos hspends
  obtain ⟨-, rfl⟩ := indexSpends_eq hspends
  refine ⟨SampleFork.block 3 3, rfl, fun tx htx txindex hindex => ?_⟩
  obtain rfl : tx = SampleFork.coinBase 3 := mem_singleton.mp htx
  exact absurd (lookup_singleton_eq hindex).1 (by decide)

theorem input (vfSpent : List Bool) :
    ReacceptInput walletEnv index (wallet vfSpent) := by
  refine ⟨fun hash wtx hwtx => ?_, fun hash wtx hwtx => hwtx⟩
  obtain ⟨rfl, rfl⟩ := lookup_singleton_eq hwtx
  refine ⟨rfl, fun txindex hindex => ?_⟩
  obtain ⟨-, rfl⟩ := lookup_singleton_eq hindex
  rfl

theorem inSpendingBlock_eq {tx : CTransaction}
    (h : InSpendingBlock walletEnv index tx) : tx = SampleFork.coinBase 3 := by
  obtain ⟨coin, pos, block, hspends, hblock, hmem⟩ := h
  obtain ⟨-, rfl⟩ := indexSpends_eq hspends
  obtain rfl : SampleFork.block 3 3 = block := Option.some.inj hblock
  exact mem_singleton.mp hmem

theorem walletSpends_eq {coin : SpentCoin} (h : WalletSpends (wallet []).mapWallet coin) :
    coin.1 = 0 := by
  obtain ⟨hash, wtx, hwtx, txin, htxin, hprevout⟩ := h
  obtain ⟨-, rfl⟩ := lookup_singleton_eq hwtx
  obtain rfl : txin = ⟨⟨0, uintMax⟩, [], 0⟩ := mem_singleton.mp htxin
  exact (COutPoint.mk.inj hprevout).1.symm

theorem nonePassedOver : NonePassedOver walletEnv index (wallet []).mapWallet where
  coinbase coin wtx hwtx _ _ _ hfirst := by
    obtain ⟨hone, -⟩ := lookup_singleton_eq hwtx
    rcases hfirst with ⟨wtx', hwtx', hspent⟩ | ⟨-, hspends⟩
    · obtain ⟨-, rfl⟩ := lookup_singleton_eq hwtx'
      cases hspent
    · have hzero := walletSpends_eq hspends
      dsimp only at hzero
      rw [hone] at hzero
      cases hzero
  addedCoinbase tx i txout _ hnot _ _ _ hindex := by
    obtain ⟨pos, hspends⟩ := hindex
    have hone : walletEnv.txHash tx = 1 := (indexSpends_eq hspends).1
    exact absurd ((mem_singleton _ _ _).mpr hone) hnot
  addedSpent tx i txout hblock _ _ _ hspent := by
    obtain rfl := inSpendingBlock_eq hblock
    rcases hspent with hspends | ⟨tx', hblock', txin, htxin, hprevout⟩
    · cases walletSpends_eq hspends
    · obtain rfl := inSpendingBlock_eq hblock'
      obtain rfl := mem_singleton.mp htxin
      cases hprevout

end CoinbaseOfTwo

end Phoenixcoin.Analysis
