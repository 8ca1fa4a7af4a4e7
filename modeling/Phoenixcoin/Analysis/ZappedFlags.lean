import Phoenixcoin.Program.ZapWallet

/-!
# What zapping does to the spent flags

A run of `ZapWalletTransactions` is a list of accesses to the database that the wallet before it
decides: the restored outputs in order, then the removed transactions. The run ends with all of
their effects, or with those before the first access that does not find its file and with what
this one did in memory.
-/

set_option autoImplicit false

namespace Phoenixcoin.Analysis

open Lib Program List Option WalletCoins

/-! ## Accesses -/

/-- An access to the database with the change of memory that belongs to it. -/
inductive ZapAccess where
  | restore (coin : SpentCoin)
  | remove (hash : uint256)

def unmark (m : CoinTable) (coin : SpentCoin) : CoinTable :=
  (m.lookup coin.1).elim m fun wtx => m.insert coin.1 (wtx.MarkUnspent coin.2)

namespace ZapAccess

/-- Memory when the database is opened. -/
def before (m : CoinTable) : ZapAccess → CoinTable
  | .restore coin => unmark m coin
  | .remove _ => m

/-- The records after the operation. -/
def store (m tx : CoinTable) : ZapAccess → CoinTable
  | .restore coin => (m.lookup coin.1).elim tx fun wtx => tx.insert coin.1 wtx
  | .remove hash => tx.erase hash

/-- Memory after the operation. -/
def after (m : CoinTable) : ZapAccess → CoinTable
  | .restore _ => m
  | .remove hash => m.erase hash

end ZapAccess

open ZapAccess

variable (o : ZapOutcome)

def effect (i : ℕ) (w : ZapWallet) (a : ZapAccess) : ZapWallet where
  mapWallet := a.after (a.before w.mapWallet)
  tx := if o.succeeds i then a.store (a.before w.mapWallet) w.tx else w.tx

def half (w : ZapWallet) (a : ZapAccess) : ZapWallet := { w with mapWallet := a.before w.mapWallet }

def perform (r : ZapRun) (a : ZapAccess) : Except ZapWallet ZapRun :=
  if ¬ o.opens r.nAccess then .error (half r.toZapWallet a)
  else .ok ⟨effect o r.nAccess r.toZapWallet a, r.nAccess + 1⟩

/-- The wallet after accesses that all find their file, from the `i`-th on. -/
def effects : ℕ → ZapWallet → List ZapAccess → ZapWallet
  | _, w, [] => w
  | i, w, a :: l => effects (i + 1) (effect o i w a) l

theorem effects_append (i : ℕ) (w : ZapWallet) (l l' : List ZapAccess) :
    effects o i w (l ++ l') = effects o (i + l.length) (effects o i w l) l' := by
  induction l generalizing i w with
  | nil => rfl
  | cons a l ih =>
    rw [cons_append, effects, ih, length_cons]
    congr 1
    omega

variable {i k : ℕ} {w : ZapWallet} {r : ZapRun} {coins : List SpentCoin} {wtx : WalletCoins}

variable {l : List ZapAccess} {r' : ZapRun} {n : ℕ} {tx : CoinTable}

theorem perform_all (hopens : ∀ j < l.length, o.opens (i + j) = true) :
    l.foldlM (perform o) ⟨w, i⟩ = .ok ⟨effects o i w l, i + l.length⟩ := by
  induction l generalizing w i with
  | nil => rfl
  | cons a l ih =>
    have hfirst : o.opens i = true := hopens 0 (by simp)
    have hrest : ∀ j < l.length, o.opens (i + 1 + j) = true := by
      intro j hj
      have hnext := hopens (j + 1) (by simpa using hj)
      rwa [show i + (j + 1) = i + 1 + j by omega] at hnext
    have hstep : perform o ⟨w, i⟩ a = .ok ⟨effect o i w a, i + 1⟩ := by
      simp [perform, hfirst]
    rw [foldlM_cons, hstep]
    refine (ih hrest).trans ?_
    rw [effects, length_cons, show i + 1 + l.length = i + (l.length + 1) by omega]

theorem perform_first {a : ZapAccess} (hopens : ∀ j < k, o.opens (i + j) = true)
    (hfails : o.opens (i + k) = false) (ha : l[k]? = some a) :
    l.foldlM (perform o) ⟨w, i⟩ = .error (half (effects o i w (l.take k)) a) := by
  induction l generalizing w i k with
  | nil => simp at ha
  | cons b l ih =>
    cases k with
    | zero =>
      obtain rfl : b = a := by simpa using ha
      have hstep : perform o ⟨w, i⟩ b = .error (half w b) := by
        have hnot : o.opens i = false := hfails
        simp [perform, hnot]
      rw [foldlM_cons, hstep]
      rfl
    | succ k =>
      have hfirst : o.opens i = true := hopens 0 (by omega)
      have hstep : perform o ⟨w, i⟩ b = .ok ⟨effect o i w b, i + 1⟩ := by
        simp [perform, hfirst]
      have hrest : ∀ j < k, o.opens (i + 1 + j) = true := by
        intro j hj
        have hnext := hopens (j + 1) (by omega)
        rwa [show i + (j + 1) = i + 1 + j by omega] at hnext
      have hlast : o.opens (i + 1 + k) = false := by
        rwa [show i + 1 + k = i + (k + 1) by omega]
      rw [foldlM_cons, hstep]
      exact ih hrest hlast (by simpa using ha)

/-! ## Tables with other flags -/

def SameTxs (a b : CoinTable) : Prop :=
  ∀ hash, (a.lookup hash).map toCWalletTx = (b.lookup hash).map toCWalletTx

variable {a b m m' : CoinTable} {coin : SpentCoin} {hash : uint256}

theorem SameTxs.refl (m : CoinTable) : SameTxs m m := fun _ => rfl

theorem SameTxs.trans (h : SameTxs a b) (h' : SameTxs b m) : SameTxs a m :=
  fun hash => (h hash).trans (h' hash)

theorem lookup_unmark (m : CoinTable) (coin : SpentCoin) (hash : uint256) :
    (unmark m coin).lookup hash =
      if hash = coin.1 then (m.lookup hash).map (MarkUnspent coin.2)
      else m.lookup hash := by
  unfold unmark
  cases hcoin : m.lookup coin.1 with
  | none =>
    split
    · next heq => rw [heq, elim_none, hcoin, map_none]
    · rfl
  | some wtx =>
    rw [elim_some, Table.lookup_insert_ite]
    split
    · next heq => rw [heq, hcoin, map_some]
    · rfl

theorem sameTxs_unmark (m : CoinTable) (coin : SpentCoin) : SameTxs m (unmark m coin) := by
  intro hash
  rw [lookup_unmark]
  split
  · cases m.lookup hash with
    | none => rfl
    | some wtx => rfl
  · rfl

theorem SameTxs.isSome (h : SameTxs a b) (hash : uint256) :
    (a.lookup hash).isSome ↔ (b.lookup hash).isSome := by
  have hmap := congrArg Option.isSome (h hash)
  simpa using hmap

theorem SameTxs.elim_eq {B : Type} (h : SameTxs a b) (hash : uint256) (none' : B)
    (f : CWalletTx → B) :
    ((a.lookup hash).elim none' fun wtx => f wtx.toCWalletTx) =
      (b.lookup hash).elim none' fun wtx => f wtx.toCWalletTx := by
  have hmap := congrArg (fun found => found.elim none' f) (h hash)
  simpa [Function.comp_def] using hmap

/-! ## What is restored -/

variable (E : ZapEnv) (setZap : List uint256)

/-- The output that is restored for an input of a zapped transaction. -/
def restoredCoin (m : CoinTable) (txin : CTxIn) : Option SpentCoin :=
  (m.lookup txin.prevout.hash).elim none fun prevWtx =>
    if prevWtx.vout[txin.prevout.n]?.any E.isMine ∧ ¬ stillSpent setZap m txin.prevout then
      some (txin.prevout.hash, txin.prevout.n)
    else none

/-- The outputs that are restored, in order. -/
def restoredCoins (m : CoinTable) (hashes : List uint256) :
    List SpentCoin :=
  hashes.flatMap fun hash =>
    (m.lookup hash).elim [] fun wtx => wtx.vin.filterMap (restoredCoin E setZap m)

theorem stillSpent_congr (h : SameTxs a b) (setZap : List uint256) (prevout : COutPoint) :
    stillSpent setZap a prevout = stillSpent setZap b prevout := by
  have hlookup : ∀ other, ((a.lookup other).any fun wtx =>
      wtx.vin.any fun otherIn => otherIn.prevout = prevout) =
        (b.lookup other).any fun wtx => wtx.vin.any fun otherIn => otherIn.prevout = prevout := by
    intro other
    have heq := h.elim_eq other false fun wtx =>
      wtx.vin.any fun otherIn => decide (otherIn.prevout = prevout)
    cases ha : a.lookup other <;> cases hb : b.lookup other <;> simp_all
  unfold stillSpent
  rw [Table.sortedKeys_congr h.isSome]
  simp [hlookup]

theorem restoredCoin_congr (h : SameTxs a b) (setZap : List uint256) (txin : CTxIn) :
    restoredCoin E setZap a txin = restoredCoin E setZap b txin := by
  rw [restoredCoin, stillSpent_congr h]
  exact h.elim_eq txin.prevout.hash none fun prevWtx =>
    if prevWtx.vout[txin.prevout.n]?.any E.isMine ∧ ¬ stillSpent setZap b txin.prevout then
      some (txin.prevout.hash, txin.prevout.n)
    else none

theorem restoreInput_eq (r : ZapRun) (txin : CTxIn) :
    restoreInput E o setZap r txin =
      (restoredCoin E setZap r.mapWallet txin).elim (.ok r) fun coin =>
        perform o r (.restore coin) := by
  unfold restoreInput restoredCoin
  cases hprev : r.mapWallet.lookup txin.prevout.hash with
  | none => rfl
  | some prevWtx =>
    simp only [elim_some]
    by_cases hmine : prevWtx.vout[txin.prevout.n]?.any E.isMine = true
    · by_cases hstill : stillSpent setZap r.mapWallet txin.prevout = true
      · rw [if_neg (not_not.mpr hmine), if_pos hstill, if_neg (by simp [hstill]), elim_none]
      · have hunmark : unmark r.mapWallet (txin.prevout.hash, txin.prevout.n) =
            r.mapWallet.insert txin.prevout.hash (prevWtx.MarkUnspent txin.prevout.n) := by
          simp [unmark, hprev]
        rw [if_neg (not_not.mpr hmine), if_neg hstill, if_pos ⟨hmine, hstill⟩]
        unfold ZapOutcome.access perform half effect
        simp only [ZapAccess.before, ZapAccess.after, ZapAccess.store, hunmark,
          Finmap.lookup_insert, elim_some]
    · rw [if_pos hmine, if_neg (by simp [hmine]), elim_none]

theorem perform_sameTxs (h : perform o r (.restore coin) = .ok r') :
    SameTxs r.mapWallet r'.mapWallet := by
  unfold perform at h
  split at h
  · cases h
  · cases h
    exact sameTxs_unmark r.mapWallet coin

theorem foldlM_restoreInput (vin : List CTxIn) (hr : SameTxs m r.mapWallet)
    :
    vin.foldlM (restoreInput E o setZap) r =
      ((vin.filterMap (restoredCoin E setZap m)).map restore).foldlM (perform o) r := by
  induction vin generalizing r with
  | nil => rfl
  | cons txin vin ih =>
    rw [foldlM_cons, restoreInput_eq, ← restoredCoin_congr E hr, filterMap_cons]
    cases hcoin : restoredCoin E setZap m txin with
    | none => exact ih hr
    | some coin =>
      simp only [elim_some, map_cons, foldlM_cons]
      cases hstep : perform o r (.restore coin) with
      | error w => rfl
      | ok r' => exact ih (hr.trans (perform_sameTxs o hstep))

theorem foldlM_perform_sameTxs (h : (coins.map restore).foldlM (perform o) r = .ok r') :
    SameTxs r.mapWallet r'.mapWallet := by
  apply foldlM_invariant_ok (P := fun s => SameTxs r.mapWallet s.mapWallet) ?_
    (SameTxs.refl r.mapWallet) h
  intro a ha s s' hs hstep
  obtain ⟨coin, -, rfl⟩ := List.mem_map.mp ha
  exact hs.trans (perform_sameTxs o hstep)

theorem foldlM_restoreInputs (hashes : List uint256) (hr : SameTxs m r.mapWallet) :
    hashes.foldlM (restoreInputs E o setZap) r =
      ((restoredCoins E setZap m hashes).map restore).foldlM (perform o) r := by
  induction hashes generalizing r with
  | nil => rfl
  | cons hash hashes ih =>
    have hinputs : restoreInputs E o setZap r hash =
        (((m.lookup hash).elim [] fun wtx => wtx.vin.filterMap (restoredCoin E setZap m)).map
          restore).foldlM (perform o) r := by
      have hsame := hr.elim_eq hash [] fun wtx => wtx.vin.filterMap (restoredCoin E setZap m)
      rw [hsame]
      unfold restoreInputs
      cases r.mapWallet.lookup hash with
      | none => rfl
      | some wtx => exact foldlM_restoreInput o E setZap wtx.vin hr
    unfold restoredCoins at ih ⊢
    rw [foldlM_cons, hinputs, flatMap_cons, map_append, foldlM_append]
    cases hstep : (((m.lookup hash).elim [] fun wtx =>
        wtx.vin.filterMap (restoredCoin E setZap m)).map restore).foldlM
          (perform o) r with
    | error w => rfl
    | ok r' => exact ih (hr.trans (foldlM_perform_sameTxs o hstep))

/-! ## The whole call -/

theorem removeZapped_eq (r : ZapRun) (hash : uint256) (hmem : (r.mapWallet.lookup hash).isSome) :
    removeZapped o r hash = perform o r (.remove hash) := by
  obtain ⟨wtx, hwtx⟩ := isSome_iff_exists.mp hmem
  rw [removeZapped, hwtx]
  unfold ZapOutcome.access perform half effect
  by_cases hopens : o.opens r.nAccess = true
  · simp [hopens, ZapAccess.before, ZapAccess.after, ZapAccess.store]
    rfl
  · simp [hopens, ZapAccess.before]
    rfl

theorem foldlM_removeZapped {hashes : List uint256} (hnodup : hashes.Nodup)
    (hmem : ∀ hash ∈ hashes, (r.mapWallet.lookup hash).isSome) :
    hashes.foldlM (removeZapped o) r = (hashes.map remove).foldlM (perform o) r := by
  induction hashes generalizing r with
  | nil => rfl
  | cons hash hashes ih =>
    obtain ⟨hnot, hrest⟩ := nodup_cons.mp hnodup
    rw [foldlM_cons, map_cons, foldlM_cons, removeZapped_eq o r hash (hmem hash mem_cons_self)]
    cases hstep : perform o r (.remove hash) with
    | error w => rfl
    | ok r' =>
      refine ih hrest ?_
      intro other hother
      have hne : other ≠ hash := fun heq => hnot (heq ▸ hother)
      have hmap : r'.mapWallet = r.mapWallet.erase hash := by
        unfold perform at hstep
        split at hstep
        · cases hstep
        · cases hstep
          rfl
      rw [hmap, Finmap.lookup_erase_ne hne]
      exact hmem other (mem_cons_of_mem hash hother)

def zapRestores (w : ZapWallet) : List SpentCoin :=
  restoredCoins E (setZapOf E w.mapWallet) w.mapWallet (setZapOf E w.mapWallet)

/-- The accesses of a call, if all of them find their file. -/
def zapPlan (w : ZapWallet) : List ZapAccess :=
  (zapRestores E w).map restore ++ (setZapOf E w.mapWallet).map remove

theorem mem_setZapOf :
    hash ∈ setZapOf E m ↔ ∃ wtx, m.lookup hash = some wtx ∧ E.GetDepthInMainChain wtx = 0 := by
  rw [setZapOf, mem_filter, Table.mem_sortedKeys]
  constructor
  · rintro ⟨hsome, hdepth⟩
    obtain ⟨wtx, hwtx⟩ := isSome_iff_exists.mp hsome
    rw [hwtx] at hdepth
    exact ⟨wtx, hwtx, by simpa using hdepth⟩
  · rintro ⟨wtx, hwtx, hdepth⟩
    rw [hwtx]
    exact ⟨rfl, by simpa using hdepth⟩

theorem ZapWalletTransactions_eq (w : ZapWallet) :
    ZapWalletTransactions E o w =
      ((zapPlan E w).foldlM (perform o) ⟨w, 0⟩).map ZapRun.toZapWallet := by
  unfold ZapWalletTransactions zapPlan zapRestores
  generalize hzap : setZapOf E w.mapWallet = setZap
  by_cases hnil : setZap = []
  · rw [hnil]
    rfl
  · simp only [if_neg hnil]
    rw [foldlM_restoreInputs o E setZap setZap (SameTxs.refl w.mapWallet), foldlM_append]
    cases hrestored : ((restoredCoins E setZap w.mapWallet setZap).map
        restore).foldlM (perform o) ⟨w, 0⟩ with
    | error w' => rfl
    | ok r =>
      have hsame := foldlM_perform_sameTxs o hrestored
      have hnodup : setZap.Nodup := by
        rw [← hzap]
        exact (Table.nodup_sortedKeys w.mapWallet).filter _
      have hmem : ∀ hash ∈ setZap, (r.mapWallet.lookup hash).isSome := by
        intro hash hhash
        rw [← hzap] at hhash
        obtain ⟨wtx, hwtx, -⟩ := (mem_setZapOf E).mp hhash
        rw [← hsame.isSome hash, hwtx]
        rfl
      have hremoved := foldlM_removeZapped o hnodup hmem
      simp only [bind, Except.bind] at hremoved ⊢
      rw [hremoved]
      cases (setZap.map remove).foldlM (perform o) r with
      | error w' => rfl
      | ok r' => rfl

/-! ## Flags -/

theorem length_resized (vfSpent : List Bool) (size : ℕ) :
    ((vfSpent ++ List.replicate size false).take size).length = size := by
  rw [length_take, length_append, length_replicate]
  omega

theorem resized_of_length {vfSpent : List Bool} {size : ℕ} (h : vfSpent.length = size) :
    (vfSpent ++ List.replicate size false).take size = vfSpent := by
  rw [← h, take_left]

theorem IsSpent_MarkUnspent (wtx : WalletCoins) (n k : ℕ) :
    (wtx.MarkUnspent n).IsSpent k = (wtx.IsSpent k && decide (k ≠ n)) := by
  unfold IsSpent MarkUnspent
  by_cases hk : k < wtx.vout.length
  · simp only [hk, decide_true, Bool.true_and, getD_eq_getElem?_getD, getElem?_set, length_resized]
    by_cases heq : n = k
    · subst heq
      simp [hk]
    · rw [if_neg heq, getElem?_take_of_lt hk]
      have hne : k ≠ n := fun h => heq h.symm
      simp only [hne, ne_eq, not_false_eq_true, decide_true, Bool.and_true]
      by_cases hold : k < wtx.vfSpent.length
      · rw [getElem?_append_left hold]
      · rw [getElem?_append_right (by omega), getElem?_eq_none (by omega : _ ≤ k)]
        simp [getElem?_replicate]
        split
        · rfl
        · rfl
  · simp [hk]

/-- An output that is restored without a change stays so while others are restored. -/
theorem MarkUnspent_idle (h : wtx.MarkUnspent n = wtx) (k : ℕ) :
    (wtx.MarkUnspent k).MarkUnspent n = wtx.MarkUnspent k := by
  have hflags : ((wtx.vfSpent ++ List.replicate wtx.vout.length false).take
      wtx.vout.length).set n false = wtx.vfSpent := congrArg vfSpent h
  have hlength : wtx.vfSpent.length = wtx.vout.length := by
    rw [← hflags, length_set, length_resized]
  rw [resized_of_length hlength] at hflags
  have hset : (wtx.vfSpent.set k false).set n false = wtx.vfSpent.set k false := by
    by_cases heq : k = n
    · rw [heq, set_set]
    · rw [set_comm _ _ heq, hflags]
  unfold MarkUnspent
  simp only [resized_of_length hlength]
  rw [resized_of_length (by rw [length_set, hlength]), hset]

theorem MarkUnspent_twice (wtx : WalletCoins) (n : ℕ) :
    (wtx.MarkUnspent n).MarkUnspent n = wtx.MarkUnspent n := by
  unfold MarkUnspent
  simp only
  rw [resized_of_length (by rw [length_set, length_resized]), set_set]

/-! ## Restored outputs in memory -/

theorem unmark_eq_iff :
    unmark m coin = m ↔ ∀ wtx, m.lookup coin.1 = some wtx → wtx.MarkUnspent coin.2 = wtx := by
  constructor
  · intro h wtx hwtx
    have hlookup := lookup_unmark m coin coin.1
    rw [h, if_pos rfl, hwtx] at hlookup
    exact (Option.some.inj hlookup).symm
  · intro h
    apply Finmap.ext_lookup
    intro hash
    rw [lookup_unmark]
    split
    · next heq =>
      subst heq
      cases hwtx : m.lookup coin.1 with
      | none => rfl
      | some wtx => rw [map_some, h wtx hwtx]
    · rfl

theorem unmark_idle {d : SpentCoin} (h : unmark m coin = m) :
    unmark (unmark m d) coin = unmark m d := by
  rw [unmark_eq_iff] at h ⊢
  intro wtx hwtx
  rw [lookup_unmark] at hwtx
  split at hwtx
  · obtain ⟨old, hold, rfl⟩ := map_eq_some_iff.mp hwtx
    exact MarkUnspent_idle (h old hold) d.2
  · exact h wtx hwtx

theorem unmark_twice (m : CoinTable) (coin : SpentCoin) :
    unmark (unmark m coin) coin = unmark m coin := by
  rw [unmark_eq_iff]
  intro wtx hwtx
  rw [lookup_unmark, if_pos rfl] at hwtx
  obtain ⟨old, -, rfl⟩ := map_eq_some_iff.mp hwtx
  exact MarkUnspent_twice old coin.2

theorem foldl_unmark_idle (h : unmark m coin = m ∨ coin ∈ coins) :
    unmark (coins.foldl unmark m) coin = coins.foldl unmark m := by
  induction coins generalizing m with
  | nil =>
    rcases h with h | h
    · exact h
    · cases h
  | cons d coins ih =>
    apply ih
    rcases h with h | h
    · exact Or.inl (unmark_idle h)
    · rcases mem_cons.mp h with rfl | h
      · exact Or.inl (unmark_twice m coin)
      · exact Or.inr h

/-- Restoring changes nothing just when no restored output changes anything by itself. -/
theorem foldl_unmark_eq_iff : coins.foldl unmark m = m ↔ ∀ coin ∈ coins, unmark m coin = m := by
  constructor
  · intro h coin hcoin
    have hidle := foldl_unmark_idle (m := m) (Or.inr hcoin)
    rwa [h] at hidle
  · intro h
    induction coins with
    | nil => rfl
    | cons coin coins ih =>
      rw [foldl_cons, h coin mem_cons_self]
      exact ih fun d hd => h d (mem_cons_of_mem coin hd)

theorem foldl_unmark_lookup (coins : List SpentCoin) (h : m.lookup hash = some wtx) :
    ∃ wtx', (coins.foldl unmark m).lookup hash = some wtx' ∧
      ∀ n, wtx'.IsSpent n = (wtx.IsSpent n && decide ((hash, n) ∉ coins)) := by
  induction coins generalizing m wtx with
  | nil => exact ⟨wtx, h, by simp⟩
  | cons coin coins ih =>
    have hlookup := lookup_unmark m coin hash
    rw [h] at hlookup
    by_cases heq : hash = coin.1
    · rw [if_pos heq] at hlookup
      obtain ⟨wtx', hwtx', hflags⟩ := ih hlookup
      refine ⟨wtx', hwtx', ?_⟩
      intro n
      rw [hflags, IsSpent_MarkUnspent, Bool.and_assoc]
      have hcoin : coin = (hash, coin.2) := by rw [heq]
      rw [hcoin]
      simp [not_or]
    · rw [if_neg heq] at hlookup
      obtain ⟨wtx', hwtx', hflags⟩ := ih hlookup
      refine ⟨wtx', hwtx', ?_⟩
      intro n
      have hne : (hash, n) ≠ coin := fun hcoin => heq (congrArg Prod.fst hcoin)
      rw [hflags]
      simp [hne]

/-! ## The effects of a plan -/

theorem effects_restore_mapWallet (i : ℕ) (w : ZapWallet) (coins : List SpentCoin) :
    (effects o i w (coins.map restore)).mapWallet = coins.foldl unmark w.mapWallet := by
  induction coins generalizing i w with
  | nil => rfl
  | cons coin coins ih =>
    rw [map_cons, effects, ih]
    rfl

theorem effects_remove_lookup (i : ℕ) (w : ZapWallet) (hashes : List uint256) (hash : uint256) :
    (effects o i w (hashes.map remove)).mapWallet.lookup hash =
      if hash ∈ hashes then none else w.mapWallet.lookup hash := by
  induction hashes generalizing i w with
  | nil => rfl
  | cons other hashes ih =>
    have herase : (effect o i w (.remove other)).mapWallet = w.mapWallet.erase other := rfl
    rw [map_cons, effects, ih, herase, Table.lookup_erase_ite]
    by_cases hmem : hash ∈ hashes
    · simp [hmem]
    · simp [hmem]

/-- The record of a restored output's transaction says already what memory says. -/
def Stored (w : ZapWallet) (coin : SpentCoin) : Prop :=
  ∀ wtx, w.mapWallet.lookup coin.1 = some wtx → w.tx.lookup coin.1 = some wtx

theorem effect_idle (hidle : unmark w.mapWallet coin = w.mapWallet) (i : ℕ) (tx : CoinTable) :
    effect o i { w with tx := tx } (.restore coin) =
      { w with tx := if o.succeeds i then
        (w.mapWallet.lookup coin.1).elim tx fun wtx => tx.insert coin.1 wtx else tx } := by
  unfold effect
  simp [ZapAccess.before, ZapAccess.after, ZapAccess.store, hidle]

section

variable (hidle : ∀ coin ∈ coins, unmark w.mapWallet coin = w.mapWallet)
include hidle

theorem effects_restore_agrees (i : ℕ) (h : tx.lookup hash = w.mapWallet.lookup hash) :
    (effects o i { w with tx := tx } (coins.map restore)).tx.lookup hash =
      w.mapWallet.lookup hash := by
  induction coins generalizing i tx with
  | nil => exact h
  | cons coin coins ih =>
    rw [map_cons, effects, effect_idle o (hidle coin mem_cons_self)]
    apply ih fun d hd => hidle d (mem_cons_of_mem coin hd)
    split
    · cases hwtx : w.mapWallet.lookup coin.1 with
      | none => exact h
      | some wtx =>
        rw [elim_some, Table.lookup_insert_ite]
        split
        · next heq => rw [heq, hwtx]
        · exact h
    · exact h

theorem effects_restore_writes
    {j : ℕ} (hj : coins[j]? = some coin) (hsucceeds : o.succeeds (i + j) = true)
    (hwtx : w.mapWallet.lookup coin.1 = some wtx) :
    (effects o i { w with tx := tx } (coins.map restore)).tx.lookup coin.1 =
      some wtx := by
  induction coins generalizing i j tx with
  | nil => simp at hj
  | cons d coins ih =>
    have hrest : ∀ d ∈ coins, unmark w.mapWallet d = w.mapWallet :=
      fun c hc => hidle c (mem_cons_of_mem d hc)
    rw [map_cons, effects, effect_idle o (hidle d mem_cons_self)]
    cases j with
    | zero =>
      obtain rfl : d = coin := by simpa using hj
      rw [← hwtx]
      apply effects_restore_agrees o hrest
      have hnow : o.succeeds i = true := hsucceeds
      rw [if_pos hnow, hwtx, elim_some, Finmap.lookup_insert]
    | succ j =>
      have hlater : o.succeeds (i + 1 + j) = true := by
        rwa [show i + 1 + j = i + (j + 1) by omega]
      exact ih hrest (by simpa using hj) hlater

/-- Where restoring leaves memory alone, it leaves the database alone if the records that it
writes are there already. -/
theorem effects_restore_tx_eq_iff (i : ℕ) :
    (effects o i w (coins.map restore)).tx = w.tx ↔
      ∀ j coin, coins[j]? = some coin → o.succeeds (i + j) = true → Stored w coin := by
  constructor
  · intro h j coin hj hsucceeds wtx hwtx
    rw [← h]
    exact effects_restore_writes o hidle hj hsucceeds hwtx
  · intro h
    induction coins generalizing i with
    | nil => rfl
    | cons coin coins ih =>
      have hstep : effect o i w (.restore coin) = w := by
        refine (effect_idle o (hidle coin mem_cons_self) i w.tx).trans ?_
        split
        · next hsucceeds =>
          cases hwtx : w.mapWallet.lookup coin.1 with
          | none => rfl
          | some wtx =>
            have hstored := h 0 coin rfl hsucceeds wtx hwtx
            rw [elim_some, Table.insert_of_lookup_some hstored]
        · rfl
      rw [map_cons, effects, hstep]
      apply ih fun d hd => hidle d (mem_cons_of_mem coin hd)
      intro j d hj hsucceeds
      refine h (j + 1) d (by simpa using hj) ?_
      rwa [show i + (j + 1) = i + 1 + j by omega]

end

/-! ## What zapping should do -/

def SpentByOne (m : CoinTable) (zapped : Prop) (prevout : COutPoint) : Prop :=
  ∃ other wtx, (other ∈ setZapOf E m ↔ zapped) ∧ m.lookup other = some wtx ∧
    ∃ txin ∈ wtx.vin, txin.prevout = prevout

/-- Afterwards an output of the wallet in a transaction that stays is marked as spent if it was
and a transaction that stays spends it or no zapped one does. -/
def RightFlags (m m' : CoinTable) : Prop :=
  ∀ hash wtx, m.lookup hash = some wtx → hash ∉ setZapOf E m →
    ∃ wtx', m'.lookup hash = some wtx' ∧
      ∀ n txout, wtx.vout[n]? = some txout → E.isMine txout = true →
        (wtx'.IsSpent n = true ↔ wtx.IsSpent n = true ∧
          (SpentByOne E m False ⟨hash, n⟩ ∨ ¬SpentByOne E m True ⟨hash, n⟩))

theorem stillSpent_iff {prevout : COutPoint} :
    stillSpent (setZapOf E m) m prevout = true ↔ SpentByOne E m False prevout := by
  unfold stillSpent SpentByOne
  simp only [List.any_eq_true, Table.mem_sortedKeys, decide_eq_true_eq, Option.any_eq_true,
    iff_false]
  constructor
  · rintro ⟨other, -, hnot, wtx, hwtx, txin, htxin, hprevout⟩
    exact ⟨other, wtx, hnot, hwtx, txin, htxin, hprevout⟩
  · rintro ⟨other, wtx, hnot, hwtx, txin, htxin, hprevout⟩
    exact ⟨other, by rw [hwtx]; rfl, hnot, wtx, hwtx, txin, htxin, hprevout⟩

theorem mem_zapRestores {txout : CTxOut} (hwtx : w.mapWallet.lookup hash = some wtx)
    (htxout : wtx.vout[n]? = some txout) (hmine : E.isMine txout = true) :
    (hash, n) ∈ zapRestores E w ↔
      SpentByOne E w.mapWallet True ⟨hash, n⟩ ∧ ¬SpentByOne E w.mapWallet False ⟨hash, n⟩ := by
  rw [zapRestores, restoredCoins, mem_flatMap, ← stillSpent_iff]
  constructor
  · rintro ⟨other, hother, hmem⟩
    obtain ⟨otherTx, hotherTx, -⟩ := (mem_setZapOf E).mp hother
    rw [hotherTx, elim_some, mem_filterMap] at hmem
    obtain ⟨txin, htxin, hcoin⟩ := hmem
    unfold restoredCoin at hcoin
    cases hprev : w.mapWallet.lookup txin.prevout.hash with
    | none => simp [hprev] at hcoin
    | some prevWtx =>
      rw [hprev, elim_some] at hcoin
      split at hcoin
      · next hok =>
        obtain ⟨rfl, rfl⟩ := Prod.mk.inj (Option.some.inj hcoin)
        exact ⟨⟨other, otherTx, by simp [hother], hotherTx, txin, htxin, rfl⟩, hok.2⟩
      · cases hcoin
  · rintro ⟨⟨other, otherTx, hother, hotherTx, txin, htxin, hprevout⟩, hstill⟩
    refine ⟨other, by simpa using hother, ?_⟩
    rw [hotherTx, elim_some, mem_filterMap]
    refine ⟨txin, htxin, ?_⟩
    rw [restoredCoin, hprevout, hwtx, elim_some, htxout, if_pos ⟨by simpa using hmine, hstill⟩]

theorem rightFlags_effects (w : ZapWallet) :
    RightFlags E w.mapWallet (effects o 0 w (zapPlan E w)).mapWallet := by
  intro hash wtx hwtx hnot
  obtain ⟨wtx', hwtx', hflags⟩ := foldl_unmark_lookup (zapRestores E w) hwtx
  refine ⟨wtx', ?_, ?_⟩
  · rw [zapPlan, effects_append, effects_remove_lookup, if_neg hnot, effects_restore_mapWallet]
    exact hwtx'
  · intro n txout htxout hmine
    rw [hflags, Bool.and_eq_true, decide_eq_true_eq, mem_zapRestores E hwtx htxout hmine]
    tauto

/-- A call that returns leaves the right flags, and one that throws leaves the wallet and its
database alone. -/
structure ZapRight (w : ZapWallet) : Prop where
  success : ∀ w', ZapWalletTransactions E o w = .ok w' → RightFlags E w.mapWallet w'.mapWallet
  failure : ∀ w', ZapWalletTransactions E o w = .error w' → w' = w

/-- The first access that does not find its file. -/
structure FirstFailure (k : ℕ) : Prop where
  fails : o.opens k = false
  first : ∀ j < k, o.opens j = true

/-- Nothing has changed when the `k`-th access does not find its file: no transaction has been
removed, the outputs that were restored had not been marked as spent, and the records that were
written were there. -/
structure NothingChanged (w : ZapWallet) (k : ℕ) : Prop where
  early : k ≤ (zapRestores E w).length
  idle : ∀ coin ∈ (zapRestores E w).take (k + 1), unmark w.mapWallet coin = w.mapWallet
  stored : ∀ j < k, ∀ coin, (zapRestores E w)[j]? = some coin → o.succeeds j = true → Stored w coin

theorem zapPlan_take (hk : k ≤ (zapRestores E w).length) :
    (zapPlan E w).take k = ((zapRestores E w).take k).map restore := by
  rw [zapPlan, take_append_of_le_length (by simpa using hk), map_take]

theorem before_early {a : ZapAccess} (hk : k ≤ (zapRestores E w).length)
    (ha : (zapPlan E w)[k]? = some a) :
    a.before (((zapRestores E w).take k).foldl unmark w.mapWallet) =
      ((zapRestores E w).take (k + 1)).foldl unmark w.mapWallet := by
  unfold zapPlan at ha
  rw [take_add_one, foldl_append]
  by_cases hlt : k < (zapRestores E w).length
  · rw [getElem?_append_left (by simpa using hlt), getElem?_map, getElem?_eq_getElem hlt] at ha
    obtain rfl := Option.some.inj ha
    rw [getElem?_eq_getElem hlt]
    rfl
  · have hnone : (zapRestores E w)[k]? = none := getElem?_eq_none (by omega)
    rw [getElem?_append_right (by simpa using hlt), getElem?_map] at ha
    obtain ⟨hash, -, rfl⟩ := map_eq_some_iff.mp ha
    rw [hnone]
    rfl

theorem half_eq_iff {a : ZapAccess} (ha : (zapPlan E w)[k]? = some a) :
    half (effects o 0 w ((zapPlan E w).take k)) a = w ↔ NothingChanged o E w k := by
  by_cases hk : k ≤ (zapRestores E w).length
  · have hmemory : (half (effects o 0 w ((zapPlan E w).take k)) a).mapWallet =
        ((zapRestores E w).take (k + 1)).foldl unmark w.mapWallet := by
      rw [half, zapPlan_take E hk, effects_restore_mapWallet, before_early E hk ha]
    have hrecords : (half (effects o 0 w ((zapPlan E w).take k)) a).tx =
        (effects o 0 w (((zapRestores E w).take k).map restore)).tx := by
      rw [← zapPlan_take E hk]
      rfl
    have hshorter : ∀ coin ∈ (zapRestores E w).take k, coin ∈ (zapRestores E w).take (k + 1) :=
      fun coin hcoin => (take_subset_take_left _ (Nat.le_succ k)) hcoin
    constructor
    · intro h
      rw [h] at hmemory hrecords
      have hidle := foldl_unmark_eq_iff.mp hmemory.symm
      have hstored := (effects_restore_tx_eq_iff o
        (fun coin hcoin => hidle coin (hshorter coin hcoin)) 0).mp hrecords.symm
      refine ⟨hk, hidle, ?_⟩
      intro j hj coin hcoin hsucceeds
      apply hstored j coin
      · rw [getElem?_take_of_lt hj]
        exact hcoin
      · rwa [Nat.zero_add]
    · intro h
      have htx := (effects_restore_tx_eq_iff o
        (fun coin hcoin => h.idle coin (hshorter coin hcoin)) 0).mpr ?_
      · rw [foldl_unmark_eq_iff.mpr h.idle] at hmemory
        rw [htx] at hrecords
        exact ZapWallet.ext hmemory hrecords
      · intro j coin hcoin hsucceeds
        rw [Nat.zero_add] at hsucceeds
        obtain ⟨hj, hcoin⟩ : j < k ∧ (zapRestores E w)[j]? = some coin := by
          rw [getElem?_take] at hcoin
          split at hcoin
          · next hj => exact ⟨hj, hcoin⟩
          · cases hcoin
        exact h.stored j hj coin hcoin hsucceeds
  · -- the first zapped transaction is gone
    have hlate : ¬NothingChanged o E w k := fun h => hk h.early
    refine iff_of_false ?_ hlate
    intro h
    unfold zapPlan at ha h
    rw [getElem?_append_right (by simpa using Nat.le_of_not_le hk), getElem?_map] at ha
    obtain ⟨last, hlast, rfl⟩ := map_eq_some_iff.mp ha
    cases hzap : setZapOf E w.mapWallet with
    | nil =>
      rw [hzap] at hlast
      simp at hlast
    | cons hash hashes =>
      obtain ⟨wtx, hwtx, -⟩ := (mem_setZapOf E).mp (hzap ▸ mem_cons_self)
      have hcount : k - ((zapRestores E w).map restore).length =
          (k - (zapRestores E w).length - 1) + 1 := by
        rw [length_map]
        omega
      have hgone := congrArg (fun u => u.mapWallet.lookup hash) h
      rw [hzap, take_append, hcount, ← map_take (f := remove), effects_append] at hgone
      have hlookup := effects_remove_lookup o
        (0 + (((zapRestores E w).map restore).take k).length)
        (effects o 0 w (((zapRestores E w).map restore).take k))
        (hash :: hashes.take (k - (zapRestores E w).length - 1)) hash
      exact absurd (hlookup.symm.trans (hgone.trans hwtx)) (by simp)

/-- The call does what it should just when every access to the database finds its file, or the
first one that does not comes before anything has changed. -/
theorem zapRight_iff (w : ZapWallet) :
    ZapRight o E w ↔
      ∀ k < (zapPlan E w).length, FirstFailure o k → NothingChanged o E w k := by
  by_cases hall : ∀ j < (zapPlan E w).length, o.opens (0 + j) = true
  · have hresult : ZapWalletTransactions E o w = .ok (effects o 0 w (zapPlan E w)) := by
      rw [ZapWalletTransactions_eq, perform_all o hall]
      rfl
    refine iff_of_true ⟨?_, ?_⟩ ?_
    · intro w' h
      rw [hresult] at h
      cases h
      exact rightFlags_effects o E w
    · intro w' h
      rw [hresult] at h
      cases h
    · intro k hk hfirst
      have hopens := hall k hk
      rw [Nat.zero_add, hfirst.fails] at hopens
      cases hopens
  · obtain ⟨j, hj⟩ := not_forall.mp hall
    obtain ⟨hj, hopens⟩ := Classical.not_imp.mp hj
    have hexists : ∃ k, o.opens k = false := ⟨0 + j, by simpa using hopens⟩
    have hfails := Nat.find_spec hexists
    have hfirst : ∀ i < Nat.find hexists, o.opens i = true := by
      intro i hi
      simpa using Nat.find_min hexists hi
    have hlt : Nat.find hexists < (zapPlan E w).length := by
      have hle := Nat.find_min' hexists (by simpa using hopens : o.opens (0 + j) = false)
      omega
    generalize Nat.find hexists = k at hfails hfirst hlt
    have ha : (zapPlan E w)[k]? = some (zapPlan E w)[k] := getElem?_eq_getElem hlt
    have hresult : ZapWalletTransactions E o w =
        .error (half (effects o 0 w ((zapPlan E w).take k)) (zapPlan E w)[k]) := by
      rw [ZapWalletTransactions_eq, perform_first o (i := 0) (by simpa using hfirst)
        (by simpa using hfails) ha]
      rfl
    constructor
    · intro h i _ hfirstFailure
      have hsame : i = k := by
        rcases lt_trichotomy i k with hlt | heq | hlt
        · have hopen := hfirst i hlt
          rw [hfirstFailure.fails] at hopen
          cases hopen
        · exact heq
        · have hopen := hfirstFailure.first k hlt
          rw [hfails] at hopen
          cases hopen
      rw [hsame]
      exact (half_eq_iff o E ha).mp (h.failure _ hresult)
    · intro h
      refine ⟨?_, ?_⟩
      · intro w' hok
        rw [hresult] at hok
        cases hok
      · intro w' herror
        rw [hresult] at herror
        cases herror
        exact (half_eq_iff o E ha).mpr (h k hlt ⟨hfails, hfirst⟩)

/-! ## A database that cannot be opened -/

/-- Every output is mine, and a transaction is confirmed if it has a block. -/
def zapEnv : ZapEnv where
  isMine _ := true
  GetDepthInMainChain wtx := if wtx.hashBlock = 0 then 0 else 1

/-- A confirmed transaction with an output that is marked as spent. -/
def paidTx : WalletCoins :=
  { CWalletTx.null with
    vout := [⟨5, []⟩]
    hashBlock := 7
    vfSpent := [true] }

/-- An unconfirmed transaction that spends it. -/
def unconfirmedTx : WalletCoins :=
  { CWalletTx.null with
    vin := [⟨⟨1, 0⟩, [], 0⟩]
    vout := [⟨4, []⟩]
    vfSpent := [] }

def zappableWallet : ZapWallet where
  mapWallet := (Finmap.singleton 1 paidTx).insert 2 unconfirmedTx
  tx := (Finmap.singleton 1 paidTx).insert 2 unconfirmedTx

/-- The output is marked as unspent in memory before the exception. -/
theorem zap_unopened : ¬ZapRight ⟨fun _ => false, fun _ => true⟩ zapEnv zappableWallet := by
  intro h
  have hthrows : (ZapWalletTransactions zapEnv ⟨fun _ => false, fun _ => true⟩
      zappableWallet).isOk = false := by decide
  have hchanged : ZapWalletTransactions zapEnv ⟨fun _ => false, fun _ => true⟩ zappableWallet ≠
      .error zappableWallet := by decide
  cases hresult : ZapWalletTransactions zapEnv ⟨fun _ => false, fun _ => true⟩ zappableWallet with
  | ok w' =>
    rw [hresult] at hthrows
    cases hthrows
  | error w' =>
    obtain rfl := h.failure w' hresult
    exact hchanged hresult

end Phoenixcoin.Analysis
