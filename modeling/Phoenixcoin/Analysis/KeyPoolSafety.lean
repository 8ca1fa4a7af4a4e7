import Phoenixcoin.Program.KeyPool
import Mathlib.Order.Interval.Finset.Nat

/-!
# Safety of the key pool

Runs of the key pool together with its callers: the reservations they hold and the keys they
have kept. Indices are taken from the set of keys that remain in the pool, so an index that a
caller still holds may be given to a new key; a run in which no step does this is safe.
-/

set_option autoImplicit false

namespace Phoenixcoin.Analysis

open Lib Program KeyPoolWallet List Finset Function

variable {K : Type} [DecidableEq K]

/-! ## Runs -/

structure PoolRun (K : Type) where
  wallet : KeyPoolWallet K
  outstanding : List (ℕ × K)
  kept : List K

/-- A call; callers keep or return only what they have reserved. -/
inductive PoolOp (K : Type) where
  | newKeyPool (nSize : ℕ) (o : KeyPoolOutcome)
  | topUpKeyPool (o : KeyPoolOutcome)
  | reserve (o : KeyPoolOutcome)
  | keep (held : ℕ × K) (o : KeyPoolOutcome)
  | giveBack (held : ℕ × K)
  | getKey (fAllowReuse : Bool) (o : KeyPoolOutcome)
  | setLocked (fLocked : Bool)

/-- What a call does for its caller. -/
inductive PoolEvent (K : Type) where
  | nothing
  | handedOut (key : K)
  | threw (e : KeyPoolError)
deriving DecidableEq

section Step

variable (newKey : ℕ → K) (nKeyPoolArg : ℤ)

def stepReserve (s : PoolRun K) (o : KeyPoolOutcome) : PoolEvent K × PoolRun K :=
  match s.wallet.reserveKeyFromKeyPool newKey nKeyPoolArg o with
  | (.error e, w) => (.threw e, { s with wallet := w })
  | (.ok none, w) => (.nothing, { s with wallet := w })
  | (.ok (some (nIndex, keypool)), w) =>
    (.handedOut keypool.vchPubKey,
      { s with wallet := w, outstanding := (nIndex, keypool.vchPubKey) :: s.outstanding })

def stepKeep (s : PoolRun K) (held : ℕ × K) (o : KeyPoolOutcome) : PoolRun K :=
  if held ∈ s.outstanding then
    { wallet := s.wallet.keepKey o held.1
      outstanding := s.outstanding.erase held
      kept := held.2 :: s.kept }
  else s

/-- `GetKeyFromPool` keeps the key when it comes from the pool. -/
def stepGetKey (s : PoolRun K) (fAllowReuse : Bool) (o : KeyPoolOutcome) :
    PoolEvent K × PoolRun K :=
  let result := s.wallet.getKeyFromPool newKey nKeyPoolArg o fAllowReuse
  let kept := match (s.wallet.reserveKeyFromKeyPool newKey nKeyPoolArg o).1 with
    | .ok (some (_, keypool)) => keypool.vchPubKey :: s.kept
    | _ => s.kept
  let event := match result.1 with
    | .error e => .threw e
    | .ok none => .nothing
    | .ok (some key) => .handedOut key
  (event, { s with wallet := result.2, kept := kept })

def poolStep (s : PoolRun K) : PoolOp K → PoolEvent K × PoolRun K
  | .newKeyPool nSize o =>
    (.nothing, { s with wallet := (s.wallet.newKeyPool newKey nKeyPoolArg o nSize).2 })
  | .topUpKeyPool o =>
    match s.wallet.topUpKeyPool newKey nKeyPoolArg o with
    | .error e => (.threw e, s)
    | .ok (_, w) => (.nothing, { s with wallet := w })
  | .reserve o => stepReserve newKey nKeyPoolArg s o
  | .keep held o => (.nothing, stepKeep s held o)
  | .giveBack held =>
    (.nothing, if held ∈ s.outstanding then
        { s with wallet := s.wallet.returnKey held.1, outstanding := s.outstanding.erase held }
      else s)
  | .getKey fAllowReuse o => stepGetKey newKey nKeyPoolArg s fAllowReuse o
  | .setLocked fLocked => (.nothing, { s with wallet := { s.wallet with fLocked := fLocked } })

def poolRun (s : PoolRun K) (ops : List (PoolOp K)) : PoolRun K :=
  ops.foldl (fun s op => (poolStep newKey nKeyPoolArg s op).2) s

/-- The indices from `nIndex` on that a refill with `n` keys gives out, if it succeeds. -/
def refillIndices (o : KeyPoolOutcome) (n nIndex : ℕ) : Finset ℕ :=
  if o.refillBegin ∧ (∀ i ∈ Finset.Ico nIndex (nIndex + n),
      (o.stageKey i && o.writePool i) = true) ∧ o.refillCommit
  then Finset.Ico nIndex (nIndex + n) else ∅

def allocates (w : KeyPoolWallet K) : PoolOp K → Finset ℕ
  | .newKeyPool nSize o =>
    if w.fLocked ∨ (w.clearKeyPool o).isNone then ∅
    else refillIndices o (newPoolCount nKeyPoolArg nSize) 1
  | .topUpKeyPool o | .reserve o | .getKey _ o =>
    if w.fLocked then ∅ else refillIndices o (w.topUpCount nKeyPoolArg) w.topUpFirst
  | _ => ∅

/-- The call gives no index to a new key that a caller holds a reservation for. -/
def NoReallocation (s : PoolRun K) (op : PoolOp K) : Prop :=
  ∀ held ∈ s.outstanding, held.1 ∉ allocates nKeyPoolArg s.wallet op

/-- Every call of a run meets the condition in the state it is made in. -/
def EveryStep (P : PoolRun K → PoolOp K → Prop) : PoolRun K → List (PoolOp K) → Prop
  | _, [] => True
  | s, op :: ops => P s op ∧ EveryStep P (poolStep newKey nKeyPoolArg s op).2 ops

instance (s : PoolRun K) (op : PoolOp K) : Decidable (NoReallocation nKeyPoolArg s op) :=
  inferInstanceAs (Decidable (∀ held ∈ s.outstanding, _))

instance (P : PoolRun K → PoolOp K → Prop) [∀ s op, Decidable (P s op)] :
    ∀ s ops, Decidable (EveryStep newKey nKeyPoolArg P s ops)
  | _, [] => .isTrue trivial
  | s, op :: ops =>
    have := instDecidableEveryStep P (poolStep newKey nKeyPoolArg s op).2 ops
    inferInstanceAs (Decidable (P s op ∧ _))

end Step

/-! ## What safety means -/

/-- Every pool index has its record, and no index is held twice. -/
def PoolSafe (s : PoolRun K) : Prop :=
  (∀ i ∈ s.wallet.setKeyPool, i ∈ s.wallet.pool) ∧ (s.outstanding.map Prod.fst).Nodup

instance (s : PoolRun K) : Decidable (PoolSafe s) :=
  inferInstanceAs (Decidable ((∀ i ∈ s.wallet.setKeyPool, i ∈ s.wallet.pool) ∧ _))

def readFails : PoolOp K → Bool
  | .reserve o | .getKey _ o => !o.readPool
  | _ => false

def EventSafe (s : PoolRun K) (op : PoolOp K) : PoolEvent K → Prop
  | .handedOut key => key ∉ s.kept
  | .threw e => e = .readFailed → readFails op = true
  | .nothing => True

/-! ## The invariant -/

/-- The key `k` belongs to index `i`, which is in the pool or reserved. -/
def LiveKey (s : PoolRun K) (i : ℕ) (k : K) : Prop :=
  (i ∈ s.wallet.setKeyPool ∨ i ∈ s.outstanding.map Prod.fst) ∧
    ∃ nTime, s.wallet.pool.lookup i = some ⟨nTime, k⟩

/-- Which index is where. -/
structure IndicesOk (s : PoolRun K) : Prop where
  record : ∀ i ∈ s.wallet.setKeyPool, ∃ k, LiveKey s i k
  held : ∀ p ∈ s.outstanding, LiveKey s p.1 p.2
  apart : ∀ p ∈ s.outstanding, p.1 ∉ s.wallet.setKeyPool
  nodup : (s.outstanding.map Prod.fst).Nodup

/-- Which key is where. Keys still to be generated are nowhere. -/
structure KeysOk (newKey : ℕ → K) (s : PoolRun K) : Prop where
  distinct : ∀ i j k, LiveKey s i k → LiveKey s j k → i = j
  known : ∀ i k, LiveKey s i k → k ∈ s.wallet.keys
  unkept : ∀ i k, LiveKey s i k → k ∉ s.kept
  fresh : ∀ n, s.wallet.nNewKeys ≤ n → newKey n ∉ s.kept ∧ ∀ i, ¬ LiveKey s i (newKey n)
  defaultKey : ∀ k, s.wallet.vchDefaultKey = some k → k ∉ s.kept ∧ (∀ i, ¬ LiveKey s i k) ∧
    ∀ n, s.wallet.nNewKeys ≤ n → newKey n ≠ k

variable {newKey : ℕ → K} {nKeyPoolArg : ℤ}

variable {s : PoolRun K} {i n nIndex : ℕ} {o : KeyPoolOutcome} {r : Bool × KeyPoolWallet K}
  {w : KeyPoolWallet K}

omit [DecidableEq K] in
theorem KeysOk.mono {s' : PoolRun K} (h : KeysOk newKey s)
    (hlive : ∀ i k, LiveKey s' i k → LiveKey s i k)
    (hkeys : ∀ k ∈ s.wallet.keys, k ∈ s'.wallet.keys) (hkept : s'.kept = s.kept)
    (hdefault : s'.wallet.vchDefaultKey = s.wallet.vchDefaultKey)
    (hnew : s.wallet.nNewKeys ≤ s'.wallet.nNewKeys) : KeysOk newKey s' where
  distinct i j k hi hj := h.distinct i j k (hlive i k hi) (hlive j k hj)
  known i k hi := hkeys k (h.known i k (hlive i k hi))
  unkept i k hi := hkept ▸ h.unkept i k (hlive i k hi)
  fresh n hn := by
    obtain ⟨hk, hl⟩ := h.fresh n (hnew.trans hn)
    exact ⟨hkept ▸ hk, fun i hi => hl i (hlive i _ hi)⟩
  defaultKey k hk := by
    obtain ⟨h1, h2, h3⟩ := h.defaultKey k (hdefault ▸ hk)
    exact ⟨hkept ▸ h1, fun i hi => h2 i (hlive i k hi), fun n hn => h3 n (hnew.trans hn)⟩

/-- The state is one from which the pool is safe. -/
structure PoolInv (newKey : ℕ → K) (s : PoolRun K) : Prop where
  indices : IndicesOk s
  keys : KeysOk newKey s

omit [DecidableEq K] in
theorem PoolInv.safe (h : PoolInv newKey s) : PoolSafe s := by
  refine ⟨fun i hi => ?_, h.indices.nodup⟩
  obtain ⟨k, -, nTime, hlookup⟩ := h.indices.record i hi
  exact Finmap.mem_of_lookup_eq_some hlookup

/-! ## Refilling the pool -/

omit [DecidableEq K] in
theorem liveKey_addStaged (key : K) (o : KeyPoolOutcome) (hout : i ∉ s.outstanding.map Prod.fst)
    (j : ℕ) (k : K) :
    LiveKey { s with wallet := addStaged o s.wallet (i, key) } j k ↔
      (j = i ∧ k = key) ∨ (j ≠ i ∧ LiveKey s j k) := by
  unfold LiveKey addStaged
  simp only [Table.lookup_insert_ite, mem_insert]
  by_cases hj : j = i
  · subst hj
    simp only [true_or, if_true, true_and, ne_eq, not_true, false_and, or_false, Option.some.injEq,
      CKeyPool.mk.injEq]
    exact ⟨fun ⟨_, _, h⟩ => h.symm, fun h => ⟨o.nTime, rfl, h.symm⟩⟩
  · simp [hj]

omit [DecidableEq K] in
theorem addStaged_inv (hinj : Injective newKey) (o : KeyPoolOutcome) (h : PoolInv newKey s)
    (hpool : i ∉ s.wallet.setKeyPool) (hout : i ∉ s.outstanding.map Prod.fst) :
    PoolInv newKey { s with wallet := addStaged o s.wallet (i, newKey s.wallet.nNewKeys) } := by
  obtain ⟨hi, hk⟩ := h
  have hlive := liveKey_addStaged (newKey s.wallet.nNewKeys) o hout
  obtain ⟨hfreshKept, hfreshLive⟩ := hk.fresh _ le_rfl
  constructor
  · refine ⟨fun j hj => ?_, fun p hp => ?_, fun p hp => ?_, hi.nodup⟩
    · by_cases hji : j = i
      · exact ⟨_, (hlive j _).mpr (.inl ⟨hji, rfl⟩)⟩
      · obtain ⟨k, hk⟩ := hi.record j (mem_of_mem_insert_of_ne hj hji)
        exact ⟨k, (hlive j k).mpr (.inr ⟨hji, hk⟩)⟩
    · have hpi : p.1 ≠ i := fun hpi => hout (hpi ▸ mem_map_of_mem hp)
      exact (hlive p.1 p.2).mpr (.inr ⟨hpi, hi.held p hp⟩)
    · have hpi : p.1 ≠ i := fun hpi => hout (hpi ▸ mem_map_of_mem hp)
      exact fun hmem => hi.apart p hp (mem_of_mem_insert_of_ne hmem hpi)
  · refine ⟨fun j j' k hj hj' => ?_, fun j k hj => ?_, fun j k hj => ?_, fun n hn => ?_,
      fun k hdef => ?_⟩
    · rcases (hlive j k).mp hj with ⟨rfl, rfl⟩ | ⟨-, hold⟩
      · rcases (hlive j' _).mp hj' with ⟨rfl, -⟩ | ⟨-, hold'⟩
        · rfl
        · exact absurd hold' (hfreshLive j')
      · rcases (hlive j' k).mp hj' with ⟨rfl, rfl⟩ | ⟨-, hold'⟩
        · exact absurd hold (hfreshLive j)
        · exact hk.distinct j j' k hold hold'
    · rcases (hlive j k).mp hj with ⟨-, rfl⟩ | ⟨-, hj⟩
      · exact mem_cons_self
      · exact mem_cons_of_mem _ (hk.known j k hj)
    · rcases (hlive j k).mp hj with ⟨-, rfl⟩ | ⟨-, hj⟩
      · exact hfreshKept
      · exact hk.unkept j k hj
    · have hlt : s.wallet.nNewKeys < n := hn
      refine ⟨(hk.fresh n hlt.le).1, fun j hj => ?_⟩
      rcases (hlive j _).mp hj with ⟨-, heq⟩ | ⟨-, hj⟩
      · exact hlt.ne (hinj heq).symm
      · exact (hk.fresh n hlt.le).2 j hj
    · obtain ⟨h1, h2, h3⟩ := hk.defaultKey k hdef
      refine ⟨h1, fun j hj => ?_, fun n hn => h3 n ((Nat.le_succ _).trans hn)⟩
      rcases (hlive j k).mp hj with ⟨-, rfl⟩ | ⟨-, hj⟩
      · exact h3 _ le_rfl rfl
      · exact h2 j hj

omit [DecidableEq K] in
/-- Staging succeeds only if every write does. -/
theorem stageKeys_writes {nKey : ℕ} {staged : List (ℕ × K)}
    (h : stageKeys newKey o n nIndex nKey = some staged) :
    ∀ i ∈ Finset.Ico nIndex (nIndex + n), (o.stageKey i && o.writePool i) = true := by
  induction n generalizing nIndex nKey staged with
  | zero => simp
  | succ n ih =>
    rw [stageKeys] at h
    split at h
    · next hwrite =>
      obtain ⟨rest, hrest, -⟩ := Option.map_eq_some_iff.mp h
      intro i hi
      rw [Finset.mem_Ico] at hi
      by_cases heq : i = nIndex
      · rwa [heq]
      · exact ih hrest i (Finset.mem_Ico.mpr (by omega))
    · cases h

omit [DecidableEq K] in
theorem foldl_addStaged_inv (hinj : Injective newKey) (o : KeyPoolOutcome) {n nIndex : ℕ} :
    ∀ {s : PoolRun K} {w : KeyPoolWallet K} {staged : List (ℕ × K)},
      PoolInv newKey { s with wallet := w } →
      stageKeys newKey o n nIndex w.nNewKeys = some staged →
      (∀ i ∈ Finset.Ico nIndex (nIndex + n), i ∉ w.setKeyPool ∧ i ∉ s.outstanding.map Prod.fst) →
      PoolInv newKey { s with wallet := staged.foldl (addStaged o) w } := by
  induction n generalizing nIndex with
  | zero =>
    intro s w staged hs hstaged _
    cases hstaged
    exact hs
  | succ n ih =>
    intro s w staged hs hstaged hfree
    rw [stageKeys] at hstaged
    split at hstaged
    · obtain ⟨rest, hrest, rfl⟩ := Option.map_eq_some_iff.mp hstaged
      obtain ⟨hpool, hout⟩ := hfree nIndex (Finset.mem_Ico.mpr (by omega))
      rw [foldl_cons]
      refine ih (addStaged_inv hinj o hs hpool hout) hrest fun i hi => ?_
      rw [Finset.mem_Ico] at hi
      obtain ⟨hpool', hout'⟩ := hfree i (Finset.mem_Ico.mpr (by omega))
      refine ⟨fun hmem => ?_, hout'⟩
      rcases mem_insert.mp hmem with heq | hmem
      · simp only at heq
        omega
      · exact hpool' hmem
    · cases hstaged

omit [DecidableEq K] in
theorem refillKeyPool_inv (hinj : Injective newKey)
    (hs : PoolInv newKey { s with wallet := w }) (hr : refillKeyPool newKey o n nIndex w = some r)
    (hpool : ∀ i ∈ w.setKeyPool, i < nIndex)
    (hcond : ∀ held ∈ s.outstanding, held.1 ∉ refillIndices o n nIndex) :
    PoolInv newKey { s with wallet := r.2 } := by
  unfold refillKeyPool at hr
  split at hr
  · cases hr
    exact hs
  · next hbegin =>
    obtain ⟨staged, hstaged, rfl⟩ := Option.map_eq_some_iff.mp hr
    by_cases hcommit : o.refillCommit = true
    · rw [if_pos hcommit]
      refine foldl_addStaged_inv hinj o hs hstaged fun i hi => ⟨fun hmem => ?_, fun hmem => ?_⟩
      · have := hpool i hmem
        have := (Finset.mem_Ico.mp hi).1
        omega
      · obtain ⟨held, hheld, rfl⟩ := mem_map.mp hmem
        refine hcond held hheld ?_
        rw [refillIndices, if_pos ⟨not_not.mp hbegin, stageKeys_writes hstaged, hcommit⟩]
        exact hi
    · rw [if_neg hcommit]
      exact hs

/-! ## The operations -/

omit [DecidableEq K] in
theorem lookup_foldl_erase (l : List ℕ) (t : Table ℕ (CKeyPool K)) (i : ℕ) :
    (l.foldl (fun pool j => Finmap.erase j pool) t).lookup i =
      if i ∈ l then none else t.lookup i := by
  induction l generalizing t with
  | nil => rfl
  | cons j l ih =>
    rw [foldl_cons, ih, Table.lookup_erase_ite]
    by_cases hi : i = j <;> by_cases hl : i ∈ l <;> simp [hi, hl]

omit [DecidableEq K] in
theorem clearKeyPool_inv (hs : PoolInv newKey s) (hw : s.wallet.clearKeyPool o = some w) :
    PoolInv newKey { s with wallet := w } ∧ w.setKeyPool = ∅ ∧ w.fLocked = s.wallet.fLocked := by
  unfold clearKeyPool at hw
  split at hw
  · cases hw
    have hlookup := lookup_foldl_erase s.wallet.setKeyPool.sort s.wallet.pool
    simp only [mem_sort] at hlookup
    refine ⟨⟨⟨by simp, fun p hp => ?_, by simp, hs.indices.nodup⟩,
      hs.keys.mono ?_ ?_ rfl rfl le_rfl⟩, rfl, rfl⟩
    · refine ⟨.inr (mem_map_of_mem hp), ?_⟩
      rw [hlookup, if_neg (hs.indices.apart p hp)]
      exact (hs.indices.held p hp).2
    · rintro i k ⟨hmem, nTime, hik⟩
      refine ⟨.inr (hmem.resolve_left (notMem_empty i)), nTime, ?_⟩
      rw [hlookup] at hik
      split at hik
      · cases hik
      · exact hik
    · exact fun k hk => hk
  · cases hw

omit [DecidableEq K] in
theorem newKeyPool_inv (hinj : Injective newKey) {nSize : ℕ} (hs : PoolInv newKey s)
    (hcond : NoReallocation nKeyPoolArg s (.newKeyPool nSize o)) :
    PoolInv newKey { s with wallet := (s.wallet.newKeyPool newKey nKeyPoolArg o nSize).2 } := by
  unfold newKeyPool
  cases hclear : s.wallet.clearKeyPool o with
  | none => exact hs
  | some w =>
    obtain ⟨hw, hempty, hlocked⟩ := clearKeyPool_inv hs hclear
    dsimp only
    split
    · exact hw
    · next hunlocked =>
      split
      · exact hw
      · next r hr =>
        refine refillKeyPool_inv hinj hw hr (by simp [hempty]) fun held hheld => ?_
        have := hcond held hheld
        rw [hlocked] at hunlocked
        simpa [allocates, hunlocked, hclear] using this

def toppedUp (newKey : ℕ → K) (nKeyPoolArg : ℤ) (o : KeyPoolOutcome) (w : KeyPoolWallet K) :
    Except KeyPoolError (Bool × KeyPoolWallet K) :=
  if w.fLocked then .ok (false, w) else w.topUpKeyPool newKey nKeyPoolArg o

omit [DecidableEq K] in
theorem lt_topUpFirst (w : KeyPoolWallet K) : ∀ i ∈ w.setKeyPool, i < w.topUpFirst := by
  intro i hi
  have hne : w.setKeyPool.Nonempty := ⟨i, hi⟩
  have := w.setKeyPool.le_max' i hi
  simp only [topUpFirst, hne, dif_pos]
  omega

omit [DecidableEq K] in
theorem topUpKeyPool_error {e : KeyPoolError} (h : w.topUpKeyPool newKey nKeyPoolArg o = .error e) :
    e = .topUpFailed := by
  unfold topUpKeyPool at h
  split at h
  · cases h
  · split at h
    · cases h
      rfl
    · cases h

omit [DecidableEq K] in
theorem topUpKeyPool_inv (hinj : Injective newKey) (hs : PoolInv newKey s)
    (hr : s.wallet.topUpKeyPool newKey nKeyPoolArg o = .ok r)
    (hcond : NoReallocation nKeyPoolArg s (.topUpKeyPool o)) :
    PoolInv newKey { s with wallet := r.2 } := by
  unfold topUpKeyPool at hr
  split at hr
  · cases hr
    exact hs
  · next hunlocked =>
    split at hr
    · cases hr
    · next r' hr' =>
      cases hr
      refine refillKeyPool_inv hinj hs hr' (lt_topUpFirst s.wallet) fun held hheld => ?_
      simpa [allocates, hunlocked] using hcond held hheld

/-! ## Reserving a key -/

/-- The ways in which a reservation can end, once the pool `w` has been topped up. -/
inductive ReserveEnds (readPool : Bool) (w : KeyPoolWallet K) :
    Except KeyPoolError (Option (ℕ × CKeyPool K)) × KeyPoolWallet K → Prop where
  | empty : ReserveEnds readPool w (.ok none, w)
  | unread (i : ℕ) (hi : i ∈ w.setKeyPool)
      (hread : readPool = false ∨ w.pool.lookup i = none) :
      ReserveEnds readPool w (.error .readFailed, { w with setKeyPool := w.setKeyPool.erase i })
  | unknown (i : ℕ) (hi : i ∈ w.setKeyPool) :
      ReserveEnds readPool w (.error .unknownKey, { w with setKeyPool := w.setKeyPool.erase i })
  | reserved (i : ℕ) (hi : i ∈ w.setKeyPool) (keypool : CKeyPool K)
      (hread : w.pool.lookup i = some keypool) :
      ReserveEnds readPool w
        (.ok (some (i, keypool)), { w with setKeyPool := w.setKeyPool.erase i })

theorem reserveKeyFromKeyPool_ends (o : KeyPoolOutcome) (w : KeyPoolWallet K) :
    w.reserveKeyFromKeyPool newKey nKeyPoolArg o = (.error .topUpFailed, w) ∨
    ∃ r, toppedUp newKey nKeyPoolArg o w = .ok r ∧
      ReserveEnds o.readPool r.2 (w.reserveKeyFromKeyPool newKey nKeyPoolArg o) := by
  have herr : ∀ e, toppedUp newKey nKeyPoolArg o w = .error e → e = .topUpFailed := by
    intro e he
    unfold toppedUp at he
    split at he
    · cases he
    · exact topUpKeyPool_error he
  unfold reserveKeyFromKeyPool
  rw [show (if w.fLocked then .ok (false, w) else w.topUpKeyPool newKey nKeyPoolArg o) =
    toppedUp newKey nKeyPoolArg o w from rfl]
  cases htop : toppedUp newKey nKeyPoolArg o w with
  | error e =>
    left
    rw [herr e htop]
  | ok r =>
    right
    refine ⟨r, rfl, ?_⟩
    dsimp only
    by_cases hne : r.2.setKeyPool.Nonempty
    · have hmin := r.2.setKeyPool.min'_mem hne
      rw [dif_pos hne]
      cases hread : (if o.readPool then r.2.pool.lookup (r.2.setKeyPool.min' hne) else none) with
      | none =>
        refine .unread _ hmin ?_
        by_cases hr : o.readPool = true
        · rw [if_pos hr] at hread
          exact .inr hread
        · exact .inl (Bool.not_eq_true _ ▸ hr)
      | some keypool =>
        have hlookup : r.2.pool.lookup (r.2.setKeyPool.min' hne) = some keypool := by
          by_cases hr : o.readPool = true
          · rwa [if_pos hr] at hread
          · rw [if_neg hr] at hread
            cases hread
        dsimp only
        split
        · exact .unknown _ hmin
        · exact .reserved _ hmin _ hlookup
    · rw [dif_neg hne]
      exact .empty

omit [DecidableEq K] in
theorem toppedUp_inv (hinj : Injective newKey) (hs : PoolInv newKey s)
    (hr : toppedUp newKey nKeyPoolArg o s.wallet = .ok r)
    (hcond : NoReallocation nKeyPoolArg s (.reserve o)) :
    PoolInv newKey { s with wallet := r.2 } := by
  unfold toppedUp at hr
  split at hr
  · cases hr
    exact hs
  · exact topUpKeyPool_inv hinj hs hr hcond

omit [DecidableEq K] in
theorem dropIndex_inv (hs : PoolInv newKey s) (i : ℕ) : PoolInv newKey
      { s with wallet := { s.wallet with setKeyPool := s.wallet.setKeyPool.erase i } } := by
  have hlive : ∀ j k, LiveKey
      { s with wallet := { s.wallet with setKeyPool := s.wallet.setKeyPool.erase i } } j k →
      LiveKey s j k := by
    rintro j k ⟨hmem, hlookup⟩
    exact ⟨hmem.imp_left mem_of_mem_erase, hlookup⟩
  refine ⟨⟨fun j hj => ?_, fun p hp => ?_, fun p hp hmem => ?_, hs.indices.nodup⟩,
    hs.keys.mono hlive (fun k hk => hk) rfl rfl le_rfl⟩
  · obtain ⟨k, -, hlookup⟩ := hs.indices.record j (mem_of_mem_erase hj)
    exact ⟨k, .inl hj, hlookup⟩
  · exact ⟨.inr (mem_map_of_mem hp), (hs.indices.held p hp).2⟩
  · exact hs.indices.apart p hp (mem_of_mem_erase hmem)

omit [DecidableEq K] in
/-- An index of the pool becomes a reservation. -/
theorem reserveIndex_inv (hs : PoolInv newKey s) {keypool : CKeyPool K}
    (hi : i ∈ s.wallet.setKeyPool) (hread : s.wallet.pool.lookup i = some keypool) :
    PoolInv newKey
      { wallet := { s.wallet with setKeyPool := s.wallet.setKeyPool.erase i }
        outstanding := (i, keypool.vchPubKey) :: s.outstanding
        kept := s.kept } := by
  have hlive : ∀ j k, LiveKey
      { wallet := { s.wallet with setKeyPool := s.wallet.setKeyPool.erase i }
        outstanding := (i, keypool.vchPubKey) :: s.outstanding
        kept := s.kept } j k → LiveKey s j k := by
    rintro j k ⟨hmem, hlookup⟩
    refine ⟨?_, hlookup⟩
    rcases hmem with hmem | hmem
    · exact .inl (mem_of_mem_erase hmem)
    · rcases mem_cons.mp hmem with rfl | hmem
      · exact .inl hi
      · exact .inr hmem
  refine ⟨⟨fun j hj => ?_, fun p hp => ?_, fun p hp hmem => ?_, ?_⟩,
    hs.keys.mono hlive (fun k hk => hk) rfl rfl le_rfl⟩
  · obtain ⟨k, -, hlookup⟩ := hs.indices.record j (mem_of_mem_erase hj)
    exact ⟨k, .inl hj, hlookup⟩
  · refine ⟨.inr (mem_map_of_mem hp), ?_⟩
    rcases mem_cons.mp hp with rfl | hp
    · exact ⟨keypool.nTime, hread⟩
    · exact (hs.indices.held p hp).2
  · rcases mem_cons.mp hp with rfl | hp
    · exact notMem_erase i _ hmem
    · exact hs.indices.apart p hp (mem_of_mem_erase hmem)
  · refine nodup_cons.mpr ⟨fun hmem => ?_, hs.indices.nodup⟩
    obtain ⟨p, hp, hpi⟩ := mem_map.mp hmem
    exact hs.indices.apart p hp (hpi ▸ hi)

theorem stepReserve_inv (hinj : Injective newKey) {o : KeyPoolOutcome} {s : PoolRun K}
    (hs : PoolInv newKey s) (hcond : NoReallocation nKeyPoolArg s (.reserve o)) :
    PoolInv newKey (stepReserve newKey nKeyPoolArg s o).2 ∧
      EventSafe s (.reserve o) (stepReserve newKey nKeyPoolArg s o).1 := by
  unfold stepReserve
  rcases @reserveKeyFromKeyPool_ends _ _ newKey nKeyPoolArg o s.wallet with
    hfail | ⟨r, htop, hends⟩
  · rw [hfail]
    exact ⟨hs, fun h => nomatch h⟩
  · have hr := toppedUp_inv hinj hs htop hcond
    generalize s.wallet.reserveKeyFromKeyPool newKey nKeyPoolArg o = result at hends ⊢
    cases hends with
    | empty => exact ⟨hr, trivial⟩
    | unread i hi hread =>
      refine ⟨dropIndex_inv hr i, fun _ => ?_⟩
      obtain ⟨k, -, nTime, hlookup⟩ := hr.indices.record i hi
      rcases hread with hread | hread
      · simp [readFails, hread]
      · cases hlookup.symm.trans hread
    | unknown i hi => exact ⟨dropIndex_inv hr i, fun h => nomatch h⟩
    | reserved i hi keypool hread =>
      exact ⟨reserveIndex_inv hr hi hread, hr.keys.unkept i _ ⟨.inl hi, keypool.nTime, hread⟩⟩

/-! ## Keeping and returning a reservation -/

theorem ne_of_mem_erase {outstanding : List (ℕ × K)} {held p : ℕ × K}
    (hnodup : (outstanding.map Prod.fst).Nodup) (hheld : held ∈ outstanding)
    (hp : p ∈ outstanding.erase held) : p ∈ outstanding ∧ p.1 ≠ held.1 := by
  obtain ⟨hne, hmem⟩ := (Nodup.mem_erase_iff hnodup.of_map).mp hp
  exact ⟨hmem, fun heq => hne (inj_on_of_nodup_map hnodup hmem hheld heq)⟩

theorem nodup_erase {outstanding : List (ℕ × K)} (held : ℕ × K)
    (hnodup : (outstanding.map Prod.fst).Nodup) :
    ((outstanding.erase held).map Prod.fst).Nodup :=
  hnodup.sublist ((outstanding.erase_sublist).map Prod.fst)

theorem keepKey_inv (hs : PoolInv newKey s) {held : ℕ × K} (hheld : held ∈ s.outstanding)
    (o : KeyPoolOutcome) :
    PoolInv newKey
      { wallet := s.wallet.keepKey o held.1
        outstanding := s.outstanding.erase held
        kept := held.2 :: s.kept } := by
  obtain ⟨hi, hk⟩ := hs
  have hrest := fun p => @ne_of_mem_erase _ _ s.outstanding held p hi.nodup hheld
  have hwallet : ∃ pool', s.wallet.keepKey o held.1 = { s.wallet with pool := pool' } ∧
      (∀ j, j ≠ held.1 → pool'.lookup j = s.wallet.pool.lookup j) := by
    unfold keepKey
    split
    · exact ⟨_, rfl, fun j hj => Finmap.lookup_erase_ne hj⟩
    · exact ⟨_, rfl, fun _ _ => rfl⟩
  obtain ⟨pool', hkeep, hpool⟩ := hwallet
  rw [hkeep]
  have hlive : ∀ j k, LiveKey
      { wallet := { s.wallet with pool := pool' }, outstanding := s.outstanding.erase held,
        kept := held.2 :: s.kept } j k → LiveKey s j k ∧ k ≠ held.2 := by
    rintro j k ⟨hmem, nTime, hlookup⟩
    have hj : (j ∈ s.wallet.setKeyPool ∨ j ∈ s.outstanding.map Prod.fst) ∧ j ≠ held.1 := by
      rcases hmem with hmem | hmem
      · exact ⟨.inl hmem, fun heq => hi.apart held hheld (heq ▸ hmem)⟩
      · obtain ⟨p, hp, rfl⟩ := mem_map.mp hmem
        exact ⟨.inr (mem_map_of_mem (hrest p hp).1), (hrest p hp).2⟩
    have hold : LiveKey s j k := ⟨hj.1, nTime, hpool j hj.2 ▸ hlookup⟩
    exact ⟨hold, fun heq => hj.2 (hk.distinct j held.1 k hold (heq ▸ hi.held held hheld))⟩
  constructor
  · refine ⟨fun j hj => ?_, fun p hp => ?_, fun p hp => hi.apart p (hrest p hp).1,
      nodup_erase held hi.nodup⟩
    · obtain ⟨k, -, nTime, hlookup⟩ := hi.record j hj
      have hne : j ≠ held.1 := fun heq => hi.apart held hheld (heq ▸ hj)
      exact ⟨k, .inl hj, nTime, (hpool j hne).trans hlookup⟩
    · obtain ⟨-, nTime, hlookup⟩ := hi.held p (hrest p hp).1
      exact ⟨.inr (mem_map_of_mem hp), nTime, (hpool p.1 (hrest p hp).2).trans hlookup⟩
  · refine ⟨fun i j k hi hj => hk.distinct i j k (hlive i k hi).1 (hlive j k hj).1,
      fun i k hi => hk.known i k (hlive i k hi).1, fun i k hi hmem => ?_, fun n hn => ?_,
      fun k hdef => ?_⟩
    · rcases mem_cons.mp hmem with heq | hmem
      · exact (hlive i k hi).2 heq
      · exact hk.unkept i k (hlive i k hi).1 hmem
    · obtain ⟨h1, h2⟩ := hk.fresh n hn
      refine ⟨fun hmem => ?_, fun i hi => h2 i (hlive i _ hi).1⟩
      rcases mem_cons.mp hmem with heq | hmem
      · exact h2 held.1 (heq ▸ hi.held held hheld)
      · exact h1 hmem
    · obtain ⟨h1, h2, h3⟩ := hk.defaultKey k hdef
      refine ⟨fun hmem => ?_, fun i hi => h2 i (hlive i k hi).1, h3⟩
      rcases mem_cons.mp hmem with heq | hmem
      · exact h2 held.1 (heq ▸ hi.held held hheld)
      · exact h1 hmem

theorem returnKey_inv (hs : PoolInv newKey s) {held : ℕ × K} (hheld : held ∈ s.outstanding) :
    PoolInv newKey { s with
        wallet := s.wallet.returnKey held.1
        outstanding := s.outstanding.erase held } := by
  have hrest := fun p => @ne_of_mem_erase _ _ s.outstanding held p hs.indices.nodup hheld
  have hlive : ∀ j k, LiveKey { s with
      wallet := s.wallet.returnKey held.1
      outstanding := s.outstanding.erase held } j k → LiveKey s j k := by
    rintro j k ⟨hmem, hlookup⟩
    refine ⟨?_, hlookup⟩
    rcases hmem with hmem | hmem
    · rcases mem_insert.mp hmem with rfl | hmem
      · exact .inr (mem_map_of_mem hheld)
      · exact .inl hmem
    · obtain ⟨p, hp, rfl⟩ := mem_map.mp hmem
      exact .inr (mem_map_of_mem (hrest p hp).1)
  refine ⟨⟨fun j hj => ?_, fun p hp => ?_, fun p hp hmem => ?_,
      nodup_erase held hs.indices.nodup⟩, hs.keys.mono hlive (fun k hk => hk) rfl rfl le_rfl⟩
  · rcases mem_insert.mp hj with rfl | hmem
    · exact ⟨held.2, .inl hj, (hs.indices.held held hheld).2⟩
    · obtain ⟨k, -, hlookup⟩ := hs.indices.record j hmem
      exact ⟨k, .inl hj, hlookup⟩
  · exact ⟨.inr (mem_map_of_mem hp), (hs.indices.held p (hrest p hp).1).2⟩
  · rcases mem_insert.mp hmem with heq | hmem
    · exact (hrest p hp).2 heq
    · exact hs.indices.apart p (hrest p hp).1 hmem

omit [DecidableEq K] in
theorem generateNewKey_inv (hs : PoolInv newKey s) (o : KeyPoolOutcome) :
    PoolInv newKey { s with wallet := (s.wallet.generateNewKey newKey o).2 } := by
  obtain ⟨⟨hrecord, hheld, hapart, hnodup⟩, hkeys⟩ := hs
  exact ⟨⟨hrecord, hheld, hapart, hnodup⟩, hkeys.mono (fun _ _ h => h)
    (fun _ => mem_cons_of_mem _) rfl rfl (Nat.le_succ _)⟩

/-! ## One call and a whole run -/

/-- `GetKeyFromPool` reserves a key and keeps it, or falls back on another key. -/
theorem stepGetKey_inv (hinj : Injective newKey) {fAllowReuse : Bool}
    (hs : PoolInv newKey s) (hcond : NoReallocation nKeyPoolArg s (.getKey fAllowReuse o)) :
    PoolInv newKey (stepGetKey newKey nKeyPoolArg s fAllowReuse o).2 ∧
      EventSafe s (.getKey fAllowReuse o) (stepGetKey newKey nKeyPoolArg s fAllowReuse o).1 := by
  have hreserve := @stepReserve_inv _ _ _ nKeyPoolArg hinj o s hs hcond
  unfold stepReserve at hreserve
  unfold stepGetKey getKeyFromPool
  generalize s.wallet.reserveKeyFromKeyPool newKey nKeyPoolArg o = result at hreserve ⊢
  rcases result with ⟨e | ⟨⟩ | ⟨nIndex, keypool⟩, w⟩
  · exact hreserve
  · dsimp only at hreserve ⊢
    cases hreuse : (if fAllowReuse then w.vchDefaultKey else none) with
    | some key =>
      have hdefault : w.vchDefaultKey = some key := by
        split at hreuse
        · exact hreuse
        · cases hreuse
      exact ⟨hreserve.1, (hreserve.1.keys.defaultKey key hdefault).1⟩
    | none =>
      dsimp only
      split
      · exact hreserve
      · refine ⟨generateNewKey_inv hreserve.1 o, ?_⟩
        by_cases hadd : o.addKey = true
        · simpa [generateNewKey, hadd, EventSafe, Except.map] using
            (hreserve.1.keys.fresh _ le_rfl).1
        · simp [generateNewKey, hadd, EventSafe, Except.map]
  · have hkeep := keepKey_inv hreserve.1 mem_cons_self o
    rw [erase_cons_head] at hkeep
    exact ⟨hkeep, hreserve.2⟩

/-- One call that gives out no reserved index. -/
theorem poolStep_inv (hinj : Injective newKey) {op : PoolOp K} (hs : PoolInv newKey s)
    (hcond : NoReallocation nKeyPoolArg s op) :
    PoolInv newKey (poolStep newKey nKeyPoolArg s op).2 ∧
      EventSafe s op (poolStep newKey nKeyPoolArg s op).1 := by
  cases op with
  | newKeyPool nSize o => exact ⟨newKeyPool_inv hinj hs hcond, trivial⟩
  | topUpKeyPool o =>
    unfold poolStep
    dsimp only
    cases htop : s.wallet.topUpKeyPool newKey nKeyPoolArg o with
    | error e =>
      cases topUpKeyPool_error htop
      exact ⟨hs, fun h => nomatch h⟩
    | ok r => exact ⟨topUpKeyPool_inv hinj hs htop hcond, trivial⟩
  | reserve o => exact stepReserve_inv hinj hs hcond
  | keep held o =>
    refine ⟨?_, trivial⟩
    unfold poolStep stepKeep
    dsimp only
    split
    · next hheld => exact keepKey_inv hs hheld o
    · exact hs
  | giveBack held =>
    refine ⟨?_, trivial⟩
    unfold poolStep
    dsimp only
    split
    · next hheld => exact returnKey_inv hs hheld
    · exact hs
  | getKey fAllowReuse o => exact stepGetKey_inv hinj hs hcond
  | setLocked fLocked =>
    obtain ⟨⟨hrecord, hheld, hapart, hnodup⟩, hkeys⟩ := hs
    exact ⟨⟨⟨hrecord, hheld, hapart, hnodup⟩,
      hkeys.mono (fun _ _ h => h) (fun _ h => h) rfl rfl le_rfl⟩, trivial⟩

/-- **Key pool safety.** A run in which no call gives a new key an index that a caller has
reserved keeps every pool record and every reservation apart, and hands out no kept key. -/
theorem keyPool_safe (hinj : Injective newKey) {s : PoolRun K} (hs : PoolInv newKey s)
    {ops : List (PoolOp K)}
    (hrun : EveryStep newKey nKeyPoolArg (NoReallocation nKeyPoolArg) s ops) :
    PoolSafe (poolRun newKey nKeyPoolArg s ops) ∧
      ∀ op, NoReallocation nKeyPoolArg (poolRun newKey nKeyPoolArg s ops) op →
        EventSafe (poolRun newKey nKeyPoolArg s ops) op
          (poolStep newKey nKeyPoolArg (poolRun newKey nKeyPoolArg s ops) op).1 := by
  induction ops generalizing s with
  | nil => exact ⟨hs.safe, fun op hop => (poolStep_inv hinj hs hop).2⟩
  | cons op ops ih => exact ih (poolStep_inv hinj hs hrun.1).1 hrun.2

/-- A new wallet whose `n`-th key is `n`. -/
def newWallet : PoolRun ℕ := ⟨⟨∅, ∅, [], none, false, 0⟩, [], []⟩

theorem newWallet_inv : PoolInv id newWallet := by
  have hdead : ∀ i k, ¬ LiveKey newWallet i k := by
    rintro i k ⟨-, nTime, hlookup⟩
    simp [newWallet] at hlookup
  constructor
  · exact ⟨by simp [newWallet], by simp [newWallet], by simp [newWallet], by simp [newWallet]⟩
  · exact ⟨fun i j k hi => absurd hi (hdead i k), fun i k hi => absurd hi (hdead i k),
      fun i k hi => absurd hi (hdead i k), fun n _ => ⟨by simp [newWallet], fun i => hdead i n⟩,
      by simp [newWallet]⟩

theorem keyPool_safe_newWallet : PoolSafe (poolRun id 2 newWallet
      [.reserve {}, .getKey false {}, .giveBack (1, 0), .reserve {}, .keep (1, 0) {}]) :=
  (keyPool_safe injective_id newWallet_inv (by decide)).1

/-- With `-keypool=0` two reservations hold index 1, and once one of them is kept and the other
returned, the next reservation throws because the record is gone. -/
theorem keyPool_unsafe_keypool_zero :
    ¬ PoolSafe (poolRun id 0 newWallet [.reserve {}, .reserve {}]) ∧
    (poolStep id 0 (poolRun id 0 newWallet
      [.reserve {}, .reserve {}, .keep (1, 1) {}, .giveBack (1, 0)]) (.reserve {})).1 =
      .threw .readFailed := by
  decide

end Phoenixcoin.Analysis
