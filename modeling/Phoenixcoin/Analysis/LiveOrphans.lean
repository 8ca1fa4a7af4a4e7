import Phoenixcoin.Analysis.MinedBlocks
import Phoenixcoin.Program.MinerPointers

/-!
# The records of the waiting transactions

The pointers that `CreateNewBlock` follows when it has added a transaction lead to live records of
the transactions that listed it, and those enter the queue once and not too early. The exception
are transactions whose records were dropped because of a missing input: the pointers to them stay,
and are followed if one of their dependencies is added.
-/

set_option autoImplicit false

namespace Phoenixcoin.Analysis

open Lib Program List Option Function OrphanRecords Depender

/-! ## Dependencies -/

section Dependencies

variable (env : ChainEnv) (o : MinerOutcome) (s : ChainState) (txdb : CTxDB)

def inPool (hash : uint256) : Bool := (o.mapTx.find? fun tx => env.txHash tx = hash).isSome

def dependenciesOf (vin : List CTxIn) : Finset uint256 :=
  ((vin.filter fun txin => inPool env o txin.prevout.hash).map fun txin =>
    txin.prevout.hash).toFinset

def isMissing (tx : CTransaction) (txin : CTxIn) : Bool :=
  ! inPool env o txin.prevout.hash &&
    (readPrevTx env txdb (o.readPrev (env.txHash tx) txin.prevout) txin.prevout).isNone

def droppedBy (tx : CTransaction) : Finset uint256 :=
  if isConsidered env o s tx ∧ tx.vin.any (isMissing env o txdb tx) then
    dependenciesOf env o (tx.vin.takeWhile fun txin => ! isMissing env o txdb tx txin)
  else ∅

/-- The dependencies that are listed by a transaction of the pool whose record is dropped. -/
def IsDropped (hash : uint256) : Prop := ∃ tx ∈ o.mapTx, hash ∈ droppedBy env o s txdb tx

variable {env o s txdb}

theorem dependenciesOf_cons (txin : CTxIn) (vin : List CTxIn) :
    dependenciesOf env o (txin :: vin) =
      if inPool env o txin.prevout.hash then insert txin.prevout.hash (dependenciesOf env o vin)
      else dependenciesOf env o vin := by
  unfold dependenciesOf
  rw [filter_cons]
  split_ifs <;> simp

/-- What an input adds to the totals. -/
theorem addInput_spec (env : ChainEnv) (o : MinerOutcome) (s : ChainState) (txdb : CTxDB)
    (tx : CTransaction) (totals : InputTotals) (txin : CTxIn) :
    (addInput env o s txdb (env.txHash tx) totals txin = none ↔
        isMissing env o txdb tx txin = true) ∧
      ∀ totals', addInput env o s txdb (env.txHash tx) totals txin = some totals' →
        totals'.setDependsOn =
          if inPool env o txin.prevout.hash then insert txin.prevout.hash totals.setDependsOn
          else totals.setDependsOn := by
  unfold addInput isMissing inPool
  dsimp only
  cases hpool : o.mapTx.find? fun tx => env.txHash tx = txin.prevout.hash with
  | some txDep =>
    constructor
    · simp
    · rintro totals' h
      cases h
      rfl
  | none =>
    cases hread : readPrevTx env txdb (o.readPrev (env.txHash tx) txin.prevout) txin.prevout with
    | none => simp
    | some prev =>
      constructor
      · simp
      · rintro totals' h
        cases h
        rfl

end Dependencies

/-! ## The records -/

/-- The records and the pointers to them. A transaction waits for its dependencies that are not
done, and only a dropped dependency has a pointer to a record that is gone. -/
structure RecordsOk (deps : CTransaction → Finset uint256) (done dropped : Set uint256)
    (r : OrphanRecords) : Prop where
  fresh : ∀ a orphan, r.vOrphan.lookup a = some orphan → a < r.nAddress
  freshPointer : ∀ hash, ∀ d ∈ r.mapDependers hash, d.porphan < r.nAddress
  waits : ∀ a orphan, r.vOrphan.lookup a = some orphan →
    ∀ hash, hash ∈ orphan.setDependsOn ↔ hash ∈ deps orphan.tx ∧ hash ∉ done
  listed : ∀ a orphan, r.vOrphan.lookup a = some orphan →
    ∀ hash ∈ deps orphan.tx, ∃ d ∈ r.mapDependers hash, d.porphan = a
  live : ∀ hash, ∀ d ∈ r.mapDependers hash,
    (∃ orphan, r.vOrphan.lookup d.porphan = some orphan ∧ orphan.tx = d.ptx ∧
      hash ∈ deps orphan.tx) ∨ r.vOrphan.lookup d.porphan = none ∧ hash ∈ dropped
  stale : ∀ hash ∈ dropped, ∃ d ∈ r.mapDependers hash, r.vOrphan.lookup d.porphan = none
  once : ∀ a b orphan orphan', r.vOrphan.lookup a = some orphan →
    r.vOrphan.lookup b = some orphan' → orphan.tx = orphan'.tx → a = b

section Records

variable {deps : CTransaction → Finset uint256} {done dropped : Set uint256} {r : OrphanRecords}

theorem recordsOk_empty : RecordsOk deps done ∅ .empty where
  fresh := by simp [empty]
  freshPointer := by simp [empty]
  waits := by simp [empty]
  listed := by simp [empty]
  live := by simp [empty]
  stale := by simp
  once := by simp [empty]

theorem lookup_pushBack (tx : CTransaction) (a : ℕ) :
    (r.pushBack tx).vOrphan.lookup a =
      if a = r.nAddress then some ⟨⟨0, 0, tx, 0, 0⟩, ∅⟩ else r.vOrphan.lookup a :=
  Table.lookup_insert_ite a r.nAddress _ r.vOrphan

theorem lookup_modify (porphan a : ℕ) (f : COrphan → COrphan) :
    (r.modify porphan f).vOrphan.lookup a =
      if a = porphan then (r.vOrphan.lookup porphan).map f else r.vOrphan.lookup a := by
  unfold OrphanRecords.modify
  cases hlookup : r.vOrphan.lookup porphan with
  | none =>
    by_cases ha : a = porphan
    · subst ha
      simp [hlookup]
    · simp [ha]
  | some orphan =>
    exact Table.lookup_insert_ite a porphan _ r.vOrphan

theorem lookup_popBack (porphan a : ℕ) :
    (r.popBack porphan).vOrphan.lookup a = if a = porphan then none else r.vOrphan.lookup a :=
  Table.lookup_erase_ite a porphan r.vOrphan

variable {tx : CTransaction} {f : COrphan → COrphan} {orphan : COrphan} {porphan : ℕ}

/-- A new record without dependencies. -/
theorem RecordsOk.pushBack (h : RecordsOk deps done dropped r) (hdeps : deps tx = ∅)
    (hnew : ∀ a orphan, r.vOrphan.lookup a = some orphan → orphan.tx ≠ tx) :
    RecordsOk deps done dropped (r.pushBack tx) := by
  have hold {a : ℕ} (ha : a < r.nAddress) :
      (r.pushBack tx).vOrphan.lookup a = r.vOrphan.lookup a := by
    rw [lookup_pushBack, if_neg ha.ne]
  have hcases {a : ℕ} {orphan : COrphan} (ha : (r.pushBack tx).vOrphan.lookup a = some orphan) :
      a = r.nAddress ∧ orphan = ⟨⟨0, 0, tx, 0, 0⟩, ∅⟩ ∨ r.vOrphan.lookup a = some orphan := by
    rw [lookup_pushBack] at ha
    split_ifs at ha with hnext
    · exact Or.inl ⟨hnext, (some.inj ha).symm⟩
    · exact Or.inr ha
  constructor
  · intro a orphan ha
    rcases hcases ha with ⟨rfl, -⟩ | ha
    · exact Nat.lt_succ_self _
    · exact Nat.lt_succ_of_lt (h.fresh a orphan ha)
  · exact fun hash d hd => Nat.lt_succ_of_lt (h.freshPointer hash d hd)
  · intro a orphan ha hash
    rcases hcases ha with ⟨-, rfl⟩ | ha
    · simp [hdeps]
    · exact h.waits a orphan ha hash
  · intro a orphan ha hash hhash
    rcases hcases ha with ⟨-, rfl⟩ | ha
    · simp [hdeps] at hhash
    · exact h.listed a orphan ha hash hhash
  · intro hash d hd
    rw [hold (h.freshPointer hash d hd)]
    exact h.live hash d hd
  · intro hash hhash
    obtain ⟨d, hd, hnone⟩ := h.stale hash hhash
    exact ⟨d, hd, by rw [hold (h.freshPointer hash d hd), hnone]⟩
  · intro a b orphan orphan' ha hb htx
    rcases hcases ha with ⟨rfl, rfl⟩ | ha
    · rcases hcases hb with ⟨rfl, -⟩ | hb
      · rfl
      · exact absurd htx.symm (hnew b orphan' hb)
    · rcases hcases hb with ⟨rfl, rfl⟩ | hb
      · exact absurd htx (hnew a orphan ha)
      · exact h.once a b orphan orphan' ha hb htx

variable {a : ℕ} {deps' : CTransaction → Finset uint256} {hash : uint256} {S : Finset uint256}

/-- A change of a record that keeps its transaction. -/
theorem lookup_modify_cases (ha : (r.modify porphan f).vOrphan.lookup a = some orphan) :
    ∃ old, r.vOrphan.lookup a = some old ∧ orphan = if a = porphan then f old else old := by
  rw [lookup_modify] at ha
  split_ifs at ha with hp
  · subst hp
    obtain ⟨old, hold, rfl⟩ := map_eq_some_iff.mp ha
    exact ⟨old, hold, by simp⟩
  · exact ⟨orphan, ha, by simp [hp]⟩

theorem lookup_modify_eq_none :
    (r.modify porphan f).vOrphan.lookup a = none ↔ r.vOrphan.lookup a = none := by
  rw [lookup_modify]
  split_ifs with hp
  · rw [hp, map_eq_none_iff]
  · exact Iff.rfl

theorem RecordsOk.modify {done' : Set uint256} (h : RecordsOk deps done dropped r)
    (htx : ∀ orphan, (f orphan).tx = orphan.tx)
    (hdeps : ∀ a orphan, r.vOrphan.lookup a = some orphan → deps orphan.tx = deps' orphan.tx)
    (hwaits : ∀ a orphan, r.vOrphan.lookup a = some orphan → ∀ hash,
      hash ∈ (if a = porphan then f orphan else orphan).setDependsOn ↔
        hash ∈ deps' orphan.tx ∧ hash ∉ done') :
    RecordsOk deps' done' dropped (r.modify porphan f) := by
  have htx' (a : ℕ) (orphan : COrphan) :
      (if a = porphan then f orphan else orphan).tx = orphan.tx := by
    split_ifs
    · exact htx orphan
    · rfl
  constructor
  · intro a orphan ha
    obtain ⟨old, hold, -⟩ := lookup_modify_cases ha
    exact h.fresh a old hold
  · exact h.freshPointer
  · intro a orphan ha hash
    obtain ⟨old, hold, rfl⟩ := lookup_modify_cases ha
    rw [htx', hwaits a old hold]
  · intro a orphan ha hash hhash
    obtain ⟨old, hold, rfl⟩ := lookup_modify_cases ha
    rw [htx', ← hdeps a old hold] at hhash
    exact h.listed a old hold hash hhash
  · intro hash d hd
    rcases h.live hash d hd with ⟨old, hold, howner, hhash⟩ | ⟨hnone, hdropped⟩
    · refine Or.inl ⟨if d.porphan = porphan then f old else old, ?_, ?_, ?_⟩
      · rw [lookup_modify]
        split_ifs with hp
        · rw [← hp, hold, map_some]
        · exact hold
      · rw [htx', howner]
      · rw [htx', ← hdeps _ old hold]
        exact hhash
    · exact Or.inr ⟨lookup_modify_eq_none.mpr hnone, hdropped⟩
  · intro hash hhash
    obtain ⟨d, hd, hnone⟩ := h.stale hash hhash
    exact ⟨d, hd, lookup_modify_eq_none.mpr hnone⟩
  · intro a b orphan orphan' ha hb heq
    obtain ⟨old, hold, rfl⟩ := lookup_modify_cases ha
    obtain ⟨old', hold', rfl⟩ := lookup_modify_cases hb
    rw [htx', htx'] at heq
    exact h.once a b old old' hold hold' heq

theorem mem_addDependency {hash' : uint256} {d : Depender} :
    d ∈ (r.addDependency tx porphan hash).mapDependers hash' ↔
      d ∈ r.mapDependers hash' ∨ hash' = hash ∧ d = ⟨porphan, tx⟩ := by
  change d ∈ update r.mapDependers hash _ hash' ↔ _
  by_cases heq : hash' = hash
  · subst heq
    simp
  · simp [heq]

section

variable (h : RecordsOk (update deps tx S) done dropped r)
  (hrecord : r.vOrphan.lookup porphan = some orphan) (htx : orphan.tx = tx)
include h hrecord htx

/-- One more dependency of a transaction that has a record. -/
theorem RecordsOk.addDependency (hdone : hash ∉ done) :
    RecordsOk (update deps tx (insert hash S)) done dropped
      (r.addDependency tx porphan hash) := by
  subst htx
  have hgrows (tx' : CTransaction) {hash' : uint256}
      (hhash : hash' ∈ update deps orphan.tx S tx') :
      hash' ∈ update deps orphan.tx (insert hash S) tx' := by
    by_cases htx' : tx' = orphan.tx
    · subst htx'
      rw [update_self] at hhash ⊢
      exact Finset.mem_insert_of_mem hhash
    · rwa [update_of_ne htx'] at hhash ⊢
  have hother {a : ℕ} {old : COrphan} (hold : r.vOrphan.lookup a = some old)
      (ha : a ≠ porphan) : old.tx ≠ orphan.tx := fun htx =>
     ha (h.once a porphan old orphan hold hrecord htx)
  constructor
  · intro a new ha
    obtain ⟨old, hold, -⟩ := lookup_modify_cases ha
    exact h.fresh a old hold
  · intro hash' d hd
    rcases mem_addDependency.mp hd with hd | ⟨-, rfl⟩
    · exact h.freshPointer hash' d hd
    · exact h.fresh porphan orphan hrecord
  · intro a new ha hash'
    obtain ⟨old, hold, rfl⟩ := lookup_modify_cases ha
    have hwaits := h.waits a old hold hash'
    by_cases hp : a = porphan
    · subst hp
      obtain rfl := some.inj (hrecord.symm.trans hold)
      rw [update_self] at hwaits
      rw [if_pos rfl]
      rw [update_self, Finset.mem_insert, Finset.mem_insert, hwaits]
      constructor
      · rintro (rfl | ⟨hS, hnot⟩)
        · exact ⟨Or.inl rfl, hdone⟩
        · exact ⟨Or.inr hS, hnot⟩
      · rintro ⟨rfl | hS, hnot⟩
        · exact Or.inl rfl
        · exact Or.inr ⟨hS, hnot⟩
    · rw [update_of_ne (hother hold hp)] at hwaits
      rw [if_neg hp, update_of_ne (hother hold hp), hwaits]
  · intro a new ha hash' hhash
    obtain ⟨old, hold, rfl⟩ := lookup_modify_cases ha
    by_cases hp : a = porphan
    · subst hp
      obtain rfl := some.inj (hrecord.symm.trans hold)
      rw [if_pos rfl] at hhash
      rw [update_self, Finset.mem_insert] at hhash
      rcases hhash with rfl | hS
      · exact ⟨⟨a, orphan.tx⟩, mem_addDependency.mpr (Or.inr ⟨rfl, rfl⟩), rfl⟩
      · obtain ⟨d, hd, hdp⟩ := h.listed a orphan hold hash' (by rwa [update_self])
        exact ⟨d, mem_addDependency.mpr (Or.inl hd), hdp⟩
    · rw [if_neg hp, update_of_ne (hother hold hp)] at hhash
      obtain ⟨d, hd, hdp⟩ :=
        h.listed a old hold hash' (by rwa [update_of_ne (hother hold hp)])
      exact ⟨d, mem_addDependency.mpr (Or.inl hd), hdp⟩
  · intro hash' d hd
    have hlookup (a : ℕ) : (r.addDependency orphan.tx porphan hash).vOrphan.lookup a =
        if a = porphan then some { orphan with setDependsOn := insert hash orphan.setDependsOn }
        else r.vOrphan.lookup a := by
      refine (lookup_modify porphan a _).trans ?_
      rw [hrecord, map_some]
    rcases mem_addDependency.mp hd with hd | ⟨rfl, rfl⟩
    · rcases h.live hash' d hd with ⟨old, hold, howner, hhash⟩ | ⟨hnone, hdropped⟩
      · left
        by_cases hp : d.porphan = porphan
        · rw [hp, hrecord] at hold
          obtain rfl := some.inj hold
          exact ⟨_, (hlookup d.porphan).trans (if_pos hp), howner, hgrows _ hhash⟩
        · exact ⟨old, by rw [hlookup, if_neg hp, hold], howner, hgrows _ hhash⟩
      · right
        refine ⟨?_, hdropped⟩
        rw [hlookup, if_neg, hnone]
        rintro hp
        rw [hp, hrecord] at hnone
        cases hnone
    · left
      refine ⟨_, (hlookup porphan).trans (if_pos rfl), rfl, ?_⟩
      rw [update_self]
      exact Finset.mem_insert_self _ _
  · intro hash' hhash
    obtain ⟨d, hd, hnone⟩ := h.stale hash' hhash
    exact ⟨d, mem_addDependency.mpr (Or.inl hd), lookup_modify_eq_none.mpr hnone⟩
  · intro a b new new' ha hb heq
    obtain ⟨old, hold, rfl⟩ := lookup_modify_cases ha
    obtain ⟨old', hold', rfl⟩ := lookup_modify_cases hb
    apply h.once a b old old' hold hold'
    split_ifs at heq <;> exact heq

/-- The record of a transaction is dropped. -/
theorem RecordsOk.popBack : RecordsOk deps done (dropped ∪ S) (r.popBack porphan) := by
  subst htx
  have hcases {a : ℕ} {old : COrphan} (ha : (r.popBack porphan).vOrphan.lookup a = some old) :
      a ≠ porphan ∧ r.vOrphan.lookup a = some old ∧
        update deps orphan.tx S old.tx = deps old.tx := by
    rw [lookup_popBack] at ha
    split_ifs at ha with hp
    refine ⟨hp, ha, update_of_ne ?_ _ _⟩
    exact fun htx => hp (h.once a porphan old orphan ha hrecord htx)
  constructor
  · intro a old ha
    exact h.fresh a old (hcases ha).2.1
  · exact h.freshPointer
  · intro a old ha hash
    rw [h.waits a old (hcases ha).2.1, (hcases ha).2.2]
  · intro a old ha hash hhash
    rw [← (hcases ha).2.2] at hhash
    exact h.listed a old (hcases ha).2.1 hash hhash
  · intro hash d hd
    rcases h.live hash d hd with ⟨old, hold, howner, hhash⟩ | ⟨hnone, hdropped⟩
    · by_cases hp : d.porphan = porphan
      · right
        refine ⟨by rw [lookup_popBack, if_pos hp], Or.inr ?_⟩
        rw [hp, hrecord] at hold
        obtain rfl := some.inj hold
        rwa [update_self] at hhash
      · left
        have hkept : (r.popBack porphan).vOrphan.lookup d.porphan = some old := by
          rw [lookup_popBack, if_neg hp, hold]
        exact ⟨old, hkept, howner, by rwa [(hcases hkept).2.2] at hhash⟩
    · right
      refine ⟨?_, Or.inl hdropped⟩
      rw [lookup_popBack, hnone, ite_self]
  · rintro hash (hdropped | hS)
    · obtain ⟨d, hd, hnone⟩ := h.stale hash hdropped
      exact ⟨d, hd, by rw [lookup_popBack, hnone, ite_self]⟩
    · obtain ⟨d, hd, hdp⟩ := h.listed porphan orphan hrecord hash (by rwa [update_self])
      exact ⟨d, hd, by rw [lookup_popBack, if_pos hdp]⟩
  · intro a b old old' ha hb heq
    exact h.once a b old old' (hcases ha).2.1 (hcases hb).2.1 heq

end

theorem RecordsOk.congr (h : RecordsOk deps done dropped r)
    (hdeps : ∀ a orphan, r.vOrphan.lookup a = some orphan → deps orphan.tx = deps' orphan.tx) :
    RecordsOk deps' done dropped r where
  fresh := h.fresh
  freshPointer := h.freshPointer
  waits a orphan ha := by
    rw [← hdeps a orphan ha]
    exact h.waits a orphan ha
  listed a orphan ha := by
    rw [← hdeps a orphan ha]
    exact h.listed a orphan ha
  live hash d hd := by
    rcases h.live hash d hd with ⟨orphan, ha, howner, hhash⟩ | hgone
    · exact Or.inl ⟨orphan, ha, howner, by rwa [← hdeps _ orphan ha]⟩
    · exact Or.inr hgone
  stale := h.stale
  once := h.once

end Records

/-! ## One transaction of the pool -/

section Inputs

variable {env : ChainEnv} {o : MinerOutcome} {s : ChainState} {txdb : CTxDB}

variable (env o) in
def poolDeps (tx : CTransaction) : Finset uint256 := dependenciesOf env o tx.vin

variable (env o) in
structure LoopOk (others : CTransaction → Prop) (dropped : Set uint256) (tx : CTransaction)
    (l : InputLoop) : Prop where
  records : RecordsOk (update (poolDeps env o) tx l.totals.setDependsOn) ∅ dropped l.records
  noRecord : l.porphan = none → l.totals.setDependsOn = ∅ ∧
    ∀ a orphan, l.records.vOrphan.lookup a = some orphan → orphan.tx ≠ tx
  hasRecord : ∀ a, l.porphan = some a →
    ∃ orphan, l.records.vOrphan.lookup a = some orphan ∧ orphan.tx = tx
  records_of : ∀ a orphan, l.records.vOrphan.lookup a = some orphan →
    others orphan.tx ∨ orphan.tx = tx

variable {others : CTransaction → Prop} {dropped : Set uint256} {tx : CTransaction}

variable {r : OrphanRecords} {txin : CTxIn}

/-- One more dependency of a transaction that has a record. -/
theorem LoopOk.addDependency {S : Finset uint256} {porphan : ℕ} {orphan : COrphan} {hash : uint256}
    {totals : InputTotals} (h : RecordsOk (update (poolDeps env o) tx S) ∅ dropped r)
    (hrecord : r.vOrphan.lookup porphan = some orphan) (htx : orphan.tx = tx)
    (hothers : ∀ a orphan, r.vOrphan.lookup a = some orphan → others orphan.tx ∨ orphan.tx = tx)
    (htotals : totals.setDependsOn = insert hash S) :
    LoopOk env o others dropped tx ⟨r.addDependency tx porphan hash, some porphan, totals⟩ where
  records := by
    rw [htotals]
    exact h.addDependency hrecord htx (Set.notMem_empty hash)
  noRecord := by simp
  hasRecord := by
    rintro a ha
    cases ha
    refine ⟨{ orphan with setDependsOn := insert hash orphan.setDependsOn }, ?_, htx⟩
    refine (lookup_modify porphan porphan _).trans ?_
    rw [if_pos rfl, hrecord, map_some]
  records_of := by
    intro a new ha
    obtain ⟨old, hold, rfl⟩ := lookup_modify_cases ha
    have hold := hothers a old hold
    split_ifs
    · exact hold
    · exact hold

variable {l : InputLoop}

theorem inputRound_ok {l' : InputLoop} (hl : LoopOk env o others dropped tx l)
    (h : inputRound env o s txdb tx l txin = .ok l') :
    LoopOk env o others dropped tx l' ∧ isMissing env o txdb tx txin = false ∧
      l'.totals.setDependsOn = l.totals.setDependsOn ∪ dependenciesOf env o [txin] := by
  obtain ⟨hmissing, htotals⟩ := addInput_spec env o s txdb tx l.totals txin
  unfold inputRound at h
  cases hadd : addInput env o s txdb (env.txHash tx) l.totals txin with
  | none =>
    rw [hadd] at h
    cases h
  | some totals =>
    have hdeps := htotals totals hadd
    have hpresent : isMissing env o txdb tx txin = false := by
      have hnot := mt hmissing.mpr (by rw [hadd]; exact some_ne_none totals)
      simpa using hnot
    rw [hadd] at h
    dsimp only at h
    split at h
    · next hnone =>
      cases h
      have hpool : inPool env o txin.prevout.hash = false := by simp [inPool, hnone]
      rw [hpool] at hdeps
      refine ⟨⟨?_, ?_, hl.hasRecord, hl.records_of⟩, hpresent, ?_⟩
      · rw [hdeps]
        exact hl.records
      · intro hp
        rw [hdeps]
        exact hl.noRecord hp
      · rw [hdeps]
        simp [dependenciesOf, hpool]
    · next txDep hsome =>
      have hpool : inPool env o txin.prevout.hash = true := by simp [inPool, hsome]
      rw [hpool] at hdeps
      have hunion : totals.setDependsOn = l.totals.setDependsOn ∪ dependenciesOf env o [txin] := by
        rw [hdeps]
        simp [dependenciesOf, hpool]
      split at h
      · next porphan hp =>
        cases h
        obtain ⟨orphan, hrecord, htx⟩ := hl.hasRecord porphan hp
        exact ⟨.addDependency hl.records hrecord htx hl.records_of hdeps, hpresent, hunion⟩
      · next hp =>
        cases h
        obtain ⟨hempty, hnew⟩ := hl.noRecord hp
        have hpushed := hl.records.pushBack (by rw [update_self, hempty]) hnew
        have hrecord : (l.records.pushBack tx).vOrphan.lookup l.records.nAddress =
            some ⟨⟨0, 0, tx, 0, 0⟩, ∅⟩ := by
          rw [lookup_pushBack, if_pos rfl]
        refine ⟨.addDependency hpushed hrecord rfl ?_ hdeps, hpresent, hunion⟩
        intro a orphan ha
        rw [lookup_pushBack] at ha
        split_ifs at ha
        · obtain rfl := some.inj ha
          exact Or.inr rfl
        · exact hl.records_of a orphan ha

theorem inputRound_error (h : inputRound env o s txdb tx l txin = .error r) :
    isMissing env o txdb tx txin = true ∧ r = l.porphan.elim l.records l.records.popBack := by
  obtain ⟨hmissing, -⟩ := addInput_spec env o s txdb tx l.totals txin
  unfold inputRound at h
  cases hadd : addInput env o s txdb (env.txHash tx) l.totals txin with
  | none =>
    rw [hadd] at h
    cases h
    exact ⟨hmissing.mp hadd, rfl⟩
  | some totals =>
    rw [hadd] at h
    dsimp only at h
    split at h
    · cases h
    · split at h
      · cases h
      · cases h

variable (s txdb) in
theorem inputRounds_spec (vin : List CTxIn) (hl : LoopOk env o others dropped tx l) :
    (∀ l', vin.foldlM (inputRound env o s txdb tx) l = .ok l' →
      LoopOk env o others dropped tx l' ∧ vin.any (isMissing env o txdb tx) = false ∧
        l'.totals.setDependsOn = l.totals.setDependsOn ∪ dependenciesOf env o vin) ∧
    ∀ r, vin.foldlM (inputRound env o s txdb tx) l = .error r →
      ∃ l', LoopOk env o others dropped tx l' ∧ vin.any (isMissing env o txdb tx) = true ∧
        l'.totals.setDependsOn = l.totals.setDependsOn ∪
          dependenciesOf env o (vin.takeWhile fun txin => ! isMissing env o txdb tx txin) ∧
        r = l'.porphan.elim l'.records l'.records.popBack := by
  induction vin generalizing l with
  | nil =>
    constructor
    · intro l' h
      cases h
      exact ⟨hl, rfl, by simp [dependenciesOf]⟩
    · intro r h
      cases h
  | cons txin vin ih =>
    have hsplit (vin : List CTxIn) (S : Finset uint256) :
        S ∪ dependenciesOf env o [txin] ∪ dependenciesOf env o vin =
          S ∪ dependenciesOf env o (txin :: vin) := by
      rw [dependenciesOf_cons txin vin, dependenciesOf_cons txin []]
      split_ifs <;> simp [dependenciesOf]
    constructor
    · intro l' h
      obtain ⟨mid, hmid, hrest⟩ := foldlM_cons_eq_ok.mp h
      obtain ⟨hmidOk, hpresent, hdeps⟩ := inputRound_ok hl hmid
      obtain ⟨hl', hall, htotals⟩ := (ih hmidOk).1 l' hrest
      refine ⟨hl', by simp [hpresent, hall], ?_⟩
      rw [htotals, hdeps, hsplit]
    · intro r h
      rcases except_bind_eq_error.mp h with hfirst | ⟨mid, hmid, hrest⟩
      · obtain ⟨hmissing, hr⟩ := inputRound_error hfirst
        refine ⟨l, hl, by simp [hmissing], ?_, hr⟩
        simp [hmissing, dependenciesOf]
      · obtain ⟨hmidOk, hpresent, hdeps⟩ := inputRound_ok hl hmid
        obtain ⟨l', hl', hany, htotals, hr⟩ := (ih hmidOk).2 r hrest
        refine ⟨l', hl', by simp [hany], ?_, hr⟩
        rw [htotals, hdeps, hsplit, takeWhile_cons_of_pos (by simp [hpresent])]

end Inputs

/-! ## The loop over the pool -/

section Gathering

variable (env : ChainEnv) (o : MinerOutcome) (s : ChainState) (txdb : CTxDB)

def droppedOf (seen : List CTransaction) : Set uint256 :=
  { hash | ∃ tx ∈ seen, hash ∈ droppedBy env o s txdb tx }

structure GatherOk (seen : List CTransaction) (state : OrphanRecords × List TxPriority) : Prop where
  records : RecordsOk (poolDeps env o) ∅ (droppedOf env o s txdb seen) state.1
  recordsSeen : ∀ a orphan, state.1.vOrphan.lookup a = some orphan → orphan.tx ∈ seen
  queueSeen : ∀ entry ∈ state.2, entry.tx ∈ seen
  ready : ∀ entry ∈ state.2, poolDeps env o entry.tx = ∅
  apart : ∀ entry ∈ state.2, ∀ a orphan,
    state.1.vOrphan.lookup a = some orphan → orphan.tx ≠ entry.tx
  nodup : (state.2.map TxPriority.tx).Nodup

variable {env o s txdb} {seen : List CTransaction} {tx : CTransaction}
  {state state' : OrphanRecords × List TxPriority}

theorem droppedOf_append (tx : CTransaction) :
    droppedOf env o s txdb (seen ++ [tx]) =
      droppedOf env o s txdb seen ∪ droppedBy env o s txdb tx := by
  ext hash
  simp [droppedOf, or_and_right, exists_or]

theorem GatherOk.of_records {r : OrphanRecords} (h : GatherOk env o s txdb seen state)
    (hnew : tx ∉ seen)
    (hrecords : RecordsOk (poolDeps env o) ∅ (droppedOf env o s txdb (seen ++ [tx])) r)
    (hothers : ∀ a orphan, r.vOrphan.lookup a = some orphan →
      (∃ a old, state.1.vOrphan.lookup a = some old ∧ old.tx = orphan.tx) ∨ orphan.tx = tx) :
    GatherOk env o s txdb (seen ++ [tx]) (r, state.2) where
  records := hrecords
  recordsSeen := by
    intro a orphan ha
    rcases hothers a orphan ha with ⟨b, old, hb, htx⟩ | htx
    · rw [← htx]
      exact mem_append_left _ (h.recordsSeen b old hb)
    · rw [htx]
      exact mem_append_right _ mem_cons_self
  queueSeen entry hentry := mem_append_left _ (h.queueSeen entry hentry)
  ready := h.ready
  apart := by
    intro entry hentry a orphan ha heq
    rcases hothers a orphan ha with ⟨b, old, hb, htx⟩ | htx
    · exact h.apart entry hentry b old hb (htx.trans heq)
    · exact hnew (by rw [← htx, heq]; exact h.queueSeen entry hentry)
  nodup := h.nodup

/-- A transaction that enters the queue at once. -/
theorem GatherOk.queue {entry : TxPriority} (h : GatherOk env o s txdb (seen ++ [tx]) state)
    (hqueue : ∀ entry ∈ state.2, entry.tx ∈ seen) (hnew : tx ∉ seen) (htx : entry.tx = tx)
    (hdeps : poolDeps env o tx = ∅)
    (hno : ∀ a orphan, state.1.vOrphan.lookup a = some orphan → orphan.tx ≠ tx) :
    GatherOk env o s txdb (seen ++ [tx]) (state.1, state.2 ++ [entry]) where
  records := h.records
  recordsSeen := h.recordsSeen
  queueSeen := by
    rw [forall_mem_append, forall_mem_singleton, htx]
    exact ⟨h.queueSeen, mem_append_right _ mem_cons_self⟩
  ready := by
    rw [forall_mem_append, forall_mem_singleton, htx]
    exact ⟨h.ready, hdeps⟩
  apart := by
    rw [forall_mem_append, forall_mem_singleton, htx]
    exact ⟨h.apart, hno⟩
  nodup := by
    rw [map_append, map_singleton, htx]
    apply Nodup.append h.nodup (nodup_singleton tx)
    intro tx' hmem htx'
    obtain ⟨old, hold, rfl⟩ := mem_map.mp hmem
    exact hnew (mem_singleton.mp htx' ▸ hqueue old hold)

/-- The turn of a transaction. -/
theorem gatherRound_ok (h : GatherOk env o s txdb seen state) (hnew : tx ∉ seen)
    (hround : gatherRound env o s txdb state tx = some state') :
    GatherOk env o s txdb (seen ++ [tx]) state' := by
  unfold gatherRound at hround
  by_cases hconsidered : isConsidered env o s tx
  swap
  · rw [if_pos hconsidered] at hround
    cases hround
    have hnone : droppedBy env o s txdb tx = ∅ := by simp [droppedBy, hconsidered]
    apply h.of_records hnew
    · rw [droppedOf_append, hnone, Finset.coe_empty, Set.union_empty]
      exact h.records
    · intro a orphan ha
      exact Or.inl ⟨a, orphan, ha, rfl⟩
  rw [if_neg (not_not.mpr hconsidered)] at hround
  have hstart : LoopOk env o
      (fun tx' => ∃ a old, state.1.vOrphan.lookup a = some old ∧ old.tx = tx')
      (droppedOf env o s txdb seen) tx ⟨state.1, none, ⟨∅, 0, 0⟩⟩ := by
    have hother : ∀ a orphan, state.1.vOrphan.lookup a = some orphan → orphan.tx ≠ tx := by
      rintro a orphan ha rfl
      exact hnew (h.recordsSeen a orphan ha)
    refine ⟨h.records.congr ?_, fun _ => ⟨rfl, hother⟩, by simp, ?_⟩
    · intro a orphan ha
      rw [update_of_ne (hother a orphan ha)]
    · intro a orphan ha
      exact Or.inl ⟨a, orphan, ha, rfl⟩
  obtain ⟨hok, herror⟩ := inputRounds_spec s txdb tx.vin hstart
  have hkept {l : InputLoop} (hl : LoopOk env o
      (fun tx' => ∃ a old, state.1.vOrphan.lookup a = some old ∧ old.tx = tx')
      (droppedOf env o s txdb seen) tx l) (hp : l.porphan = none) :
      RecordsOk (poolDeps env o) ∅ (droppedOf env o s txdb seen) l.records := by
    apply hl.records.congr
    intro a orphan ha
    rw [update_of_ne ((hl.noRecord hp).2 a orphan ha)]
  split at hround
  · next r hr =>
    cases hround
    obtain ⟨l, hl, hany, hdeps, rfl⟩ := herror r hr
    have hdropped : droppedBy env o s txdb tx = l.totals.setDependsOn := by
      rw [droppedBy, if_pos ⟨hconsidered, hany⟩, hdeps, Finset.empty_union]
    apply h.of_records hnew
    · rw [droppedOf_append, hdropped]
      cases hp : l.porphan with
      | none =>
        rw [(hl.noRecord hp).1, Finset.coe_empty, Set.union_empty]
        exact hkept hl hp
      | some porphan =>
        obtain ⟨orphan, hrecord, htx⟩ := hl.hasRecord porphan hp
        exact hl.records.popBack hrecord htx
    · intro a orphan ha
      apply hl.records_of a orphan
      cases hp : l.porphan with
      | none =>
        rw [hp] at ha
        exact ha
      | some porphan =>
        rw [hp] at ha
        have ha : (l.records.popBack porphan).vOrphan.lookup a = some orphan := ha
        rw [lookup_popBack] at ha
        split_ifs at ha
        exact ha
  · next l hl =>
    obtain ⟨hl, hany, hdeps⟩ := hok l hl
    obtain ⟨nValueOut, -, hround⟩ := bind_eq_some_iff.mp hround
    have hnone : droppedBy env o s txdb tx = ∅ := by simp [droppedBy, hany]
    have hdropped : droppedOf env o s txdb (seen ++ [tx]) = droppedOf env o s txdb seen := by
      rw [droppedOf_append, hnone, Finset.coe_empty, Set.union_empty]
    split at hround
    · next hp =>
      cases hround
      obtain ⟨hempty, hno⟩ := hl.noRecord hp
      have hrecords : GatherOk env o s txdb (seen ++ [tx]) (l.records, state.2) := by
        apply h.of_records hnew
        · rw [hdropped]
          exact hkept hl hp
        · exact hl.records_of
      exact hrecords.queue h.queueSeen hnew rfl (hdeps.symm.trans hempty) hno
    · next porphan hp =>
      cases hround
      have hfull : RecordsOk (poolDeps env o) ∅ (droppedOf env o s txdb seen) l.records := by
        have hself : update (poolDeps env o) tx l.totals.setDependsOn =
            poolDeps env o := by
          rw [hdeps]
          exact update_eq_self tx (poolDeps env o)
        rw [← hself]
        exact hl.records
      apply h.of_records hnew
      · rw [hdropped]
        refine hfull.modify (fun orphan => rfl) (fun a orphan _ => rfl) ?_
        intro a orphan ha hash
        rw [← hfull.waits a orphan ha hash]
        split_ifs <;> rfl
      · intro a orphan ha
        obtain ⟨old, hold, rfl⟩ := lookup_modify_cases ha
        have hold := hl.records_of a old hold
        split_ifs
        · exact hold
        · exact hold

theorem gatherRounds_ok {l : List CTransaction} (h : GatherOk env o s txdb seen state)
    (hnodup : (seen ++ l).Nodup)
    (hrounds : l.foldlM (gatherRound env o s txdb) state = some state') :
    GatherOk env o s txdb (seen ++ l) state' := by
  induction l generalizing seen state with
  | nil =>
    cases hrounds
    rwa [append_nil]
  | cons tx l ih =>
    obtain ⟨mid, hmid, hrest⟩ := foldlM_cons_eq_some.mp hrounds
    have hnew : tx ∉ seen := by
      intro hmem
      exact (nodup_append.mp hnodup).2.2 tx hmem tx mem_cons_self rfl
    have hsplit : seen ++ tx :: l = seen ++ [tx] ++ l := by simp
    rw [hsplit] at hnodup ⊢
    exact ih (gatherRound_ok h hnew hmid) hnodup hrest

end Gathering

/-! ## Following the pointers -/

section Following

variable {deps : CTransaction → Finset uint256} {done dropped : Set uint256}
  {r r' : OrphanRecords} {hash : uint256} {before after : List TxPriority}

def withoutDep (hash : uint256) (orphan : COrphan) : COrphan :=
  { orphan with setDependsOn := orphan.setDependsOn.erase hash }

def IsReleased (hash : uint256) (orphan : COrphan) : Prop :=
  orphan.setDependsOn ≠ ∅ ∧ (withoutDep hash orphan).setDependsOn = ∅

variable {orphan : COrphan} {released : List TxPriority}

theorem withoutDep_of_empty (h : orphan.setDependsOn = ∅) : withoutDep hash orphan = orphan := by
  cases orphan
  simp_all [withoutDep]

theorem withoutDep_withoutDep (orphan : COrphan) :
    withoutDep hash (withoutDep hash orphan) = withoutDep hash orphan := by
  simp [withoutDep]

structure Followed (hash : uint256) (pointers : List Depender) (r r' : OrphanRecords)
    (released : List TxPriority) : Prop where
  nAddress : r'.nAddress = r.nAddress
  mapDependers : r'.mapDependers = r.mapDependers
  records : ∀ a, r'.vOrphan.lookup a = (r.vOrphan.lookup a).map fun orphan =>
    if a ∈ pointers.map porphan then withoutDep hash orphan else orphan
  ready : ∀ entry ∈ released, ∃ a orphan, r.vOrphan.lookup a = some orphan ∧
    orphan.tx = entry.tx ∧ IsReleased hash orphan ∧ a ∈ pointers.map porphan
  nodup : (released.map TxPriority.tx).Nodup

/-- What following a pointer does. -/
theorem followed_of_followPointer {d : Depender}
    (h : followPointer hash (r, before) d = some (r', after)) :
    ∃ released, after = before ++ released ∧ Followed hash [d] r r' released := by
  obtain ⟨orphan, hrecord, heq⟩ := map_eq_some_iff.mp h
  by_cases hempty : orphan.setDependsOn = ∅
  · rw [if_pos hempty] at heq
    cases heq
    refine ⟨[], (append_nil _).symm, rfl, rfl, ?_, by simp, by simp⟩
    intro a
    by_cases ha : a = d.porphan
    · subst ha
      simp [hrecord, withoutDep_of_empty hempty]
    · simp [ha]
  · rw [if_neg hempty] at heq
    cases heq
    refine ⟨if (withoutDep hash orphan).setDependsOn = ∅ then [orphan.toTxPriority] else [],
      ?_, rfl, rfl, ?_, ?_, ?_⟩
    · change (if (withoutDep hash orphan).setDependsOn = ∅ then _ else _) = _
      split_ifs <;> simp
    · intro a
      by_cases ha : a = d.porphan
      · subst ha
        simp [hrecord, withoutDep]
      · simp [ha]
    · intro entry hentry
      split_ifs at hentry with hlast
      · obtain rfl := mem_singleton.mp hentry
        exact ⟨d.porphan, orphan, hrecord, rfl, ⟨hempty, hlast⟩, by simp⟩
      · cases hentry
    · split_ifs <;> simp

section

variable (honce : ∀ a b orphan orphan', r.vOrphan.lookup a = some orphan →
  r.vOrphan.lookup b = some orphan' → orphan.tx = orphan'.tx → a = b)
include honce

theorem Followed.trans {first second : List Depender} {mid : OrphanRecords}
    {released' : List TxPriority}
    (h : Followed hash first r mid released) (h' : Followed hash second mid r' released') :
    Followed hash (first ++ second) r r' (released ++ released') := by
  -- a record that is released later was not reached before
  have hlater : ∀ entry ∈ released', ∃ a orphan, r.vOrphan.lookup a = some orphan ∧
      orphan.tx = entry.tx ∧ IsReleased hash orphan ∧ a ∈ second.map porphan ∧
      a ∉ first.map porphan := by
    intro entry hentry
    obtain ⟨a, new, hnew, htx, hreleased, ha⟩ := h'.ready entry hentry
    rw [h.records] at hnew
    obtain ⟨orphan, hrecord, rfl⟩ := map_eq_some_iff.mp hnew
    split_ifs at hreleased htx with hfirst
    · obtain ⟨hsome, hlast⟩ := hreleased
      rw [withoutDep_withoutDep] at hlast
      exact absurd hlast hsome
    · exact ⟨a, orphan, hrecord, htx, hreleased, ha, hfirst⟩
  constructor
  · rw [h'.nAddress, h.nAddress]
  · rw [h'.mapDependers, h.mapDependers]
  · intro a
    rw [h'.records, h.records, Option.map_map]
    congr 1
    funext orphan
    by_cases hfirst : a ∈ first.map porphan <;>
      by_cases hsecond : a ∈ second.map porphan <;>
      simp only [comp_apply, map_append, mem_append, hfirst, hsecond, if_true,
        if_false, or_true, or_false, withoutDep_withoutDep]
  · rw [forall_mem_append]
    constructor
    · intro entry hentry
      obtain ⟨a, orphan, hrecord, htx, hreleased, ha⟩ := h.ready entry hentry
      exact ⟨a, orphan, hrecord, htx, hreleased, by simp_all⟩
    · intro entry hentry
      obtain ⟨a, orphan, hrecord, htx, hreleased, ha, -⟩ := hlater entry hentry
      exact ⟨a, orphan, hrecord, htx, hreleased, by simp_all⟩
  · rw [map_append]
    apply Nodup.append h.nodup h'.nodup
    intro tx hfirst hsecond
    obtain ⟨entry, hentry, rfl⟩ := mem_map.mp hfirst
    obtain ⟨entry', hentry', heq⟩ := mem_map.mp hsecond
    obtain ⟨a, orphan, hrecord, htx, -, ha⟩ := h.ready entry hentry
    obtain ⟨b, orphan', hrecord', htx', -, -, hb⟩ := hlater entry' hentry'
    rw [honce a b orphan orphan' hrecord hrecord' (by rw [htx, htx', heq])] at ha
    exact hb ha

/-- What following a list of pointers does. -/
theorem followed_of_foldlM {pointers : List Depender}
    (h : pointers.foldlM (followPointer hash) (r, before) = some (r', after)) :
    ∃ released, after = before ++ released ∧ Followed hash pointers r r' released := by
  induction pointers generalizing r before with
  | nil =>
    cases h
    exact ⟨[], (append_nil _).symm, rfl, rfl, by simp, by simp, by simp⟩
  | cons d pointers ih =>
    obtain ⟨⟨mid, queue⟩, hmid, hrest⟩ := foldlM_cons_eq_some.mp h
    obtain ⟨released, rfl, hfirst⟩ := followed_of_followPointer hmid
    have honce' : ∀ a b orphan orphan', mid.vOrphan.lookup a = some orphan →
        mid.vOrphan.lookup b = some orphan' → orphan.tx = orphan'.tx → a = b := by
      intro a b orphan orphan' ha hb heq
      rw [hfirst.records] at ha hb
      obtain ⟨old, hold, rfl⟩ := map_eq_some_iff.mp ha
      obtain ⟨old', hold', rfl⟩ := map_eq_some_iff.mp hb
      apply honce a b old old' hold hold'
      split_ifs at heq <;> exact heq
    obtain ⟨released', rfl, hsecond⟩ := ih honce' hrest
    exact ⟨released ++ released', append_assoc _ _ _, hfirst.trans honce hsecond⟩

end

theorem RecordsOk.follow (h : RecordsOk deps done dropped r)
    (hfollowed : Followed hash (r.mapDependers hash) r r' released) :
    RecordsOk deps (insert hash done) dropped r' := by
  have hcases {a : ℕ} {new : COrphan} (ha : r'.vOrphan.lookup a = some new) :
      ∃ old, r.vOrphan.lookup a = some old ∧ new.tx = old.tx ∧
        new = if a ∈ (r.mapDependers hash).map porphan then withoutDep hash old else old := by
    rw [hfollowed.records] at ha
    obtain ⟨old, hold, rfl⟩ := map_eq_some_iff.mp ha
    refine ⟨old, hold, ?_, rfl⟩
    split_ifs <;> rfl
  have hnone {a : ℕ} : r'.vOrphan.lookup a = none ↔ r.vOrphan.lookup a = none := by
    rw [hfollowed.records, map_eq_none_iff]
  constructor
  · intro a new ha
    obtain ⟨old, hold, -⟩ := hcases ha
    rw [hfollowed.nAddress]
    exact h.fresh a old hold
  · rw [hfollowed.mapDependers, hfollowed.nAddress]
    exact h.freshPointer
  · intro a new ha hash'
    obtain ⟨old, hold, -, rfl⟩ := hcases ha
    have hwaits := h.waits a old hold hash'
    split_ifs with hpointer
    · simp only [withoutDep, Finset.mem_erase, hwaits, Set.mem_insert_iff, not_or]
      exact and_left_comm
    · rw [hwaits, Set.mem_insert_iff, not_or]
      have hother (hdep : hash' ∈ deps old.tx) : hash' ≠ hash := by
        rintro rfl
        obtain ⟨d, hd, rfl⟩ := h.listed a old hold hash' hdep
        exact hpointer (mem_map_of_mem hd)
      exact and_congr_right fun hdep => (and_iff_right (hother hdep)).symm
  · intro a new ha hash' hdep
    obtain ⟨old, hold, htx, -⟩ := hcases ha
    rw [hfollowed.mapDependers]
    exact h.listed a old hold hash' (htx ▸ hdep)
  · rw [hfollowed.mapDependers]
    intro hash' d hd
    rcases h.live hash' d hd with ⟨old, hold, howner, hdep⟩ | ⟨hgone, hdropped⟩
    · left
      have hnew := hfollowed.records d.porphan
      rw [hold] at hnew
      obtain ⟨old', hold', htx, -⟩ := hcases hnew
      obtain rfl := some.inj (hold.symm.trans hold')
      exact ⟨_, hnew, htx.trans howner, htx ▸ hdep⟩
    · exact Or.inr ⟨hnone.mpr hgone, hdropped⟩
  · rw [hfollowed.mapDependers]
    intro hash' hdropped
    obtain ⟨d, hd, hgone⟩ := h.stale hash' hdropped
    exact ⟨d, hd, hnone.mpr hgone⟩
  · intro a b new new' ha hb heq
    obtain ⟨old, hold, htx, -⟩ := hcases ha
    obtain ⟨old', hold', htx', -⟩ := hcases hb
    exact h.once a b old old' hold hold' (by rw [← htx, heq, htx'])

theorem RecordsOk.deps_done (h : RecordsOk deps done dropped r) {a : ℕ}
    (ha : r.vOrphan.lookup a = some orphan) (hreleased : IsReleased hash orphan) :
    ∀ hash' ∈ deps orphan.tx, hash' ∈ insert hash done := by
  intro hash' hdep
  by_contra hnot
  rw [Set.mem_insert_iff, not_or] at hnot
  have hmem : hash' ∈ (withoutDep hash orphan).setDependsOn :=
    Finset.mem_erase.mpr ⟨hnot.1, (h.waits a orphan ha hash').mpr ⟨hdep, hnot.2⟩⟩
  rw [hreleased.2] at hmem
  exact Finset.notMem_empty hash' hmem

end Following

/-! ## Collecting -/

section Collecting

variable {env : ChainEnv} {args : MinerArgs} {o : MinerOutcome} {s : ChainState} {txdb : CTxDB}
  {pindexPrev : CBlockIndex}

theorem collectTx_vtx {entry : TxPriority} {state state' : CollectState}
    (horphans : state.vOrphan = [])
    (h : collectTx env args o s txdb pindexPrev entry state = some state') :
    state'.vOrphan = [] ∧ (state'.vtx = state.vtx ∨ state'.vtx = state.vtx ++ [entry.tx]) := by
  obtain ⟨fSortedByFee, rfl | ⟨c, rfl⟩⟩ := collectTx_cases h
  · exact ⟨horphans, Or.inl rfl⟩
  · refine ⟨?_, Or.inr rfl⟩
    simp [CollectedTx.next, horphans, releaseOrphans]

theorem takeFromQueue_spec {collected : CollectState} {next : TxPriority × CollectState}
    (horphans : collected.vOrphan = [])
    (h : takeFromQueue env args o s txdb pindexPrev collected = some next) :
    next.2.vOrphan = [] ∧
      next.2.vtx = collected.vtx ++
        (addedNext env args o s txdb pindexPrev collected).toList := by
  have hspec : next.2.vOrphan = [] ∧
      (next.2.vtx = collected.vtx ∨ next.2.vtx = collected.vtx ++ [next.1.tx]) := by
    unfold takeFromQueue at h
    split at h
    · cases h
    · obtain ⟨collected', hcollect, rfl⟩ := map_eq_some_iff.mp h
      apply collectTx_vtx _ hcollect
      exact horphans
  refine ⟨hspec.1, ?_⟩
  rw [addedNext, h]
  rcases hspec.2 with hsame | hadded
  · simp [hsame]
  · simp [hadded]

variable (env o s txdb) in
/-- The records, the block and the queue between two rounds. -/
structure CollectOk (state : PointerState) : Prop where
  records : RecordsOk (poolDeps env o) { hash | hash ∈ state.collected.vtx.map env.txHash }
    (droppedOf env o s txdb o.mapTx) state.records
  nodup : state.queued.Nodup
  ready : ∀ tx ∈ state.queued, ∀ hash ∈ poolDeps env o tx, hash ∈ state.collected.vtx.map env.txHash
  noOrphans : state.collected.vOrphan = []

variable {state : PointerState}

theorem CollectOk.notMem_queued (h : CollectOk env o s txdb state) {a : ℕ} {orphan : COrphan}
    (ha : state.records.vOrphan.lookup a = some orphan) (hwaits : orphan.setDependsOn ≠ ∅) :
    orphan.tx ∉ state.queued := by
  intro hqueued
  obtain ⟨hash, hhash⟩ := Finset.nonempty_iff_ne_empty.mpr hwaits
  obtain ⟨hdep, hnot⟩ := (h.records.waits a orphan ha hash).mp hhash
  exact hnot (h.ready orphan.tx hqueued hash hdep)

theorem collectRound_ok {state' : PointerState} (h : CollectOk env o s txdb state)
    (hround : collectRound env args o s txdb pindexPrev state = some state') :
    CollectOk env o s txdb state' := by
  obtain ⟨next, htake, hround⟩ := bind_eq_some_iff.mp hround
  obtain ⟨horphans, hvtx⟩ := takeFromQueue_spec h.noOrphans htake
  split at hround
  · next hnone =>
    cases hround
    rw [hnone, toList_none, append_nil] at hvtx
    constructor
    · rw [hvtx]
      exact h.records
    · exact h.nodup
    · rw [hvtx]
      exact h.ready
    · exact horphans
  · next tx hadded =>
    obtain ⟨⟨records, released⟩, hfollow, hround⟩ := bind_eq_some_iff.mp hround
    cases hround
    obtain ⟨released', heq, hfollowed⟩ := followed_of_foldlM h.records.once hfollow
    obtain rfl : released = released' := heq
    rw [hadded] at hvtx
    have hdone : { hash | hash ∈ next.2.vtx.map env.txHash } =
        insert (env.txHash tx) { hash | hash ∈ state.collected.vtx.map env.txHash } := by
      rw [hvtx]
      ext hash
      simp [or_comm]
    have hgrows : ∀ hash ∈ state.collected.vtx.map env.txHash,
        hash ∈ next.2.vtx.map env.txHash := by
      rw [hvtx, map_append]
      exact fun hash hhash => mem_append_left _ hhash
    constructor
    · rw [hdone]
      exact h.records.follow hfollowed
    · apply Nodup.append h.nodup hfollowed.nodup
      intro tx' hqueued hreleased
      obtain ⟨entry, hentry, rfl⟩ := mem_map.mp hreleased
      obtain ⟨a, orphan, ha, htx, hlast, -⟩ := hfollowed.ready entry hentry
      rw [← htx] at hqueued
      exact h.notMem_queued ha hlast.1 hqueued
    · rw [forall_mem_append]
      constructor
      · exact fun tx' htx' hash hhash => hgrows hash (h.ready tx' htx' hash hhash)
      · intro tx' htx' hash hhash
        obtain ⟨entry, hentry, rfl⟩ := mem_map.mp htx'
        obtain ⟨a, orphan, ha, htx, hlast, -⟩ := hfollowed.ready entry hentry
        rw [← htx] at hhash
        have hmem := h.records.deps_done ha hlast hash hhash
        rw [← hdone] at hmem
        exact hmem
    · exact horphans

structure PoolOutcome (env : ChainEnv) extends MinerOutcome where
  nodup : (mapTx.map env.txHash).Nodup

theorem collectRounds_ok {o : PoolOutcome env} (n : ℕ)
    (h : collectRounds env args o.toMinerOutcome s txdb pindexPrev n = some state) :
    CollectOk env o.toMinerOutcome s txdb state := by
  induction n generalizing state with
  | zero =>
    obtain ⟨⟨records, vecPriority⟩, hgather, h⟩ := bind_eq_some_iff.mp h
    cases h
    have hempty : droppedOf env o.toMinerOutcome s txdb [] = ∅ := by simp [droppedOf]
    have hstart : GatherOk env o.toMinerOutcome s txdb [] (.empty, []) := by
      refine ⟨?_, by simp [empty], by simp, by simp, by simp, nodup_nil⟩
      rw [hempty]
      exact recordsOk_empty
    have hgathered := gatherRounds_ok hstart (Nodup.of_map env.txHash o.nodup) hgather
    constructor
    · simpa using hgathered.records
    · exact hgathered.nodup
    · intro tx htx hash hhash
      obtain ⟨entry, hentry, rfl⟩ := mem_map.mp htx
      rw [hgathered.ready entry hentry] at hhash
      cases hhash
    · rfl
  | succ n ih =>
    obtain ⟨mid, hmid, hround⟩ := bind_eq_some_iff.mp h
    exact collectRound_ok (ih hmid) hround

variable (env args) in
/-- The pointers that are followed in the next round lead to records of the transactions that
listed the one that is added. -/
def PointersLive (o : MinerOutcome) (s : ChainState) (txdb : CTxDB) (pindexPrev : CBlockIndex)
    (state : PointerState) : Prop :=
  ∀ tx, addedNext env args o s txdb pindexPrev state.collected = some tx →
    ∀ d ∈ state.records.mapDependers (env.txHash tx),
      ∃ orphan, state.records.vOrphan.lookup d.porphan = some orphan ∧ orphan.tx = d.ptx ∧
        env.txHash tx ∈ poolDeps env o d.ptx

variable (env o) in
/-- What has entered the queue has entered it once, and after all that it spends. -/
def QueueOk (state : PointerState) : Prop :=
  state.queued.Nodup ∧ ∀ tx ∈ state.queued, ∀ hash ∈ poolDeps env o tx,
    hash ∈ state.collected.vtx.map env.txHash

theorem CollectOk.live_iff (h : CollectOk env o s txdb state) :
    PointersLive env args o s txdb pindexPrev state ↔
      ∀ tx, addedNext env args o s txdb pindexPrev state.collected = some tx →
        ¬ IsDropped env o s txdb (env.txHash tx) := by
  refine forall₂_congr fun tx _ => ?_
  constructor
  · intro hlive hdropped
    obtain ⟨d, hd, hnone⟩ := h.records.stale (env.txHash tx) hdropped
    obtain ⟨orphan, hrecord, -⟩ := hlive d hd
    exact some_ne_none orphan (hrecord.symm.trans hnone)
  · intro hkept d hd
    rcases h.records.live (env.txHash tx) d hd with ⟨orphan, hrecord, htx, hdep⟩ | ⟨-, hdropped⟩
    · exact ⟨orphan, hrecord, htx, htx ▸ hdep⟩
    · exact absurd hdropped hkept

/-- The pointers that are followed lead to records exactly if no transaction is added that was
listed under a dropped record. -/
theorem pointersLive_iff (env : ChainEnv) (args : MinerArgs) (o : PoolOutcome env)
    (s : ChainState) (txdb : CTxDB) (pindexPrev : CBlockIndex) :
    (∀ n state, collectRounds env args o.toMinerOutcome s txdb pindexPrev n = some state →
      PointersLive env args o.toMinerOutcome s txdb pindexPrev state ∧
        QueueOk env o.toMinerOutcome state) ↔
    ∀ n state, collectRounds env args o.toMinerOutcome s txdb pindexPrev n = some state →
      ∀ tx, addedNext env args o.toMinerOutcome s txdb pindexPrev state.collected = some tx →
        ¬ IsDropped env o.toMinerOutcome s txdb (env.txHash tx) := by
  refine forall₂_congr fun n state => forall_congr' fun h => ?_
  have hok := collectRounds_ok n h
  rw [← hok.live_iff]
  exact and_iff_left ⟨hok.nodup, hok.ready⟩

end Collecting

namespace DroppedRecord

def coinBase : CTransaction where
  vin := [⟨⟨0, uintMax⟩, [0, 0], uintMax⟩]
  vout := [⟨50 * COIN, []⟩]
  nLockTime := 6

/-- Spends the coinbase, which is in the chain. -/
def spender : CTransaction where
  vin := [⟨⟨7, 0⟩, [], uintMax⟩]
  vout := [⟨50 * COIN, []⟩]
  nLockTime := 9

/-- Spends an output of the pool and one that a reorganisation has removed. -/
def waiting : CTransaction where
  vin := [⟨⟨10, 0⟩, [], uintMax⟩, ⟨⟨99, 0⟩, [], uintMax⟩]
  vout := [⟨60 * COIN, []⟩]
  nLockTime := 11

def env : ChainEnv where
  fTestNet := false
  nBaseMaturity := 0
  totalBlocksEstimate := 0
  txHash tx := tx.nLockTime + 1
  blockHash header := header.nNonce + 1
  checkProofOfWork _ := true
  buildMerkleTree _ := 0
  getSigOpCount _ _ := 0
  getP2SHSigOpCount _ _ := 0
  isPayToScriptHash _ := false
  verifyScript _ _ _ _ _ _ := true
  blockFileTx _ _ := some coinBase
  blockFileBlock _ _ := none

def pool : PoolOutcome env where
  miningKey := [2]
  mapTx := [spender, waiting]
  nAdjustedTime := 0
  nConnectTime := 0
  nodup := by decide

def txdb : CTxDB :=
  ⟨⟨(∅ : TxIndexTable).insert 7 (.ofOutputs ⟨1, 2, 3⟩ 1), ∅, none, none⟩, none⟩

def pindex : CBlockIndex := ⟨some 9, none, none, 1, 8, 0, 0, 2, 0, 0, 0, 0⟩

/-- With `-blockprioritysize=1`. -/
def start : Option PointerState :=
  collectRounds env { nBlockPrioritySize := 1 } pool.toMinerOutcome .initial txdb pindex 0

theorem start_added : (start.bind fun state =>
    addedNext env { nBlockPrioritySize := 1 } pool.toMinerOutcome .initial txdb pindex
      state.collected) = some spender := by
  decide

theorem start_pointers : (start.map fun state =>
    ((state.records.mapDependers 10).map porphan, state.records.vOrphan.lookup 0 |>.isNone)) =
      some ([0], true) := by
  decide

end DroppedRecord

open DroppedRecord

/-- The record of a transaction that misses its second input is dropped, and the pointer to it is
followed when the transaction of its first input has been added. -/
theorem pointersLive_dropped : ∃ state, collectRounds env { nBlockPrioritySize := 1 }
        pool.toMinerOutcome .initial txdb pindex 0 =
          some state ∧
      ¬ PointersLive env { nBlockPrioritySize := 1 }
        pool.toMinerOutcome .initial txdb pindex
        state := by
  obtain ⟨state, hstate, hadded⟩ := bind_eq_some_iff.mp start_added
  refine ⟨state, hstate, fun hlive => ?_⟩
  have hpointers := start_pointers
  rw [hstate] at hpointers
  obtain ⟨haddresses, hgone⟩ := Prod.mk.inj (some.inj hpointers)
  obtain ⟨d, hd, haddress⟩ := mem_map.mp (haddresses ▸ mem_singleton_self 0)
  obtain ⟨orphan, hrecord, -⟩ := hlive spender hadded d hd
  rw [haddress] at hrecord
  rw [hrecord] at hgone
  cases hgone

end Phoenixcoin.Analysis
