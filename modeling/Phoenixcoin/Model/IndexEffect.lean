import Phoenixcoin.Lib.Consumption
import Phoenixcoin.Lib.Run
import Phoenixcoin.Program.ChainDb

/-!
# Transactions as effects on the transaction index

What a transaction does to the index, apart from all checks on amounts and signatures: it
marks the outputs it spends and adds an entry of its own. The effect of a transaction can be
undone, and the effects of a block are undone in reverse order.
-/

set_option autoImplicit false

namespace Phoenixcoin.Model

open Lib Program List Option CDiskTxPos

/-- The part of a transaction that the index sees. -/
structure TxEffect where
  id : uint256
  pos : CDiskTxPos
  spends : List COutPoint
  nOutputs : ℕ

/-- Write `pos` into the slot of an outpoint. -/
def setSpent (o : COutPoint) (pos : CDiskTxPos) (index : TxIndexTable) : TxIndexTable :=
  match index.lookup o.hash with
  | none => index
  | some e => index.insert o.hash { e with vSpent := e.vSpent.set o.n pos }

/-- The slot that tells which transaction spends an outpoint. -/
def spentSlot (index : TxIndexTable) (o : COutPoint) : Option CDiskTxPos :=
  (index.lookup o.hash).bind fun e => e.vSpent[o.n]?

/-- Spend an outpoint that has a slot and is not spent. -/
def spendOutput (pos : CDiskTxPos) (index : TxIndexTable) (o : COutPoint) :
    Option TxIndexTable := do
  let slot ← spentSlot index o
  guard slot.IsNull
  return setSpent o pos index

/-- Take back a spend. -/
def unspendOutput (index : TxIndexTable) (o : COutPoint) : Option TxIndexTable := do
  guard (spentSlot index o).isSome
  return setSpent o null index

def TxEffect.entry (eff : TxEffect) : CTxIndex := .ofOutputs eff.pos eff.nOutputs

def TxEffect.apply (index : TxIndexTable) (eff : TxEffect) : Option TxIndexTable := do
  let index ← eff.spends.foldlM (spendOutput eff.pos) index
  return index.insert eff.id eff.entry

def TxEffect.undo (index : TxIndexTable) (eff : TxEffect) : Option TxIndexTable := do
  let index ← eff.spends.foldlM unspendOutput index
  return index.erase eff.id

/-- Every null slot holds the position that `SetNull` writes. -/
def NullsCanonical (index : TxIndexTable) : Prop :=
  ∀ o slot, spentSlot index o = some slot → slot.IsNull → slot = null

/-! ## Setting slots -/

variable {index index' : TxIndexTable} {o : COutPoint} {pos : CDiskTxPos} {outs : List COutPoint}
  {eff : TxEffect}

theorem setSpent_of_lookup {e : CTxIndex} (h : index.lookup o.hash = some e) (pos : CDiskTxPos) :
    setSpent o pos index = index.insert o.hash { e with vSpent := e.vSpent.set o.n pos } := by
  rw [setSpent, h]

theorem lookup_setSpent (o : COutPoint) (pos : CDiskTxPos) (index : TxIndexTable) (hash : uint256) :
    (setSpent o pos index).lookup hash =
      if hash = o.hash then
        (index.lookup hash).map fun e => { e with vSpent := e.vSpent.set o.n pos }
      else index.lookup hash := by
  cases h : index.lookup o.hash with
  | none =>
    have hkeep : setSpent o pos index = index := by
      rw [setSpent, h]
    by_cases hk : hash = o.hash
    · rw [hkeep, if_pos hk, hk, h, map_none]
    · rw [hkeep, if_neg hk]
  | some e =>
    rw [setSpent_of_lookup h, Table.lookup_insert_ite]
    by_cases hk : hash = o.hash
    · rw [if_pos hk, if_pos hk, hk, h, map_some]
    · rw [if_neg hk, if_neg hk]

theorem spentSlot_setSpent (o o' : COutPoint) (pos : CDiskTxPos) (index : TxIndexTable) :
    spentSlot (setSpent o pos index) o' =
      if o' = o then (spentSlot index o').map fun _ => pos else spentSlot index o' := by
  unfold spentSlot
  rw [lookup_setSpent]
  obtain ⟨hash, n⟩ := o
  obtain ⟨hash', n'⟩ := o'
  by_cases hh : hash' = hash
  · subst hh
    cases index.lookup hash' with
    | none => simp
    | some e =>
      by_cases hn : n' = n
      · subst hn
        by_cases hlt : n' < e.vSpent.length <;> simp [hlt]
      · have hne : n ≠ n' := fun h => hn h.symm
        simp [hn, hne]
  · simp [hh]

theorem setSpent_setSpent (o : COutPoint) (pos pos' : CDiskTxPos) (index : TxIndexTable) :
    setSpent o pos (setSpent o pos' index) = setSpent o pos index := by
  apply Finmap.ext_lookup
  intro hash
  simp only [lookup_setSpent]
  split
  · cases index.lookup hash <;> simp
  · rfl

theorem setSpent_comm {o' : COutPoint} (h : o ≠ o') (pos pos' : CDiskTxPos) (index : TxIndexTable) :
    setSpent o pos (setSpent o' pos' index) = setSpent o' pos' (setSpent o pos index) := by
  apply Finmap.ext_lookup
  intro hash
  simp only [lookup_setSpent]
  by_cases h1 : hash = o.hash <;> by_cases h2 : hash = o'.hash <;>
    simp only [h1, h2, if_true, if_false]
  -- both outpoints belong to one transaction, so their positions differ
  · have hn : o'.n ≠ o.n := by
      intro hn
      apply h
      cases o'
      simp_all
    simp [← h1, ← h2, Function.comp_def, set_comm _ _ hn]
  · have hne : o.hash ≠ o'.hash := fun he => h2 (h1.trans he)
    simp [hne]
  · have hne : o'.hash ≠ o.hash := fun he => h1 (h2.trans he)
    simp [hne]

/-- Writing the value a slot already has changes nothing. -/
theorem setSpent_of_spentSlot (h : spentSlot index o = some pos) :
    setSpent o pos index = index := by
  apply Finmap.ext_lookup
  intro hash
  rw [lookup_setSpent]
  split
  · next hk =>
    subst hk
    unfold spentSlot at h
    cases he : index.lookup o.hash with
    | none => rfl
    | some e =>
      rw [he, bind_some] at h
      have hset : e.vSpent.set o.n pos = e.vSpent := by
        apply ext_getElem?
        intro i
        rw [getElem?_set]
        split
        · next hi =>
          subst hi
          rw [h]
          split <;> rename_i hlt
          · rfl
          · exact absurd (List.getElem?_eq_some_iff.mp h).1 hlt
        · rfl
      rw [map_some, hset]
  · rfl

theorem setSpent_insert_of_ne {id : uint256} (h : o.hash ≠ id) (pos : CDiskTxPos) (e : CTxIndex)
    (index : TxIndexTable) :
    setSpent o pos (index.insert id e) = (setSpent o pos index).insert id e := by
  apply Finmap.ext_lookup
  intro hash
  simp only [lookup_setSpent, Table.lookup_insert_ite]
  by_cases h1 : hash = id
  · subst h1
    rw [if_neg (fun he => h he.symm), if_pos rfl, if_pos rfl]
  · simp [h1]

/-! ## Spending the inputs of one transaction -/

/-- Write `pos` into the slots of several outpoints. -/
def setAllSpent (pos : CDiskTxPos) (index : TxIndexTable) (outs : List COutPoint) :
    TxIndexTable :=
  outs.foldl (fun index o => setSpent o pos index) index

theorem setAllSpent_cons (pos : CDiskTxPos) (index : TxIndexTable) (o : COutPoint)
    (outs : List COutPoint) :
    setAllSpent pos index (o :: outs) = setAllSpent pos (setSpent o pos index) outs :=
  rfl

theorem setSpent_setAllSpent (h : o ∉ outs) (pos pos' : CDiskTxPos) (index : TxIndexTable) :
    setSpent o pos (setAllSpent pos' index outs) =
      setAllSpent pos' (setSpent o pos index) outs := by
  induction outs generalizing index with
  | nil => rfl
  | cons o' outs ih =>
    have hne : o ≠ o' := fun he => h (he ▸ mem_cons_self)
    rw [setAllSpent_cons, setAllSpent_cons, ih (fun hm => h (mem_cons_of_mem _ hm)),
      setSpent_comm hne]

theorem setAllSpent_insert_of_ne {id : uint256} (h : ∀ o ∈ outs, o.hash ≠ id) (pos : CDiskTxPos)
    (e : CTxIndex) (index : TxIndexTable) :
    setAllSpent pos (index.insert id e) outs = (setAllSpent pos index outs).insert id e := by
  induction outs generalizing index with
  | nil => rfl
  | cons o outs ih =>
    rw [setAllSpent_cons, setAllSpent_cons, setSpent_insert_of_ne (h o mem_cons_self),
      ih fun o' ho' => h o' (mem_cons_of_mem _ ho')]

theorem isSome_spentSlot_setSpent (o o' : COutPoint) (pos : CDiskTxPos) (index : TxIndexTable) :
    (spentSlot (setSpent o pos index) o').isSome = (spentSlot index o').isSome := by
  rw [spentSlot_setSpent]
  split <;> simp

theorem spentSlot_setAllSpent (o' : COutPoint) (pos : CDiskTxPos) (outs : List COutPoint)
    (index : TxIndexTable) :
    spentSlot (setAllSpent pos index outs) o' =
      if o' ∈ outs then (spentSlot index o').map fun _ => pos else spentSlot index o' := by
  induction outs generalizing index with
  | nil => rfl
  | cons o outs ih =>
    rw [setAllSpent_cons, ih, spentSlot_setSpent]
    by_cases hmem : o' ∈ outs <;> by_cases ho : o' = o <;> simp [hmem, ho, Function.comp_def]

theorem lookup_setAllSpent_none {hash : uint256} :
    ∀ {index : TxIndexTable}, index.lookup hash = none →
      (setAllSpent pos index outs).lookup hash = none := by
  induction outs with
  | nil => intro index h; exact h
  | cons o outs ih =>
    intro index h
    apply ih
    rw [lookup_setSpent, h]
    split <;> rfl

theorem nullsCanonical_setAllSpent (hpos : ¬ pos.IsNull) :
    ∀ (outs : List COutPoint) {index : TxIndexTable}, NullsCanonical index →
      NullsCanonical (setAllSpent pos index outs) := by
  intro outs
  induction outs with
  | nil => intro index h; exact h
  | cons o outs ih =>
    intro index h
    apply ih
    intro o' slot hslot hslotNull
    rw [spentSlot_setSpent] at hslot
    split at hslot
    · obtain ⟨slot', -, rfl⟩ := map_eq_some_iff.mp hslot
      exact absurd hslotNull hpos
    · exact h o' slot hslot hslotNull

theorem spendOutput_eq_some :
    spendOutput pos index o = some index' ↔
      (∃ slot, spentSlot index o = some slot ∧ slot.IsNull) ∧ setSpent o pos index = index' := by
  unfold spendOutput
  cases spentSlot index o with
  | none => simp
  | some slot => simp

theorem unspendOutput_eq_some :
    unspendOutput index o = some index' ↔
      (spentSlot index o).isSome ∧ setSpent o null index = index' := by
  rw [unspendOutput, bind_eq_bind, guard_bind_eq_some, Option.pure_def, Option.some.injEq]

/-- Spending a list of distinct outpoints finds all of them unspent and marks them all. -/
theorem foldlM_spendOutput (hnodup : outs.Nodup) :
    ∀ {index index' : TxIndexTable}, outs.foldlM (spendOutput pos) index = some index' →
      (∀ o ∈ outs, ∃ slot, spentSlot index o = some slot ∧ slot.IsNull) ∧
        index' = setAllSpent pos index outs := by
  induction outs with
  | nil =>
    intro index index' h
    cases h
    exact ⟨by simp, rfl⟩
  | cons o outs ih =>
    intro index index' h
    obtain ⟨hnotMem, hnodup'⟩ := nodup_cons.mp hnodup
    obtain ⟨mid, hmid, hrest⟩ := foldlM_cons_eq_some.mp h
    obtain ⟨hslot, rfl⟩ := spendOutput_eq_some.mp hmid
    obtain ⟨hslots, rfl⟩ := ih hnodup' hrest
    refine ⟨fun o' ho' => ?_, rfl⟩
    rcases mem_cons.mp ho' with rfl | ho'
    · exact hslot
    · have hne : o' ≠ o := fun he => hnotMem (he ▸ ho')
      have hs := hslots o' ho'
      rwa [spentSlot_setSpent, if_neg hne] at hs

/-- Taking back the spends of outpoints that have slots clears all these slots. -/
theorem foldlM_unspendOutput :
    ∀ {index : TxIndexTable}, (∀ o ∈ outs, (spentSlot index o).isSome) →
      outs.foldlM unspendOutput index = some (setAllSpent null index outs) := by
  induction outs with
  | nil => intro index _; rfl
  | cons o outs ih =>
    intro index h
    refine foldlM_cons_eq_some.mpr ⟨setSpent o null index, ?_, ih fun o' ho' => ?_⟩
    · exact unspendOutput_eq_some.mpr ⟨h o mem_cons_self, rfl⟩
    · rw [isSome_spentSlot_setSpent]
      exact h o' (mem_cons_of_mem _ ho')

/-- Clearing slots that were marked gives back the index in which they were null. -/
theorem setAllSpent_null_setAllSpent (hnodup : outs.Nodup) :
    ∀ {index : TxIndexTable}, (∀ o ∈ outs, spentSlot index o = some null) →
      setAllSpent null (setAllSpent pos index outs) outs = index := by
  induction outs with
  | nil => intro index _; rfl
  | cons o outs ih =>
    intro index h
    obtain ⟨hnotMem, hnodup'⟩ := nodup_cons.mp hnodup
    calc setAllSpent null (setAllSpent pos index (o :: outs)) (o :: outs)
        = setAllSpent null
            (setAllSpent pos (setSpent o null (setSpent o pos index)) outs) outs := by
          rw [setAllSpent_cons, setAllSpent_cons, setSpent_setAllSpent hnotMem]
      _ = setAllSpent null (setAllSpent pos index outs) outs := by
          rw [setSpent_setSpent, setSpent_of_spentSlot (h o mem_cons_self)]
      _ = index := ih hnodup' fun o' ho' => h o' (mem_cons_of_mem _ ho')

/-! ## Undoing transactions -/

theorem TxEffect.apply_eq_some :
    eff.apply index = some index' ↔
      ∃ mid, eff.spends.foldlM (spendOutput eff.pos) index = some mid ∧
        index' = mid.insert eff.id eff.entry := by
  unfold TxEffect.apply
  simp only [bind_eq_bind, bind_eq_some_iff, Option.pure_def, Option.some.injEq]
  simp [eq_comm]

/-- A transaction adds no entry but its own. -/
theorem TxEffect.lookup_apply_none (hnodup : eff.spends.Nodup) (h : eff.apply index = some index')
    {hash : uint256} (hne : hash ≠ eff.id) (hnone : index.lookup hash = none) :
    index'.lookup hash = none := by
  obtain ⟨mid, hmid, rfl⟩ := TxEffect.apply_eq_some.mp h
  obtain ⟨-, rfl⟩ := foldlM_spendOutput hnodup hmid
  rw [Table.lookup_insert_ite, if_neg hne]
  exact lookup_setAllSpent_none hnone

/-- Null slots stay canonical when the transaction is stored at a position that is not null. -/
theorem TxEffect.nullsCanonical_apply (hnodup : eff.spends.Nodup) (hpos : ¬ eff.pos.IsNull)
    (hnull : NullsCanonical index) (h : eff.apply index = some index') : NullsCanonical index' := by
  obtain ⟨mid, hmid, rfl⟩ := TxEffect.apply_eq_some.mp h
  obtain ⟨-, rfl⟩ := foldlM_spendOutput hnodup hmid
  have hmidNull := nullsCanonical_setAllSpent hpos eff.spends hnull
  intro o slot hslot hslotNull
  rw [spentSlot, Table.lookup_insert_ite] at hslot
  split at hslot
  · have hmem : slot ∈ eff.entry.vSpent := mem_of_getElem? hslot
    exact eq_of_mem_replicate hmem
  · exact hmidNull o slot hslot hslotNull

theorem TxEffect.undo_eq_some :
    eff.undo index = some index' ↔
      ∃ mid, eff.spends.foldlM unspendOutput index = some mid ∧ mid.erase eff.id = index' := by
  unfold TxEffect.undo
  simp [bind_eq_some_iff]

/-- Undoing a transaction whose id is new gives back the index it was applied to. -/
theorem TxEffect.undo_apply (hnodup : eff.spends.Nodup) (hnull : NullsCanonical index)
    (hnew : index.lookup eff.id = none) (h : eff.apply index = some index') :
    eff.undo index' = some index := by
  obtain ⟨mid, hmid, rfl⟩ := TxEffect.apply_eq_some.mp h
  obtain ⟨hslots, rfl⟩ := foldlM_spendOutput hnodup hmid
  have hcanonical : ∀ o ∈ eff.spends, spentSlot index o = some null := by
    intro o ho
    obtain ⟨slot, hslot, hslotNull⟩ := hslots o ho
    rw [hslot, hnull o slot hslot hslotNull]
  -- the transaction has no entry yet, so it does not spend an output of its own
  have hother : ∀ o ∈ eff.spends, o.hash ≠ eff.id := by
    intro o ho he
    have hslot := hcanonical o ho
    rw [spentSlot, he, hnew] at hslot
    contradiction
  have hunspend : eff.spends.foldlM unspendOutput
      ((setAllSpent eff.pos index eff.spends).insert eff.id eff.entry) =
        some (index.insert eff.id eff.entry) := by
    rw [foldlM_unspendOutput, setAllSpent_insert_of_ne hother,
      setAllSpent_null_setAllSpent hnodup hcanonical]
    intro o ho
    have hkeep : ((setAllSpent eff.pos index eff.spends).insert eff.id eff.entry).lookup o.hash =
        (setAllSpent eff.pos index eff.spends).lookup o.hash := by
      rw [Table.lookup_insert_ite, if_neg (hother o ho)]
    have hslot := spentSlot_setAllSpent o eff.pos eff.spends index
    rw [if_pos ho, hcanonical o ho] at hslot
    unfold spentSlot at hslot ⊢
    rw [hkeep, hslot]
    rfl
  rw [TxEffect.undo, hunspend]
  exact congrArg some (Table.erase_insert_of_lookup_none hnew)

/-! ## The ledger

A transaction consumes the outpoints it spends and creates the outpoints of its own outputs. The
index refines this, its live outpoints being those with a null slot. -/

def ledger : Consumption TxEffect COutPoint where
  creates eff o := o.hash = eff.id ∧ o.n < eff.nOutputs
  consumes eff o := o ∈ eff.spends

def liveOutputs (index : TxIndexTable) : Set COutPoint :=
  {o | ∃ slot, spentSlot index o = some slot ∧ slot.IsNull}

theorem liveOutputs_empty : liveOutputs ∅ = ∅ := by
  simp [liveOutputs, spentSlot]

theorem TxEffect.apply_step {index index' : TxIndexTable} {eff : TxEffect}
    (hnodup : eff.spends.Nodup) (hpos : ¬ eff.pos.IsNull) (h : eff.apply index = some index') :
    ledger.Step (liveOutputs index) eff (liveOutputs index') := by
  obtain ⟨mid, hmid, rfl⟩ := TxEffect.apply_eq_some.mp h
  obtain ⟨hslots, rfl⟩ := foldlM_spendOutput hnodup hmid
  refine ⟨hslots, ?_⟩
  rintro o ⟨slot, hslot, hnull⟩
  by_cases hid : o.hash = eff.id
  · left
    refine ⟨hid, ?_⟩
    rw [spentSlot, Table.lookup_insert_ite, if_pos hid] at hslot
    have hlt := (List.getElem?_eq_some_iff.mp hslot).1
    simpa [TxEffect.entry, CTxIndex.ofOutputs] using hlt
  · right
    have hkeep : spentSlot (setAllSpent eff.pos index eff.spends) o = some slot := by
      unfold spentSlot at hslot ⊢
      rwa [Table.lookup_insert_ite, if_neg hid] at hslot
    rw [spentSlot_setAllSpent] at hkeep
    split at hkeep
    · obtain ⟨slot', -, rfl⟩ := Option.map_eq_some_iff.mp hkeep
      exact absurd hnull hpos
    · next hmem => exact ⟨⟨slot, hkeep, hnull⟩, hmem⟩

end Phoenixcoin.Model
