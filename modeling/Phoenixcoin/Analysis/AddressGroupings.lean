import Phoenixcoin.Analysis.AccountBalances
import Phoenixcoin.Lib.Overlaps
import Phoenixcoin.Program.AddressGroupings

/-!
# The groups of addresses are the components of what was collected

Each round of the merging loop makes one set of the new grouping and of the sets that it hits, so
the sets behind the pointers are the components of the groupings so far. A transaction that spends
an output without an address, and has no change with one, collects the empty grouping, which no
later round removes.
-/

set_option autoImplicit false

namespace Phoenixcoin.Analysis

open Lib Program List GroupingMerge

/-! ## One round -/

section Round

variable {m : GroupingMerge} {groups : Set (Finset CTxDestination)}
  {grouping : Finset CTxDestination}

/-- The sets behind the pointers in `uniqueGroupings`. -/
def mergedParts (m : GroupingMerge) : Set (Finset CTxDestination) :=
  {s | ∃ pointer ∈ m.uniqueGroupings, m.deref pointer = s}

/-- What holds between the rounds of the merging loop. -/
structure Merged (groups : Set (Finset CTxDestination)) (m : GroupingMerge) : Prop where
  alive : ∀ pointer ∈ m.uniqueGroupings, (m.heap pointer).isSome
  allocated : ∀ pointer ∈ m.uniqueGroupings, pointer < m.allocated
  setmap : ∀ address pointer, m.setmap address = some pointer ↔
    pointer ∈ m.uniqueGroupings ∧ address ∈ m.deref pointer
  components : Components groups (mergedParts m)
  empty : ∅ ∈ mergedParts m ↔ ∅ ∈ groups

theorem merged_empty : Merged ∅ .empty where
  alive pointer h := absurd h (Finset.notMem_empty pointer)
  allocated pointer h := absurd h (Finset.notMem_empty pointer)
  setmap address pointer := by simp [empty]
  components := by
    have hparts : mergedParts .empty = ∅ := by
      simp [mergedParts, empty]
    rw [hparts]
    exact Components.empty
  empty := by simp [mergedParts, empty]

theorem Merged.mem_hits (hm : Merged groups m) {pointer : ℕ} :
    pointer ∈ m.hits grouping ↔
      pointer ∈ m.uniqueGroupings ∧ ∃ address ∈ m.deref pointer, address ∈ grouping := by
  unfold hits
  simp only [Finset.mem_biUnion, Option.mem_toFinset, Option.mem_def, hm.setmap]
  constructor
  · rintro ⟨address, hgrouping, hpointer, haddress⟩
    exact ⟨hpointer, address, haddress, hgrouping⟩
  · rintro ⟨hpointer, address, haddress, hgrouping⟩
    exact ⟨address, hgrouping, hpointer, haddress⟩

theorem deref_allocated :
    (m.mergeGrouping grouping).deref m.allocated =
      grouping ∪ (m.hits grouping).biUnion m.deref := by
  simp [deref, mergeGrouping]

theorem Merged.deref_kept (hm : Merged groups m) {pointer : ℕ}
    (hpointer : pointer ∈ m.uniqueGroupings) (hkept : pointer ∉ m.hits grouping) :
    (m.mergeGrouping grouping).heap pointer = m.heap pointer := by
  have hne := (hm.allocated pointer hpointer).ne
  simp [mergeGrouping, hne, hkept]

theorem mem_uniqueGroupings {pointer : ℕ} :
    pointer ∈ (m.mergeGrouping grouping).uniqueGroupings ↔
      pointer = m.allocated ∨ pointer ∈ m.uniqueGroupings ∧ pointer ∉ m.hits grouping := by
  simp [mergeGrouping]

theorem Merged.merges (hm : Merged groups m) :
    Merges grouping (grouping ∪ (m.hits grouping).biUnion m.deref) (mergedParts m)
      (mergedParts (m.mergeGrouping grouping)) where
  mem_merged address := by
    rw [Finset.mem_union, Finset.mem_biUnion]
    apply or_congr Iff.rfl
    constructor
    · rintro ⟨pointer, hhit, haddress⟩
      obtain ⟨hpointer, hshared⟩ := hm.mem_hits.mp hhit
      exact ⟨m.deref pointer, ⟨pointer, hpointer, rfl⟩, hshared, haddress⟩
    · rintro ⟨_, ⟨pointer, hpointer, rfl⟩, hshared, haddress⟩
      exact ⟨pointer, hm.mem_hits.mpr ⟨hpointer, hshared⟩, haddress⟩
  mem_parts s := by
    constructor
    · rintro ⟨pointer, hpointer, rfl⟩
      rcases mem_uniqueGroupings.mp hpointer with rfl | ⟨hunique, hkept⟩
      · exact Or.inl deref_allocated
      · right
        rw [deref, hm.deref_kept hunique hkept]
        refine ⟨⟨pointer, hunique, rfl⟩, ?_⟩
        intro address haddress hgrouping
        exact hkept (hm.mem_hits.mpr ⟨hunique, address, haddress, hgrouping⟩)
    · rintro (rfl | ⟨⟨pointer, hunique, rfl⟩, hapart⟩)
      · exact ⟨m.allocated, mem_uniqueGroupings.mpr (Or.inl rfl), deref_allocated⟩
      · have hkept : pointer ∉ m.hits grouping := by
          intro hhit
          obtain ⟨-, address, haddress, hgrouping⟩ := hm.mem_hits.mp hhit
          exact hapart address haddress hgrouping
        refine ⟨pointer, mem_uniqueGroupings.mpr (Or.inr ⟨hunique, hkept⟩), ?_⟩
        rw [deref, hm.deref_kept hunique hkept, deref]

theorem Merged.mergeGrouping (hm : Merged groups m) (grouping : Finset CTxDestination) :
    Merged (insert grouping groups) (m.mergeGrouping grouping) where
  alive pointer hpointer := by
    rcases mem_uniqueGroupings.mp hpointer with rfl | ⟨hunique, hkept⟩
    · simp [GroupingMerge.mergeGrouping]
    · rw [hm.deref_kept hunique hkept]
      exact hm.alive pointer hunique
  allocated pointer hpointer := by
    have hsucc : (m.mergeGrouping grouping).allocated = m.allocated + 1 := rfl
    rcases mem_uniqueGroupings.mp hpointer with rfl | ⟨hunique, -⟩
    · omega
    · have hlt := hm.allocated pointer hunique
      omega
  setmap address pointer := by
    have hmerges := @Merged.merges _ _ grouping hm
    generalize hmerged : grouping ∪ (m.hits grouping).biUnion m.deref = merged at hmerges
    have hset : (m.mergeGrouping grouping).setmap address =
        if address ∈ merged then some m.allocated else m.setmap address := by
      rw [← hmerged]
      rfl
    rw [hset, mem_uniqueGroupings]
    split
    · next hin =>
      constructor
      · intro h
        obtain rfl := Option.some.inj h
        exact ⟨Or.inl rfl, by rw [deref_allocated, hmerged]; exact hin⟩
      · rintro ⟨rfl | ⟨hunique, hkept⟩, haddress⟩
        · rfl
        · rw [GroupingMerge.deref, hm.deref_kept hunique hkept] at haddress
          refine absurd hin (hmerges.notMem_of_kept hm.components ⟨pointer, hunique, rfl⟩ ?_
            haddress)
          intro other hother hgrouping
          exact hkept (hm.mem_hits.mpr ⟨hunique, other, hother, hgrouping⟩)
    · next hout =>
      rw [hm.setmap]
      constructor
      · rintro ⟨hunique, haddress⟩
        have hkept : pointer ∉ m.hits grouping := by
          intro hhit
          apply hout
          rw [← hmerged]
          exact Finset.mem_union_right _ (Finset.mem_biUnion.mpr ⟨pointer, hhit, haddress⟩)
        refine ⟨Or.inr ⟨hunique, hkept⟩, ?_⟩
        rw [GroupingMerge.deref, hm.deref_kept hunique hkept]
        exact haddress
      · rintro ⟨rfl | ⟨hunique, hkept⟩, haddress⟩
        · rw [deref_allocated, hmerged] at haddress
          exact absurd haddress hout
        · rw [GroupingMerge.deref, hm.deref_kept hunique hkept] at haddress
          exact ⟨hunique, haddress⟩
  components := hm.components.merge hm.merges
  empty := by
    have hmerges := @Merged.merges _ _ grouping hm
    rw [hmerges.mem_parts]
    constructor
    · rintro (hmerged | ⟨hparts, -⟩)
      · left
        exact (Finset.union_eq_empty.mp hmerged.symm).1.symm
      · exact Or.inr (hm.empty.mp hparts)
    · rintro (rfl | hgroups)
      · simp [GroupingMerge.hits]
      · exact Or.inr ⟨hm.empty.mpr hgroups, by simp⟩

end Round

/-! ## The whole loop -/

theorem Merged.foldl {m : GroupingMerge} {groups : Set (Finset CTxDestination)}
    (hm : Merged groups m) (order : List (Finset CTxDestination)) :
    Merged ({grouping | grouping ∈ order} ∪ groups)
      (order.foldl GroupingMerge.mergeGrouping m) := by
  induction order generalizing m groups with
  | nil => simpa using hm
  | cons grouping order ih =>
    have hnext := ih (hm.mergeGrouping grouping)
    have hgroups : {g | g ∈ grouping :: order} ∪ groups =
        {g | g ∈ order} ∪ insert grouping groups := by
      ext g
      simp only [Set.mem_union, Set.mem_ofPred_eq, mem_cons, Set.mem_insert_iff]
      tauto
    rw [hgroups]
    exact hnext

theorem mem_inSetOrder {groupings : List (Finset CTxDestination)}
    {grouping : Finset CTxDestination} :
    grouping ∈ inSetOrder groupings ↔ grouping ∈ groupings := by
  rw [inSetOrder, mem_mergeSort, mem_dedup]

variable (E : AccountEnv) (w : AccountWallet)

def collected : Set (Finset CTxDestination) := {grouping | grouping ∈ w.collectGroupings E}

theorem mem_GetAddressGroupings :
    ∃ m, Merged (collected E w) m ∧ ∀ s, s ∈ w.GetAddressGroupings E ↔ s ∈ mergedParts m := by
  have hmerged := merged_empty.foldl (inSetOrder (w.collectGroupings E))
  have hgroups : {grouping | grouping ∈ inSetOrder (w.collectGroupings E)} ∪ ∅ =
      collected E w := by
    simp [collected, mem_inSetOrder]
  rw [hgroups] at hmerged
  refine ⟨_, hmerged, ?_⟩
  intro s
  exact Finset.mem_image

structure PartitionOf (groups : Set (Finset CTxDestination))
    (ret : Finset (Finset CTxDestination)) : Prop where
  nonempty : ∀ s ∈ ret, s.Nonempty
  disjoint : ∀ s ∈ ret, ∀ t ∈ ret, s ≠ t → Disjoint s t
  components : ∀ a b, (∃ s ∈ ret, a ∈ s ∧ b ∈ s) ↔ Chained groups a b

theorem empty_mem_collected :
    ∅ ∈ collected E w ↔ ∃ wtx ∈ w.transactions, wtx.vin.head?.any (w.isMineInput E) = true ∧
      w.inputAddresses E wtx = [] ∧ w.changeAddresses E wtx = [] := by
  unfold collected AccountWallet.collectGroupings AccountWallet.groupingsOf
  rw [Set.mem_ofPred_eq, mem_flatMap]
  apply exists_congr
  intro wtx
  apply and_congr Iff.rfl
  rw [mem_append]
  constructor
  · rintro (h | h)
    · split at h
      · next hmine =>
        have hnil := toFinset_eq_empty_iff _ |>.mp (mem_singleton.mp h).symm
        exact ⟨hmine, append_eq_nil_iff.mp hnil⟩
      · cases h
    · obtain ⟨address, -, haddress⟩ := List.mem_map.mp h
      exact absurd haddress (Finset.singleton_ne_empty address)
  · rintro ⟨hmine, hinputs, hchange⟩
    rw [if_pos hmine, hinputs, hchange]
    simp

theorem empty_mem_GetAddressGroupings :
    ∅ ∈ w.GetAddressGroupings E ↔ ∃ wtx ∈ w.transactions,
      wtx.vin.head?.any (w.isMineInput E) = true ∧
        w.inputAddresses E wtx = [] ∧ w.changeAddresses E wtx = [] := by
  obtain ⟨m, hm, hret⟩ := mem_GetAddressGroupings E w
  rw [hret, hm.empty, empty_mem_collected]

/-- The groups are the partition into components just when every transaction whose first input is
mine has an address among its inputs or its change. -/
theorem GetAddressGroupings_partition_iff :
    PartitionOf (collected E w) (w.GetAddressGroupings E) ↔
      ∀ wtx ∈ w.transactions, wtx.vin.head?.any (w.isMineInput E) = true →
        w.inputAddresses E wtx ≠ [] ∨ w.changeAddresses E wtx ≠ [] := by
  obtain ⟨m, hm, hret⟩ := mem_GetAddressGroupings E w
  constructor
  · intro hpartition wtx hwtx hmine
    by_contra hnone
    obtain ⟨hinputs, hchange⟩ := not_or.mp hnone
    have hmem := (empty_mem_GetAddressGroupings E w).mpr
      ⟨wtx, hwtx, hmine, not_not.mp hinputs, not_not.mp hchange⟩
    exact Finset.not_nonempty_empty (hpartition.nonempty ∅ hmem)
  · intro haddress
    constructor
    · intro s hs
      rw [Finset.nonempty_iff_ne_empty]
      rintro rfl
      obtain ⟨wtx, hwtx, hmine, hinputs, hchange⟩ :=
        (empty_mem_GetAddressGroupings E w).mp hs
      rcases haddress wtx hwtx hmine with hne | hne
      · exact hne hinputs
      · exact hne hchange
    · intro s hs t ht hne
      rw [Finset.disjoint_left]
      intro a has hat
      exact hne (hm.components.disjoint s ((hret s).mp hs) t ((hret t).mp ht) a has hat)
    · intro a b
      rw [← hm.components.together]
      unfold Together
      simp [hret]

/-! ## A wallet that spends a multisig output -/

def multisigPubKey : CPubKey := 2 :: List.replicate 32 1

def oneOfOne : CScript := [OP_1] ++ pushData multisigPubKey ++ [OP_1, OP_CHECKMULTISIG]

def multisigStore : CKeyStore where
  fUseCrypto := false
  vMasterKey := []
  mapKeys := Finmap.singleton (exampleCrypto.GetID multisigPubKey) (List.replicate 32 1, true)
  mapCryptedKeys := ∅
  mapScripts := ∅
  setWatchOnly := ∅
  mapHybridKeys := ∅
  mapHybridKeyDisk := ∅

def multisigEnv : AccountEnv where
  digests := exampleCrypto.toDigests
  isMine scriptPubKey :=
    (multisigStore.IsMine exampleCrypto scriptPubKey).any (· ≠ .MINE_NO)
  mainChain _ := none
  nBestHeight := 50
  nAdjustedTime := 1500000000

/-- A transaction that spends an output of another and pays to a script. -/
def multisigPayment (hash : uint256) (scriptPubKey : CScript) : AccountTx :=
  { CWalletTx.null with
    vin := [⟨⟨hash, 0⟩, [], 0⟩]
    vout := [⟨5, scriptPubKey⟩]
    vfChange := []
    fMerkleVerified := false
    nDebitCached := none }

/-- The wallet receives a multisig output and pays it to someone else. -/
def multisigWallet : AccountWallet where
  mapWallet := (Finmap.singleton 1 (multisigPayment 7 oneOfOne)).insert 2
    (multisigPayment 1 (SetDestination (some (.key 9))))
  mapAddressBook := ∅
  acentries := (walletPaidUntil 0).acentries

theorem multisigWallet_empty_group : ¬PartitionOf (collected multisigEnv multisigWallet)
      (multisigWallet.GetAddressGroupings multisigEnv) := by
  intro hpartition
  have hcollects : ∃ wtx ∈ multisigWallet.transactions,
      wtx.vin.head?.any (multisigWallet.isMineInput multisigEnv) = true ∧
        multisigWallet.inputAddresses multisigEnv wtx = [] ∧
        multisigWallet.changeAddresses multisigEnv wtx = [] := by
    decide
  have hmem := (empty_mem_GetAddressGroupings multisigEnv multisigWallet).mpr hcollects
  exact Finset.not_nonempty_empty (hpartition.nonempty ∅ hmem)

end Phoenixcoin.Analysis
