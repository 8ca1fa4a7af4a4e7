import Phoenixcoin.Program.SetBestChain

/-!
# The block index as a tree

The entries of the block index form a forest that grows by height, and the `pnext` links of a
well-formed index lead from the genesis block down to the best block.
-/

set_option autoImplicit false

namespace Phoenixcoin.Model

open Lib Program ChainState Option

/-! ## Entries up to their forward links -/

/-- The same entries under the same hashes, except for their forward links. -/
def SameTree (s s' : ChainState) : Prop :=
  ∀ h, (s'.entry h).map (fun e => { e with pnext := none }) =
    (s.entry h).map (fun e => { e with pnext := none })

section Tree

variable {s s' s'' : ChainState} {h : uint256} {e : CBlockIndex}

theorem SameTree.refl (s : ChainState) : SameTree s s := fun _ => rfl

section

variable (hs : SameTree s s')
include hs

theorem SameTree.trans (hs' : SameTree s' s'') : SameTree s s'' :=
  fun h => (hs' h).trans (hs h)

theorem SameTree.symm : SameTree s' s := fun h => (hs h).symm

theorem SameTree.entry (he : s.entry h = some e) :
    ∃ next, s'.entry h = some { e with pnext := next } := by
  have hmap := hs h
  rw [he] at hmap
  obtain ⟨e', he', heq⟩ := map_eq_some_iff.mp hmap
  have hcore := congrArg (fun x : CBlockIndex => { x with pnext := e'.pnext }) heq
  exact ⟨e'.pnext, he'.trans (congrArg some hcore)⟩

theorem SameTree.entry_none (he : s.entry h = none) : s'.entry h = none := by
  have hmap := hs h
  rw [he] at hmap
  exact map_eq_none_iff.mp hmap

theorem SameTree.pprev : s'.pprev = s.pprev := by
  funext h
  unfold ChainState.pprev
  cases he : s.entry h with
  | none => rw [hs.entry_none he]
  | some e =>
    obtain ⟨next, he'⟩ := hs.entry he
    rw [he']
    rfl

theorem SameTree.bnChainWork : s'.bnChainWork = s.bnChainWork := by
  funext h
  unfold ChainState.bnChainWork
  cases he : s.entry h with
  | none => rw [hs.entry_none he]
  | some e =>
    obtain ⟨next, he'⟩ := hs.entry he
    rw [he']
    rfl

end

/-! ## Assignments to forward links -/

theorem entry_setPnext (s : ChainState) (a : uint256) (next : Option uint256) (h : uint256) :
    (s.setPnext a next).entry h =
      if h = a then (s.entry a).map fun e => { e with pnext := next } else s.entry h := by
  unfold setPnext
  cases ha : s.entry a with
  | none =>
    dsimp only
    split
    · next heq => rw [heq, ha, map_none]
    · rfl
  | some e =>
    rw [entry, Table.lookup_insert_ite]
    rfl

theorem sameTree_setPnext (s : ChainState) (a : uint256) (next : Option uint256) :
    SameTree s (s.setPnext a next) := by
  intro h
  rw [entry_setPnext]
  split
  · next heq => rw [heq, Option.map_map]; rfl
  · rfl

theorem pnext_setPnext {a : uint256} (ha : s.entry a = some e) (next : Option uint256) :
    (s.setPnext a next).pnext = fun h => if h = a then next else s.pnext h := by
  funext h
  rw [pnext, entry_setPnext, ha]
  split <;> rfl

theorem setPnext_rest (s : ChainState) (a : uint256) (next : Option uint256) :
    ∃ table, s.setPnext a next = { s with mapBlockIndex := table } := by
  unfold setPnext
  split
  · exact ⟨_, rfl⟩
  · exact ⟨_, rfl⟩

theorem unlink_eq {p : uint256} (hp : s.pprev h = some p) : s.unlink h = s.setPnext p none := by
  rw [unlink, hp]

theorem link_eq {p : uint256} (hp : s.pprev h = some p) : s.link h = s.setPnext p (some h) := by
  rw [link, hp]

theorem sameTree_unlink (s : ChainState) (h : uint256) : SameTree s (s.unlink h) := by
  unfold unlink
  split
  · exact sameTree_setPnext s _ _
  · exact .refl s

theorem sameTree_link (s : ChainState) (h : uint256) : SameTree s (s.link h) := by
  unfold link
  split
  · exact sameTree_setPnext s _ _
  · exact .refl s

/-! ## Well-formed trees -/

/-- Every entry knows its hash and lies one above its parent, which is in the index. -/
structure TreeOk (s : ChainState) : Prop where
  key : ∀ h e, s.entry h = some e → e.phashBlock = some h
  parent : ∀ h e p, s.entry h = some e → e.pprev = some p →
    ∃ pe, s.entry p = some pe ∧ e.nHeight = pe.nHeight + 1
  root : ∀ h e, s.entry h = some e → e.pprev = none → e.nHeight = 0

theorem pprev_eq_some {p : uint256} :
    s.pprev h = some p ↔ ∃ e, s.entry h = some e ∧ e.pprev = some p :=
  bind_eq_some_iff

section

variable (hs : TreeOk s)
include hs

theorem TreeOk.graded : Graded s.pprev s.nHeight := by
  intro a b hab
  obtain ⟨e, he, hp⟩ := pprev_eq_some.mp hab
  obtain ⟨pe, hpe, hheight⟩ := hs.parent a e b he hp
  unfold nHeight
  rw [he, hpe]
  exact hheight

theorem TreeOk.pprev_entry {p : uint256} (hp : s.pprev h = some p) : ∃ pe, s.entry p = some pe := by
  obtain ⟨e, he, hp⟩ := pprev_eq_some.mp hp
  obtain ⟨pe, hpe, -⟩ := hs.parent h e p he hp
  exact ⟨pe, hpe⟩

theorem TreeOk.pprev_ne_fresh (hfresh : s.entry h = none) (a : uint256) : s.pprev a ≠ some h := by
  intro ha
  obtain ⟨pe, hpe⟩ := hs.pprev_entry ha
  cases hfresh.symm.trans hpe

theorem TreeOk.of_sameTree (hsame : SameTree s s') : TreeOk s' := by
  constructor
  · intro h e he
    obtain ⟨next, he'⟩ := hsame.symm.entry he
    have hkey := hs.key h _ he'
    exact hkey
  · intro h e p he hp
    obtain ⟨next, he'⟩ := hsame.symm.entry he
    obtain ⟨pe, hpe, hheight⟩ := hs.parent h _ p he' hp
    obtain ⟨next', hpe'⟩ := hsame.entry hpe
    exact ⟨_, hpe', hheight⟩
  · intro h e he hp
    obtain ⟨next, he'⟩ := hsame.symm.entry he
    have hroot := hs.root h _ he' hp
    exact hroot

/-- Heights are smaller than the number of entries, which bounds every loop over pointers. -/
theorem TreeOk.nHeight_lt_size (he : s.entry h = some e) : s.nHeight h < s.size := by
  have hmem : ∀ a, a ∈ s.mapBlockIndex.keys ↔ ∃ e, s.entry a = some e := fun a =>
    Finmap.mem_keys.trans Finmap.mem_iff
  refine rank_lt_card hs.graded (fun a _ p hp => (hmem p).mpr (hs.pprev_entry hp))
    (fun a ha hp => ?_) ((hmem h).mpr ⟨e, he⟩)
  obtain ⟨ea, hea⟩ := (hmem a).mp ha
  have hroot : ea.pprev = none := by
    rwa [pprev, hea] at hp
  rw [nHeight, hea]
  exact hs.root a ea hea hroot

/-- Every entry lies above some root. -/
theorem TreeOk.exists_root (he : s.entry h = some e) :
    ∃ r, Above s.pprev h r ∧ s.pprev r = none := by
  induction hn : s.nHeight h generalizing h e with
  | zero =>
    refine ⟨h, .refl, ?_⟩
    cases hp : s.pprev h with
    | none => rfl
    | some p =>
      have := hs.graded h p hp
      omega
  | succ n ih =>
    cases hp : s.pprev h with
    | none => exact ⟨h, .refl, hp⟩
    | some p =>
      obtain ⟨pe, hpe⟩ := hs.pprev_entry hp
      have hheight := hs.graded h p hp
      obtain ⟨r, hr, hroot⟩ := ih hpe (by omega)
      exact ⟨r, .head hp hr, hroot⟩

end

end Tree

end Phoenixcoin.Model
