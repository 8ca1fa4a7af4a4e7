import Phoenixcoin.Analysis.IndexRecords

/-!
# Restarting a node

`LoadBlockIndex` gives back the block index that the node had in memory: the records are those
of the entries, the chain work is computed from the genesis block upwards, and the check of the
last blocks finds nothing as long as the clock does not go back.
-/

set_option autoImplicit false

namespace Phoenixcoin.Analysis

open Lib Program Model ChainState List Option Finmap

/-! ## Reading the records -/

/-- The entries know their hashes, which are not 0, and their links lead to entries. -/
structure Loadable (s : ChainState) : Prop where
  nonzero : ∀ h e, s.entry h = some e → h ≠ 0
  key : ∀ h e, s.entry h = some e → e.phashBlock = some h
  pprev : ∀ h e p, s.entry h = some e → e.pprev = some p → ∃ pe, s.entry p = some pe
  pnext : ∀ h e q, s.entry h = some e → e.pnext = some q → ∃ qe, s.entry q = some qe

/-- The state after the records of `done`: their entries lack the chain work only, and links
may have created others. -/
structure Loading (env : NodeEnv) (s₀ : ChainState) (done : List uint256) (s : ChainState) :
    Prop where
  known : ∀ h ∈ done, ∃ e, s₀.entry h = some e
  loaded : ∀ h ∈ done, s.entry h = (s₀.entry h).map fun e => { e with bnChainWork := 0 }
  others : ∀ h, h ∉ done → s.entry h = none ∨
    s.entry h = some (CBlockIndex.new h) ∧ ∃ e, s₀.entry h = some e
  genesis : s.pindexGenesisBlock =
    if env.hashGenesisBlock ∈ done then some env.hashGenesisBlock else none
  rest : s = { initial with
    mapBlockIndex := s.mapBlockIndex
    pindexGenesisBlock := s.pindexGenesisBlock }

section Records

variable {env : NodeEnv} {s₀ s : ChainState} {done : List uint256} {h : uint256} {e : CBlockIndex}

/-- `InsertBlockIndex` for the hash that a record has for a link. -/
theorem insertBlockIndex_link {link : Option uint256} (hlink : ∀ p, link = some p → p ≠ 0)
    (t : Table uint256 CBlockIndex) :
    (insertBlockIndex (link.getD 0) t).1 = link ∧
      ∀ a, (insertBlockIndex (link.getD 0) t).2.lookup a =
        (t.lookup a).or (if link = some a then some (CBlockIndex.new a) else none) := by
  unfold insertBlockIndex
  cases link with
  | none =>
    rw [getD_none]
    exact ⟨rfl, fun a => by simp⟩
  | some p =>
    rw [getD_some, if_neg (hlink p rfl)]
    split
    · next hmem =>
      refine ⟨rfl, fun a => ?_⟩
      obtain ⟨pe, hpe⟩ := mem_iff.mp hmem
      split
      · next heq =>
        cases heq
        rw [hpe, some_or]
      · rw [or_none]
    · next hmem =>
      refine ⟨rfl, fun a => ?_⟩
      rw [Table.lookup_insert_ite]
      split
      · next heq =>
        subst heq
        rw [lookup_eq_none.mpr hmem, if_pos rfl, none_or]
      · next hne =>
        rw [if_neg fun heq => hne (Option.some.inj heq).symm, or_none]

theorem Loading.entry_key (hs₀ : Loadable s₀) (hs : Loading env s₀ done s) {x : CBlockIndex}
    (hx : s.entry h = some x) : x.phashBlock = some h ∧ x.bnChainWork = 0 := by
  by_cases hdone : h ∈ done
  · rw [hs.loaded h hdone] at hx
    obtain ⟨e, he, rfl⟩ := map_eq_some_iff.mp hx
    exact ⟨hs₀.key h e he, rfl⟩
  · rcases hs.others h hdone with hnone | ⟨hnew, -⟩
    · cases hnone.symm.trans hx
    · cases hnew.symm.trans hx
      exact ⟨rfl, rfl⟩

/-- The entries after the three calls of `InsertBlockIndex` for one record. -/
theorem insertBlockIndex_links (hs₀ : Loadable s₀) (he : s₀.entry h = some e)
    (t : Table uint256 CBlockIndex) :
    ∃ t1 t2 t3, insertBlockIndex h t = (some h, t1) ∧
      insertBlockIndex (e.pprev.getD 0) t1 = (e.pprev, t2) ∧
      insertBlockIndex (e.pnext.getD 0) t2 = (e.pnext, t3) ∧
      ∀ a, t3.lookup a = (t.lookup a).or
        (if a = h ∨ e.pprev = some a ∨ e.pnext = some a then some (CBlockIndex.new a)
        else none) := by
  obtain ⟨hself, hlookup1⟩ := @insertBlockIndex_link (some h)
    (fun p hp => Option.some.inj hp ▸ hs₀.nonzero h e he) t
  obtain ⟨hprev, hlookup2⟩ := @insertBlockIndex_link e.pprev (fun p hp => by
    obtain ⟨pe, hpe⟩ := hs₀.pprev h e p he hp
    exact hs₀.nonzero p pe hpe) (insertBlockIndex h t).2
  obtain ⟨hnext, hlookup3⟩ := @insertBlockIndex_link e.pnext (fun q hq => by
    obtain ⟨qe, hqe⟩ := hs₀.pnext h e q he hq
    exact hs₀.nonzero q qe hqe) (insertBlockIndex (e.pprev.getD 0) (insertBlockIndex h t).2).2
  refine ⟨_, _, _, Prod.ext hself rfl, Prod.ext hprev rfl, Prod.ext hnext rfl, fun a => ?_⟩
  rw [hlookup3, hlookup2]
  change (((insertBlockIndex ((some h).getD 0) t).2.lookup a).or _).or _ = _
  rw [hlookup1]
  by_cases hh : a = h
  · subst hh
    cases t.lookup a <;> simp
  · have hh' : ¬ some h = some a := fun heq => hh (Option.some.inj heq).symm
    simp only [if_neg hh', or_none, hh, false_or]
    by_cases hp : e.pprev = some a
    · cases t.lookup a <;> simp [hp]
    · simp [hp]

theorem loadBlockIndexRecord_loading (hs₀ : Loadable s₀) (hs : Loading env s₀ done s)
    (he : s₀.entry h = some e) :
    ∃ s', loadBlockIndexRecord env.hashGenesisBlock s (h, CDiskBlockIndex.ofBlockIndex e) =
        some s' ∧ Loading env s₀ (h :: done) s' := by
  obtain ⟨t1, t2, t3, h1, h2, h3, hlookup⟩ := insertBlockIndex_links hs₀ he s.mapBlockIndex
  change ∀ a, t3.lookup a = (s.entry a).or _ at hlookup
  -- the entry that the record is written to is there already or has just been created
  obtain ⟨x, hx, hkey, hzero⟩ :
      ∃ x, t3.lookup h = some x ∧ x.phashBlock = some h ∧ x.bnChainWork = 0 := by
    rw [hlookup h, if_pos (.inl rfl)]
    cases hx : s.entry h with
    | none => exact ⟨_, rfl, rfl, rfl⟩
    | some x => exact ⟨x, rfl, hs.entry_key hs₀ hx⟩
  have hentry : ({ x with
      pprev := e.pprev
      pnext := e.pnext
      nFile := e.nFile
      nBlockPos := e.nBlockPos
      nHeight := e.nHeight
      nVersion := e.nVersion
      hashMerkleRoot := e.hashMerkleRoot
      nTime := e.nTime
      nBits := e.nBits
      nNonce := e.nNonce } : CBlockIndex) = { e with bnChainWork := 0 } := by
    rw [hkey, hzero, ← hs₀.key h e he]
  refine ⟨{ s with
    mapBlockIndex := t3.insert h { e with bnChainWork := 0 }
    pindexGenesisBlock :=
      if s.pindexGenesisBlock = none ∧ h = env.hashGenesisBlock then some h
      else s.pindexGenesisBlock }, ?_, ?_⟩
  · unfold loadBlockIndexRecord
    simp only [CDiskBlockIndex.ofBlockIndex, h1, h2, h3, hx, hentry, bind_eq_bind,
      bind_some, Option.pure_def]
  · have hnew : ∀ a, ({ s with
        mapBlockIndex := t3.insert h { e with bnChainWork := 0 }
        pindexGenesisBlock :=
          if s.pindexGenesisBlock = none ∧ h = env.hashGenesisBlock then some h
          else s.pindexGenesisBlock } : ChainState).entry a =
        if a = h then some { e with bnChainWork := 0 } else t3.lookup a :=
      fun a => Table.lookup_insert_ite a h _ t3
    refine ⟨fun a ha => ?_, fun a ha => ?_, fun a ha => ?_, ?_, ?_⟩
    · rcases mem_cons.mp ha with rfl | ha
      · exact ⟨e, he⟩
      · exact hs.known a ha
    · rw [hnew a]
      split
      · next heq => rw [heq, he, map_some]
      · next hne =>
        have hdone := (mem_cons.mp ha).resolve_left hne
        obtain ⟨ae, hae⟩ := hs.known a hdone
        rw [hlookup a, hs.loaded a hdone, hae, map_some, some_or]
    · rw [mem_cons, not_or] at ha
      rw [hnew a, if_neg ha.1, hlookup a]
      rcases hs.others a ha.2 with hnone | ⟨hsome, hknown⟩
      · rw [hnone]
        split
        · next hlink =>
          refine .inr ⟨rfl, ?_⟩
          rcases hlink with heq | hp | hq
          · exact absurd heq ha.1
          · exact hs₀.pprev h e a he hp
          · exact hs₀.pnext h e a he hq
        · exact .inl rfl
      · rw [hsome]
        exact .inr ⟨rfl, hknown⟩
    · rw [hs.genesis]
      by_cases hgenesis : env.hashGenesisBlock ∈ done
      · simp [hgenesis]
      · by_cases hh : h = env.hashGenesisBlock
        · simp [hgenesis, hh]
        · simp [hgenesis, hh, Ne.symm hh]
    · rw [hs.rest]

/-- All records, in any order. -/
theorem loadBlockIndexGuts_loading {t : Table uint256 CDiskBlockIndex} {order : List uint256}
    (hs₀ : Loadable s₀) (ht : Recorded s₀ t) (horder : ∀ h ∈ order, h ∈ t)
    (hs : Loading env s₀ done s) :
    ∃ s', loadBlockIndexGuts env.hashGenesisBlock t order s = some s' ∧
      ∃ done', (∀ h, h ∈ done' ↔ h ∈ order ∨ h ∈ done) ∧ Loading env s₀ done' s' := by
  induction order generalizing s done with
  | nil => exact ⟨s, rfl, done, fun h => by simp, hs⟩
  | cons h order ih =>
    obtain ⟨d, hd⟩ := mem_iff.mp (horder h mem_cons_self)
    obtain ⟨e, he, rfl⟩ := map_eq_some_iff.mp ((ht h).symm.trans hd)
    obtain ⟨s1, hrecord, hs1⟩ := loadBlockIndexRecord_loading hs₀ hs he
    obtain ⟨s', hguts, done', hdone', hs'⟩ :=
      ih (fun a ha => horder a (mem_cons_of_mem _ ha)) hs1
    refine ⟨s', ?_, done', fun a => ?_, hs'⟩
    · unfold loadBlockIndexGuts at hguts ⊢
      rw [foldlM_cons, hd, bind_some, hrecord]
      exact hguts
    · rw [hdone' a, mem_cons, mem_cons]
      tauto

theorem loadBlockIndexGuts_entry {t : Table uint256 CDiskBlockIndex} {order : List uint256}
    (hs₀ : Loadable s₀) (ht : Recorded s₀ t) (horder : ∀ h, h ∈ order ↔ h ∈ t) :
    ∃ s', loadBlockIndexGuts env.hashGenesisBlock t order initial = some s' ∧
      (∀ h, s'.entry h = (s₀.entry h).map fun e => { e with bnChainWork := 0 }) ∧
      s'.pindexGenesisBlock =
        (s₀.entry env.hashGenesisBlock).map (fun _ => env.hashGenesisBlock) ∧
      s' = { initial with
        mapBlockIndex := s'.mapBlockIndex
        pindexGenesisBlock := s'.pindexGenesisBlock } := by
  have hempty : Loading env s₀ [] initial :=
    ⟨nofun, nofun, fun h _ => .inl (lookup_empty h), rfl, rfl⟩
  obtain ⟨s', hguts, done, hdone, hs'⟩ :=
    loadBlockIndexGuts_loading hs₀ ht (fun h => (horder h).mp) hempty
  have hmem : ∀ h, h ∈ done ↔ ∃ e, s₀.entry h = some e := by
    intro h
    rw [hdone h, horder h, mem_iff, ht h]
    simp [map_eq_some_iff]
  refine ⟨s', hguts, fun h => ?_, ?_, hs'.rest⟩
  · by_cases hh : h ∈ done
    · exact hs'.loaded h hh
    · have hnone : s₀.entry h = none := by
        rw [eq_none_iff_forall_ne_some]
        exact fun e he => hh ((hmem h).mpr ⟨e, he⟩)
      rcases hs'.others h hh with habsent | ⟨-, e, he⟩
      · rw [habsent, hnone, map_none]
      · cases hnone.symm.trans he
  · rw [hs'.genesis]
    split
    · next hh =>
      obtain ⟨e, he⟩ := (hmem _).mp hh
      rw [he, map_some]
    · next hh =>
      cases he : s₀.entry env.hashGenesisBlock with
      | none => rfl
      | some e => exact absurd ((hmem _).mpr ⟨e, he⟩) hh

end Records

/-! ## The chain work -/

/-- The entries are those of `s₀`, and those of `done` have their chain work too. -/
def WorkDone (s₀ : ChainState) (done : List uint256) (s : ChainState) : Prop :=
  ∀ h, s.entry h = (s₀.entry h).map fun e =>
    { e with bnChainWork := if h ∈ done then e.bnChainWork else 0 }

section Work

variable {s₀ s : ChainState} {done : List uint256} {h : uint256}

/-- The work of an entry whose parent is done. -/
theorem computeChainWork_done {e : CBlockIndex} (hs : WorkDone s₀ done s) (he : s₀.entry h = some e)
    (hwork : e.bnChainWork = e.pprev.elim 0 s₀.bnChainWork + getBlockWork e.nBits)
    (hparent : ∀ p, e.pprev = some p → p ∈ done) :
    WorkDone s₀ (h :: done) (computeChainWork s h) := by
  have hsum : e.pprev.elim 0 s.bnChainWork + getBlockWork e.nBits = e.bnChainWork := by
    rw [hwork]
    cases hp : e.pprev with
    | none => rfl
    | some p =>
      rw [elim_some, elim_some, bnChainWork, hs p, bnChainWork]
      cases s₀.entry p with
      | none => rfl
      | some pe => simp [hparent p hp]
  have hentry : s.entry h = some { e with
      bnChainWork := if h ∈ done then e.bnChainWork else 0 } := by
    rw [hs h, he, map_some]
  intro a
  rw [computeChainWork, hentry]
  dsimp only
  rw [hsum]
  rw [entry, Table.lookup_insert_ite]
  split
  · next heq =>
    subst heq
    rw [he, map_some, if_pos mem_cons_self]
  · next hne =>
    change s.entry a = (s₀.entry a).map _
    rw [hs a]
    simp [hne]

theorem computeChainWork_all {l : List uint256} (hs₀ : TreeOk s₀)
    (hwork : ∀ h e, s₀.entry h = some e →
      e.bnChainWork = e.pprev.elim 0 s₀.bnChainWork + getBlockWork e.nBits)
    (hsorted : l.Pairwise fun a b => s₀.nHeight a ≤ s₀.nHeight b)
    (hmem : ∀ h ∈ l, ∃ e, s₀.entry h = some e)
    (hall : ∀ h e, s₀.entry h = some e → h ∈ l ∨ h ∈ done) (hs : WorkDone s₀ done s) :
    ∀ h, (l.foldl computeChainWork s).entry h = s₀.entry h := by
  induction l generalizing s done with
  | nil =>
    intro h
    rw [foldl_nil, hs h]
    cases he : s₀.entry h with
    | none => rfl
    | some e =>
      have hdone := (hall h e he).resolve_left not_mem_nil
      rw [map_some, if_pos hdone]
  | cons a l ih =>
    obtain ⟨hfirst, hrest⟩ := pairwise_cons.mp hsorted
    obtain ⟨e, he⟩ := hmem a mem_cons_self
    have hparent : ∀ p, e.pprev = some p → p ∈ done := by
      intro p hp
      obtain ⟨pe, hpe, -⟩ := hs₀.parent a e p he hp
      have hheight := hs₀.graded a p (pprev_eq_some.mpr ⟨e, he, hp⟩)
      rcases hall p pe hpe with hmem | hdone
      · rcases mem_cons.mp hmem with rfl | hmem
        · omega
        · have := hfirst p hmem
          omega
      · exact hdone
    refine ih hrest (fun h hh => hmem h (mem_cons_of_mem _ hh)) (fun h e he => ?_)
      (computeChainWork_done hs he (hwork a e he) hparent)
    rcases hall h e he with hmem | hdone
    · rcases mem_cons.mp hmem with rfl | hmem
      · exact .inr mem_cons_self
      · exact .inl hmem
    · exact .inr (mem_cons_of_mem _ hdone)

theorem mem_vSortedByHeight : h ∈ vSortedByHeight s ↔ ∃ e, s.entry h = some e := by
  rw [vSortedByHeight, mem_mergeSort, Finset.mem_sort, Finmap.mem_keys, Finmap.mem_iff]
  rfl

theorem vSortedByHeight_sorted (s : ChainState) :
    (vSortedByHeight s).Pairwise fun a b => s.nHeight a ≤ s.nHeight b := by
  have hsorted := @pairwise_mergeSort _ (fun a b => decide (s.nHeight a ≤ s.nHeight b))
    (fun a b c hab hbc => by simp at *; omega) (fun a b => by simp; omega)
    (s.mapBlockIndex.keys.sort (· ≤ ·))
  exact hsorted.imp of_decide_eq_true

theorem computeChainWork_rest (s : ChainState) (h : uint256) :
    ∃ table, computeChainWork s h = { s with mapBlockIndex := table } := by
  unfold computeChainWork
  split
  · exact ⟨_, rfl⟩
  · exact ⟨_, rfl⟩

theorem computeChainWork_foldl_rest (l : List uint256) (s : ChainState) :
    l.foldl computeChainWork s =
      { s with mapBlockIndex := (l.foldl computeChainWork s).mapBlockIndex } := by
  induction l generalizing s with
  | nil => rfl
  | cons a l ih =>
    obtain ⟨table, htable⟩ := computeChainWork_rest s a
    have hrest := ih (computeChainWork s a)
    rw [htable] at hrest
    rw [foldl_cons, htable]
    exact hrest

/-- The loop over `vSortedByHeight` gives every entry its chain work. -/
theorem chainWork_restored (hs₀ : TreeOk s₀)
    (hwork : ∀ h e, s₀.entry h = some e →
      e.bnChainWork = e.pprev.elim 0 s₀.bnChainWork + getBlockWork e.nBits)
    (hs : ∀ h, s.entry h = (s₀.entry h).map fun e => { e with bnChainWork := 0 }) :
    (vSortedByHeight s).foldl computeChainWork s =
      { s with mapBlockIndex := s₀.mapBlockIndex } := by
  have hheight : s.nHeight = s₀.nHeight := by
    funext h
    rw [nHeight, nHeight, hs h]
    cases s₀.entry h <;> rfl
  have hmem : ∀ h, h ∈ vSortedByHeight s ↔ ∃ e, s₀.entry h = some e := by
    intro h
    rw [mem_vSortedByHeight, hs h]
    simp [map_eq_some_iff]
  have hsorted := vSortedByHeight_sorted s
  rw [hheight] at hsorted
  have hnone : WorkDone s₀ [] s := fun h => by simpa using hs h
  have hentries := computeChainWork_all hs₀ hwork hsorted (fun h => (hmem h).mp)
    (fun h e he => .inl ((hmem h).mpr ⟨e, he⟩)) hnone
  rw [computeChainWork_foldl_rest, show _ = s₀.mapBlockIndex from ext_lookup hentries]

end Work

/-! ## The check of the last blocks -/

/-- The check can read every block, at a time that is not before `nTime`, and the checks of the
transaction index find nothing. -/
structure VerifyOk (v : VerifyEnv) (nTime : ℤ) : Prop where
  readBlock : ∀ h, v.readBlock h = true
  time : nTime ≤ v.nAdjustedTime
  txIndex : 1 < v.nCheckLevel → ∀ pindex block, v.verifyTxIndex pindex block = true

theorem verifyBlocks_none {env : NodeEnv} {v : VerifyEnv} {nTime : ℤ} {s : ChainState}
    {t h : uint256} (hv : VerifyOk v nTime) (hs : TreeOk s)
    (hchecked : ∀ h p, Above s.pprev t h → s.pprev h = some p → CheckedOnDisk env nTime s h)
    (fuel : ℕ) (hth : Above s.pprev t h) (hh : ∃ e, s.entry h = some e) :
    verifyBlocks env v s fuel (some h) none = some none := by
  induction fuel generalizing h with
  | zero => rfl
  | succ fuel ih =>
    obtain ⟨e, he⟩ := hh
    rw [verifyBlocks, he]
    dsimp only
    split
    · rfl
    · next hp =>
      split
      · rfl
      · obtain ⟨p, hp⟩ := ne_none_iff_exists'.mp hp
        have hpprev : s.pprev h = some p := pprev_eq_some.mpr ⟨e, he, hp⟩
        obtain ⟨e', block, he', hread, hcheck⟩ := hchecked h p hth hpprev
        cases he.symm.trans he'
        rw [hv.readBlock h, hread]
        dsimp only
        have hlevel1 : checkBlock env.toChainEnv ⟨s.nBestHeight, v.nAdjustedTime, ∅⟩ true true
            block = true :=
          @checkBlock_mono _ ⟨s.nBestHeight, nTime, ∅⟩ _ _ _ _ hv.time (hcheck s.nBestHeight)
        have hlevel2 : (v.nCheckLevel > 1 && !v.verifyTxIndex e block) = false := by
          by_cases hlevel : 1 < v.nCheckLevel
          · rw [hv.txIndex hlevel]
            simp
          · simp [hlevel]
        rw [hlevel1, hlevel2, hp]
        simp only [Bool.not_true, Bool.and_false, Bool.or_false, Bool.false_eq_true, if_false]
        exact ih (hth.tail hpprev) (hs.pprev_entry hpprev)

/-! ## The restart -/

structure SameIndex (s s' : ChainState) : Prop where
  mapBlockIndex : s'.mapBlockIndex = s.mapBlockIndex
  pindexGenesisBlock : s'.pindexGenesisBlock = s.pindexGenesisBlock
  hashBestChain : s'.hashBestChain = s.hashBestChain
  pindexBest : s'.pindexBest = s.pindexBest
  nBestHeight : s'.nBestHeight = s.nBestHeight
  bnBestChainWork : s'.bnBestChainWork = s.bnBestChainWork

section Restart

variable {env : NodeEnv} {nTime : ℤ} {n : Node} {v : VerifyEnv} {order : List uint256}

theorem IndexInv.loadable (hnonzero : ∀ header, env.blockHash header ≠ 0)
    (hn : IndexInv env nTime n) : Loadable n.chain := by
  refine ⟨fun h e he => ?_, hn.ok.tree.key, fun h e p he hp => ?_, fun h e q he hq => ?_⟩
  · rw [← hn.headers h e he]
    exact hnonzero _
  · obtain ⟨pe, hpe, -⟩ := hn.ok.tree.parent h e p he hp
    exact ⟨pe, hpe⟩
  · have hnext : n.chain.pnext h = some q := bind_eq_some_iff.mpr ⟨e, he, hq⟩
    obtain ⟨-, hprev⟩ := (hn.ok.linked h q).mp hnext
    obtain ⟨qe, hqe, -⟩ := pprev_eq_some.mp hprev
    exact ⟨qe, hqe⟩

/-- The genesis block of a run that has a best block. -/
theorem IndexInv.genesis (hn : IndexInv env nTime n) :
    n.chain.pindexGenesisBlock =
      (n.chain.entry env.hashGenesisBlock).map fun _ => env.hashGenesisBlock := by
  cases hbest : n.chain.pindexBest with
  | none =>
    obtain ⟨hmap, hgenesis, -⟩ := hn.empty hbest
    rw [hgenesis, entry, hmap, lookup_empty, map_none]
  | some t =>
    obtain ⟨-, te, hte⟩ := hn.ok.best_eq hbest
    obtain ⟨habove, ge, hge⟩ := hn.genesis_above hte
    rw [hge]
    exact hn.ok.rooted t _ hbest habove hn.ok.genesis

def restarted (n : Node) : Node := ⟨initial, ⟨n.txdb.stored, none⟩⟩

/-- What has been loaded when the check of the last blocks begins. -/
def reloaded (n : Node) : ChainState :=
  { initial with
    mapBlockIndex := n.chain.mapBlockIndex
    pindexGenesisBlock := n.chain.pindexGenesisBlock
    hashBestChain := n.chain.hashBestChain
    pindexBest := n.chain.pindexBest
    nBestHeight := n.chain.nBestHeight
    bnBestChainWork := n.chain.bnBestChainWork
    bnBestInvalidWork := n.txdb.stored.bnBestInvalidWork.getD 0 }

theorem loadBlockIndex_empty (hn : IndexInv env nTime n) (hidle : n.txdb.activeTxn = none)
    (horder : ∀ h, h ∈ order ↔ h ∈ n.txdb.stored.blockindex)
    (hbest : n.chain.pindexBest = none) :
    loadBlockIndex env v order (restarted n) = some (restarted n) ∧
      SameIndex n.chain initial := by
  have hview : n.txdb.view = n.txdb.stored := by
    rw [CTxDB.view, hidle, getD_none]
  obtain ⟨hmap, hgenesis, hhash, hheight, hwork⟩ := hn.empty hbest
  have hnil : order = [] := by
    refine eq_nil_iff_forall_not_mem.mpr fun h hh => ?_
    obtain ⟨d, hd⟩ := mem_iff.mp ((horder h).mp hh)
    rw [← hview, hn.recorded h, entry, hmap] at hd
    cases hd
  have hnone : n.txdb.stored.hashBestChain = none := by
    rw [← hview, hn.best, hbest]
  have hsorted : vSortedByHeight initial = [] := by
    refine eq_nil_iff_forall_not_mem.mpr fun h hh => ?_
    obtain ⟨e, he⟩ := mem_vSortedByHeight.mp hh
    cases (lookup_empty h).symm.trans he
  have hfirst : initial.pindexGenesisBlock = none := rfl
  refine ⟨?_, ⟨hmap.symm, hgenesis.symm, hhash.symm, hbest.symm, hheight.symm, hwork.symm⟩⟩
  have hrecords : (restarted n).txdb.view = n.txdb.stored := rfl
  rw [loadBlockIndex, hrecords, hnil]
  simp [loadBlockIndexGuts, restarted, hsorted, loadBestChain, hnone, hfirst]

theorem loadBlockIndex_reloaded {t : uint256} (hnonzero : ∀ header, env.blockHash header ≠ 0)
    (hn : IndexInv env nTime n) (hidle : n.txdb.activeTxn = none)
    (horder : ∀ h, h ∈ order ↔ h ∈ n.txdb.stored.blockindex)
    (hbest : n.chain.pindexBest = some t) :
    loadBlockIndex env v order (restarted n) =
      checkBestChain env v { restarted n with chain := reloaded n } := by
  have hview : n.txdb.view = n.txdb.stored := by
    rw [CTxDB.view, hidle, getD_none]
  obtain ⟨s1, hguts, hentries, hgenesis, hrest⟩ :=
    @loadBlockIndexGuts_entry env _ _ _ (hn.loadable hnonzero) (hview ▸ hn.recorded) horder
  have hwork := chainWork_restored hn.ok.tree hn.work hentries
  obtain ⟨rfl, te, hte⟩ := hn.ok.best_eq hbest
  obtain ⟨hheight, hbestWork⟩ := hn.bestGlobals _ hbest
  rw [nHeight, hte] at hheight
  rw [bnChainWork, hte] at hbestWork
  have hstored : n.txdb.stored.hashBestChain = some n.chain.hashBestChain := by
    rw [← hview, hn.best, hbest]
  have hloaded : loadBestChain n.txdb.stored { s1 with mapBlockIndex := n.chain.mapBlockIndex } =
      some (true, reloaded n) := by
    unfold loadBestChain reloaded entry
    rw [hstored]
    dsimp only
    rw [show n.chain.mapBlockIndex.lookup _ = some te from hte, hbest, hheight,
      hbestWork, hn.genesis, ← hgenesis, hrest]
    rfl
  change (loadBlockIndexGuts env.hashGenesisBlock n.txdb.stored.blockindex order
    initial).bind _ = _
  rw [hguts]
  simp only [bind_some, hwork]
  change (loadBestChain n.txdb.stored _).bind _ = _
  rw [hloaded]
  rfl

/-- **Restart fidelity.** After every run of successful calls, a node that is started on the
committed records has the block index that was in memory, if the clock has not gone back. -/
theorem restart_sameIndex {batch : CChainImportBatch}
    (hnonzero : ∀ header, env.blockHash header ≠ 0) (hrun : AddRun env nTime n batch)
    (hcommitted : batch.fActive = false) (hv : VerifyOk v nTime)
    (horder : ∀ h, h ∈ order ↔ h ∈ n.txdb.stored.blockindex) :
    ∃ n', loadBlockIndex env v order (restarted n) = some n' ∧
      n'.txdb = (restarted n).txdb ∧ SameIndex n.chain n'.chain := by
  obtain ⟨hn, hcommit⟩ := addRun_inv hnonzero hrun
  have hidle := hcommit hcommitted
  cases hbest : n.chain.pindexBest with
  | none =>
    obtain ⟨hload, hsame⟩ := @loadBlockIndex_empty _ _ _ v _ hn hidle horder hbest
    exact ⟨_, hload, rfl, hsame⟩
  | some t =>
    obtain ⟨-, te, hte⟩ := hn.ok.best_eq hbest
    have htree : SameTree n.chain (reloaded n) := fun _ => rfl
    have hverify : verifyBlocks env v (reloaded n) (reloaded n).size (some t) none =
        some none :=
      verifyBlocks_none hv (hn.ok.tree.of_sameTree htree)
        (fun h p hth hp => (hn.checked t h p hbest hth hp).of_sameTree htree) _ .refl ⟨te, hte⟩
    refine ⟨{ restarted n with chain := reloaded n }, ?_, rfl, ⟨rfl, rfl, rfl, rfl, rfl, rfl⟩⟩
    rw [loadBlockIndex_reloaded hnonzero hn hidle horder hbest]
    change (verifyBlocks env v (reloaded n) (reloaded n).size n.chain.pindexBest none).bind _ = _
    rw [hbest, hverify]
    rfl

end Restart

/-! ## A clock that goes back -/

namespace SampleRestart

/-- The blocks with the hashes 3 and 4 are a branch that overtakes block 2. Their time lies two
hours ahead. -/
def block (i : ℕ) : CBlock :=
  ⟨⟨2, [0, 1, 1, 3].getD i 0, 0, 10000 + 2 * 60 * 60, 0x1e0ffff0, i⟩, [SampleFork.coinBase i]⟩

def env : NodeEnv :=
  { SampleFork.forkEnv with blockFileBlock := fun _ nBlockPos => some (block nBlockPos) }

def outcome : ChainOutcome := { nAdjustedTime := 10000 }

def state : ℕ → Node × CChainImportBatch
  | 0 => (Node.fresh, CChainImportBatch.new)
  | i + 1 => (addToBlockIndex env outcome 1 i (block i) (state i).1 (state i).2).2

/-- The default `-checklevel` and `-checkblocks`. -/
def verify (nAdjustedTime : ℤ) : VerifyEnv :=
  ⟨1, 2500, fun _ => true, nAdjustedTime, fun _ _ => true, {}⟩

theorem addRun : AddRun env 10000 (state 4).1 (state 4).2 := by
  have h1 : AddRun env 10000 (state 1).1 (state 1).2 :=
    .add outcome 1 0 (block 0) .start ⟨⟨rfl, rfl⟩, .inr ⟨rfl, rfl, rfl⟩, le_rfl⟩ (by decide)
  have h2 : AddRun env 10000 (state 2).1 (state 2).2 :=
    .add outcome 1 1 (block 1) h1 ⟨⟨rfl, rfl⟩, .inl (by decide), le_rfl⟩ (by decide)
  have h3 : AddRun env 10000 (state 3).1 (state 3).2 :=
    .add outcome 1 2 (block 2) h2 ⟨⟨rfl, rfl⟩, .inl (by decide), le_rfl⟩ (by decide)
  exact .add outcome 1 3 (block 3) h3 ⟨⟨rfl, rfl⟩, .inl (by decide), le_rfl⟩ (by decide)

theorem mem_order (h : uint256) : h ∈ [1, 2, 3, 4] ↔ h ∈ (state 4).1.txdb.stored.blockindex := by
  have hkeys : (state 4).1.txdb.stored.blockindex.keys = {1, 2, 3, 4} := by decide
  rw [← Finmap.mem_keys, hkeys]
  simp

end SampleRestart

open SampleRestart

theorem restart_sameIndex_sampleRestart :
    (state 4).1.chain.hashBestChain = 4 ∧
      ∃ n', loadBlockIndex env (verify 10000) [1, 2, 3, 4]
          (restarted (state 4).1) = some n' ∧
        n'.txdb = (restarted (state 4).1).txdb ∧
        SameIndex (state 4).1.chain n'.chain :=
  ⟨by decide, restart_sameIndex (fun _ => Nat.succ_ne_zero _) addRun (by decide)
      ⟨fun _ => rfl, le_rfl, fun _ _ _ => rfl⟩ mem_order⟩

/-- One second before the time at which the blocks were accepted, the check refuses them. -/
theorem restart_moves_best :
    AddRun env 10000 (state 4).1 (state 4).2 ∧
      (state 4).2.fActive = false ∧
      (state 4).1.chain.pindexBest = some 4 ∧
      ∃ n', loadBlockIndex env (verify 9999) [1, 2, 3, 4]
          (restarted (state 4).1) = some n' ∧ n'.chain.pindexBest = some 1 := by
  have hbest : (state 4).1.chain.pindexBest = some 4 := by decide
  refine ⟨addRun, by decide, hbest, ?_⟩
  obtain ⟨hn, hidle⟩ := addRun_inv (fun _ => Nat.succ_ne_zero _) addRun
  rw [loadBlockIndex_reloaded (fun _ => Nat.succ_ne_zero _) hn (hidle (by decide))
    mem_order hbest]
  apply map_eq_some_iff.mp
  decide

end Phoenixcoin.Analysis
