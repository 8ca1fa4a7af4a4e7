import Phoenixcoin.Analysis.ForwardLinks

/-!
# Synchronised checkpoints are not crossed

In strict mode and outside the initial download every new checkpoint lies above the one before
it. A checkpoint that is accepted lies on the best chain, and one that lies there stays there.
During the initial download blocks are not checked against the checkpoint, so a node may leave
its download with the checkpoint on a side branch.
-/

set_option autoImplicit false

namespace Phoenixcoin.Analysis

open Lib Program Model ChainState List

/-! ## The property -/

def OnBestChain (s : ChainState) (c : SyncCheckpoints) : Prop :=
  ∃ t, s.pindexBest = some t ∧ Above s.pprev t c.hashSyncCheckpoint

structure CheckpointSound (env : CheckpointEnv) (s : ChainState) (c : SyncCheckpoints) :
    Prop where
  chain : ChainSound env.toNodeEnv s
  checkpoint : c.hashSyncCheckpoint ∈ s.mapBlockIndex

/-- What one or more steps do to the chain and the checkpoint, where `checked` says that every
new block is checked against the checkpoint. -/
structure Advances (env : CheckpointEnv) (checked : Prop) (s : ChainState) (c : SyncCheckpoints)
    (s' : ChainState) (c' : SyncCheckpoints) : Prop where
  sound : CheckpointSound env s' c'
  grown : Grown s s'
  above : Above s'.pprev c'.hashSyncCheckpoint c.hashSyncCheckpoint
  stays : checked → OnBestChain s c → OnBestChain s' c'
  moved : checked → c'.hashSyncCheckpoint ≠ c.hashSyncCheckpoint → OnBestChain s' c'

section Steps

variable {env : CheckpointEnv} {checked : Prop} {s s' s'' : ChainState} {c c' c'' : SyncCheckpoints}

theorem Advances.refl (hs : CheckpointSound env s c) : Advances env checked s c s c :=
  ⟨hs, .refl s, .refl, fun _ h => h, fun _ hne => absurd rfl hne⟩

section

variable (h : Advances env checked s c s' c')
include h

theorem Advances.trans
    (h' : Advances env checked s' c' s'' c'') : Advances env checked s c s'' c'' := by
  refine ⟨h'.sound, h.grown.trans h'.grown, h'.above.trans (h'.grown.above h.above),
    fun hchecked hbest => h'.stays hchecked (h.stays hchecked hbest), fun hchecked hne => ?_⟩
  by_cases hsame : c''.hashSyncCheckpoint = c'.hashSyncCheckpoint
  · exact h'.stays hchecked (h.moved hchecked fun heq => hne (hsame.trans heq))
  · exact h'.moved hchecked hsame

theorem Advances.mono {checked' : Prop}
    (himp : checked' → checked) : Advances env checked' s c s' c' :=
  ⟨h.sound, h.grown, h.above, fun hchecked => h.stays (himp hchecked),
    fun hchecked => h.moved (himp hchecked)⟩

/-- Only the current checkpoint matters. -/
theorem Advances.congr (hsame : c''.hashSyncCheckpoint = c'.hashSyncCheckpoint) :
    Advances env checked s c s' c'' := by
  obtain ⟨⟨hchain, hcheckpoint⟩, hgrown, habove, hstays, hmoved⟩ := h
  unfold OnBestChain at hstays hmoved
  rw [← hsame] at hcheckpoint habove hstays hmoved
  exact ⟨⟨hchain, hcheckpoint⟩, hgrown, habove, hstays, hmoved⟩

end

/-! ## Validation -/

theorem lowerTo_above {nHeight n : ℕ} {a p : uint256} (h : s.lowerTo nHeight n a = some p) :
    Above s.pprev a p := by
  induction n generalizing a with
  | zero => cases h
  | succ n ih =>
    rw [lowerTo] at h
    split at h
    · obtain ⟨q, hq, hrest⟩ := Option.bind_eq_some_iff.mp h
      exact .head hq (ih hrest)
    · cases h
      exact .refl

variable {b : Bool} {hash hashPrev : uint256} {o : CheckpointOutcome}

theorem validateSyncCheckpoint_cases (h : validateSyncCheckpoint s hash c = (b, c')) :
    c'.hashSyncCheckpoint = c.hashSyncCheckpoint ∧
      c'.hashPendingCheckpoint = c.hashPendingCheckpoint ∧
      (b = true → hash ∈ s.mapBlockIndex ∧ hash ≠ c.hashSyncCheckpoint ∧
        Above s.pprev hash c.hashSyncCheckpoint) := by
  unfold validateSyncCheckpoint at h
  split at h
  · cases h
    exact ⟨rfl, rfl, nofun⟩
  · next hmem =>
    split at h
    · split at h
      · cases h
        exact ⟨rfl, rfl, nofun⟩
      · split at h
        · cases h
          exact ⟨rfl, rfl, nofun⟩
        · cases h
          exact ⟨rfl, rfl, nofun⟩
    · next hheight =>
      split at h
      · cases h
        exact ⟨rfl, rfl, nofun⟩
      · next pindex hlower =>
        split at h
        · cases h
          exact ⟨rfl, rfl, nofun⟩
        · next heq =>
          cases h
          rw [not_not] at heq
          subst heq
          refine ⟨rfl, rfl, fun _ => ⟨?_, fun heq => ?_, lowerTo_above hlower⟩⟩
          · exact not_not.mp fun hnot => hmem (.inr hnot)
          · exact hheight (heq ▸ le_rfl)

theorem writeSyncCheckpoint_cases (h : writeSyncCheckpoint o hash c = (b, c')) :
    c'.hashSyncCheckpoint = if b then hash else c.hashSyncCheckpoint := by
  unfold writeSyncCheckpoint at h
  split_ifs at h <;> cases h <;> rfl

/-! ## Accepting a checkpoint -/

theorem readBlockFromDisk_file {env : ChainEnv} {ok : Bool} {pindex : CBlockIndex} {block : CBlock}
    (h : readBlockFromDisk env ok hash pindex = some block) :
    env.blockFileBlock pindex.nFile pindex.nBlockPos = some block := by
  unfold readBlockFromDisk at h
  split at h
  · exact (Option.filter_eq_some_iff.mp h).1
  · cases h

variable {n n' : Node}

theorem advances_write (hs : CheckpointSound env s c) (hsound : ChainSound env.toNodeEnv s')
    (hgrown : Grown s s') (hmem : hash ∈ s.mapBlockIndex)
    (habove : Above s.pprev hash c.hashSyncCheckpoint)
    (hbest : ∃ t, s'.pindexBest = some t ∧ Above s'.pprev t hash)
    (h : writeSyncCheckpoint o hash c = (b, c')) :
    Advances env checked s c s' c' ∧ (b = true → OnBestChain s' c') := by
  have hnew := writeSyncCheckpoint_cases h
  have habove' := hgrown.above habove
  obtain ⟨t, ht, hth⟩ := hbest
  cases b with
  | true =>
    have honbest : OnBestChain s' c' := ⟨t, ht, hnew ▸ hth⟩
    exact ⟨⟨⟨hsound, hnew ▸ hgrown.mem hash hmem⟩, hgrown, hnew ▸ habove', fun _ _ => honbest,
      fun _ _ => honbest⟩, fun _ => honbest⟩
  | false =>
    refine ⟨⟨⟨hsound, hnew ▸ hgrown.mem _ hs.checkpoint⟩, hgrown, hnew ▸ .refl, fun _ _ => ?_,
      fun _ hne => absurd hnew hne⟩, nofun⟩
    exact ⟨t, ht, hnew ▸ hth.trans habove'⟩

section

variable (hs : CheckpointSound env n.chain c)
include hs

theorem moveToCheckpoint_advances
    (hmem : hash ∈ n.chain.mapBlockIndex) (habove : Above n.chain.pprev hash c.hashSyncCheckpoint)
    (h : moveToCheckpoint env o hash n c = (b, n', c')) :
    Advances env checked n.chain c n'.chain c' ∧ (b = true → OnBestChain n'.chain c') := by
  unfold moveToCheckpoint at h
  split at h
  · next hmain =>
    cases h
    exact advances_write hs hs.chain (.refl _) hmem habove (hs.chain.of_isInMainChain hmain) rfl
  · split at h
    · cases h
      exact ⟨.refl hs, nofun⟩
    · next block hread =>
      obtain ⟨e, he, hblock⟩ := Option.bind_eq_some_iff.mp hread
      have hhash := readBlockFromDisk_hash hblock
      split at h
      · next n1 hset =>
        cases h
        obtain ⟨bnWork, hchain⟩ := setBestChain_refused hset
        have hkeep : Advances env checked n.chain c n1.chain c := by
          rw [hchain]
          exact ⟨⟨hs.chain.congr rfl rfl rfl rfl, hs.checkpoint⟩,
            .of_sameTree (sameTree_of_mapBlockIndex rfl), .refl, fun _ h => h,
            fun _ hne => absurd rfl hne⟩
        exact ⟨hkeep.congr rfl, nofun⟩
      · next n1 hset =>
        cases h
        have hprev : ∀ p, n.chain.pprev hash = some p → block.hashPrevBlock = p := by
          intro p hp
          exact hs.chain.parents hash p hp _ _ block (readBlockFromDisk_file hblock) hhash
        obtain ⟨hsound, htree, hbest⟩ := setBestChain_sound hs.chain hmem hhash hprev hset
        exact advances_write hs hsound (.of_sameTree htree) hmem habove ⟨hash, hbest, .refl⟩ rfl

/-- A checkpoint that is validated, and then moved to. -/
theorem validated_advances {c1 : SyncCheckpoints}
    (hvalid : validateSyncCheckpoint n.chain hash c = (true, c1))
    (hmove : moveToCheckpoint env o hash n c1 = (b, n', c')) :
    Advances env checked n.chain c n'.chain c' ∧ (b = true → OnBestChain n'.chain c') := by
  obtain ⟨hsame, -, hdescends⟩ := validateSyncCheckpoint_cases hvalid
  obtain ⟨hmem, -, habove⟩ := hdescends rfl
  have hkeep : Advances env checked n.chain c n.chain c1 := (Advances.refl hs).congr hsame
  obtain ⟨hadvances, hbest⟩ := moveToCheckpoint_advances ⟨hs.chain, hsame ▸ hs.checkpoint⟩ hmem
    (hsame ▸ habove) hmove
  exact ⟨hkeep.trans hadvances, hbest⟩

theorem acceptPendingSyncCheckpoint_advances
    (h : acceptPendingSyncCheckpoint env o n c = (b, n', c')) :
    Advances env checked n.chain c n'.chain c' ∧ (b = true → OnBestChain n'.chain c') := by
  unfold acceptPendingSyncCheckpoint at h
  split at h
  · next hpending =>
    split at h
    · next c1 hvalid =>
      cases h
      exact ⟨(Advances.refl hs).congr (validateSyncCheckpoint_cases hvalid).1, nofun⟩
    · next c1 hvalid =>
      rw [(validateSyncCheckpoint_cases hvalid).2.1] at h
      split at h
      · next hmove =>
        cases h
        exact ⟨(validated_advances hs hvalid hmove).1, nofun⟩
      · next hmove =>
        cases h
        obtain ⟨hadvances, hbest⟩ := validated_advances hs hvalid hmove
        exact ⟨hadvances.congr rfl, hbest⟩
  · cases h
    exact ⟨.refl hs, nofun⟩

theorem processSyncCheckpoint_advances {checkpoint : CSyncCheckpoint}
    (h : processSyncCheckpoint env o checkpoint n c = (b, n', c')) :
    Advances env checked n.chain c n'.chain c' ∧ (b = true → OnBestChain n'.chain c') := by
  unfold processSyncCheckpoint at h
  split at h
  · cases h
    exact ⟨.refl hs, nofun⟩
  · split at h
    · cases h
      exact ⟨(Advances.refl hs).congr rfl, nofun⟩
    · split at h
      · next c1 hvalid =>
        cases h
        exact ⟨(Advances.refl hs).congr (validateSyncCheckpoint_cases hvalid).1, nofun⟩
      · next c1 hvalid =>
        split at h
        · next hmove =>
          cases h
          exact ⟨(validated_advances hs hvalid hmove).1, nofun⟩
        · next hmove =>
          cases h
          obtain ⟨hadvances, hbest⟩ := validated_advances hs hvalid hmove
          exact ⟨hadvances.congr rfl, hbest⟩

theorem sendSyncCheckpoint_advances (h : sendSyncCheckpoint env o hash n c = (b, n', c')) :
    Advances env checked n.chain c n'.chain c' := by
  unfold sendSyncCheckpoint at h
  split at h
  · cases h
    exact .refl hs
  · exact (processSyncCheckpoint_advances hs h).1

end

/-! ## Accepting a block -/

theorem checkSync_above (hfresh : hash ∉ s.mapBlockIndex) (h : checkSync s c hash hashPrev = true) :
    c.hashSyncCheckpoint ∈ s.mapBlockIndex ∧ Above s.pprev hashPrev c.hashSyncCheckpoint := by
  unfold checkSync at h
  dsimp only at h
  split at h
  · cases h
  · next hmem =>
    rw [not_not] at hmem
    refine ⟨hmem, ?_⟩
    split at h
    · split at h
      · cases h
      · next pindex hlower =>
        rw [Bool.and_eq_true, decide_eq_true_eq, decide_eq_true_eq] at h
        exact h.2 ▸ lowerTo_above hlower
    · split at h
      · exact absurd (of_decide_eq_true h ▸ hmem) hfresh
      · exact absurd (of_decide_eq_true h) hfresh

theorem checkAgainstSync_strict {o : AcceptOutcome} {s s' : CheckpointNode}
    (hmode : env.CheckpointsMode = .STRICT) (houtside : o.fInitialBlockDownload .checkSync = false)
    (h : checkAgainstSync env o hash hashPrev s = (true, s')) :
    checkSync s.node.chain s.checkpoints hash hashPrev = true := by
  rw [checkAgainstSync, houtside, if_neg Bool.false_ne_true, hmode] at h
  split at h
  · next hpass => exact hpass
  · cases h

theorem checkAgainstSync_same {o : AcceptOutcome} {s s' : CheckpointNode}
    (h : checkAgainstSync env o hash hashPrev s = (b, s')) :
    s'.node = s.node ∧ s'.checkpoints = s.checkpoints ∧ s'.mapOrphanBlocks = s.mapOrphanBlocks := by
  unfold checkAgainstSync at h
  split at h
  · cases h
    exact ⟨rfl, rfl, rfl⟩
  · split at h
    · cases h
      exact ⟨rfl, rfl, rfl⟩
    · split at h <;> cases h <;> exact ⟨rfl, rfl, rfl⟩

theorem BlockAdded.advances {block : CBlock} (hs : CheckpointSound env s c)
    (hadded : BlockAdded env.toNodeEnv s s' hash block)
    (habove : checked → Above s.pprev block.hashPrevBlock c.hashSyncCheckpoint) :
    Advances env checked s c s' c := by
  refine ⟨⟨hadded.sound, hadded.grown.mem _ hs.checkpoint⟩, hadded.grown, .refl,
    fun hchecked honbest => ?_, fun _ hne => absurd rfl hne⟩
  rcases hadded.best with hsame | ⟨hnew, hprev⟩
  · obtain ⟨t, ht, hth⟩ := honbest
    exact ⟨t, hsame.trans ht, hadded.grown.above hth⟩
  · exact ⟨hash, hnew, .head hprev (hadded.grown.above (habove hchecked))⟩

def Checked (env : CheckpointEnv) (o : AcceptOutcome) : Prop :=
  env.CheckpointsMode = .STRICT ∧ o.fInitialBlockDownload .checkSync = false

theorem storeBlock_advances {o : AcceptOutcome} {block : CBlock} {r : Option BlockError}
    {s s' : CheckpointNode} (hs : CheckpointSound env s.node.chain s.checkpoints)
    (hfresh : env.blockHash block.toCBlockHeader ∉ s.node.chain.mapBlockIndex)
    (hparent : block.hashPrevBlock ∈ s.node.chain.mapBlockIndex)
    (hunique : ParentUnique env.toNodeEnv block)
    (habove : checked →
      Above s.node.chain.pprev block.hashPrevBlock s.checkpoints.hashSyncCheckpoint)
    (h : storeBlock env o block s = (r, s')) :
    Advances env checked s.node.chain s.checkpoints s'.node.chain s'.checkpoints ∧
      s'.mapOrphanBlocks = s.mapOrphanBlocks := by
  unfold storeBlock at h
  split at h
  · cases h
    exact ⟨.refl hs, rfl⟩
  · split at h
    · cases h
      exact ⟨.refl hs, rfl⟩
    · split at h
      · next n batch hadd =>
        cases h
        have hadded := addToBlockIndex_added hs.chain rfl hfresh hparent hunique rfl hadd
        exact ⟨hadded.advances hs habove, rfl⟩
      · next n batch hadd =>
        have hadded := addToBlockIndex_added hs.chain rfl hfresh hparent hunique rfl hadd
        have hadvances : Advances env checked s.node.chain s.checkpoints n.chain s.checkpoints :=
          hadded.advances hs habove
        split at h
        · cases h
          exact ⟨hadvances, rfl⟩
        · generalize hpending : acceptPendingSyncCheckpoint env o.pending n s.checkpoints = result
            at h
          cases h
          exact ⟨hadvances.trans
            (acceptPendingSyncCheckpoint_advances hadvances.sound hpending).1, rfl⟩

theorem acceptBlock_advances {o : AcceptOutcome} {block : CBlock} {r : Option BlockError}
    {s s' : CheckpointNode} (hs : CheckpointSound env s.node.chain s.checkpoints)
    (hunique : ParentUnique env.toNodeEnv block) (h : acceptBlock env o block s = (r, s')) :
    Advances env (Checked env o) s.node.chain s.checkpoints s'.node.chain s'.checkpoints ∧
      s'.mapOrphanBlocks = s.mapOrphanBlocks := by
  unfold acceptBlock at h
  dsimp only at h
  split at h
  · cases h
    exact ⟨.refl hs, rfl⟩
  · next hfresh =>
    split at h
    · cases h
      exact ⟨.refl hs, rfl⟩
    · next pindexPrev hprev =>
      split at h
      · cases h
        exact ⟨.refl hs, rfl⟩
      · split at h
        · cases h
          exact ⟨.refl hs, rfl⟩
        · split at h
          · next s1 hsync =>
            cases h
            obtain ⟨hnode, hcheckpoints, horphans⟩ := checkAgainstSync_same hsync
            rw [hnode, hcheckpoints]
            exact ⟨.refl hs, horphans⟩
          · next s1 hsync =>
            have hstrict : Checked env o → checkSync s.node.chain s.checkpoints
                (env.blockHash block.toCBlockHeader) block.hashPrevBlock = true :=
              fun hchecked => checkAgainstSync_strict hchecked.1 hchecked.2 hsync
            obtain ⟨hnode, hcheckpoints, horphans⟩ := checkAgainstSync_same hsync
            rw [← hnode, ← hcheckpoints] at hs hstrict ⊢
            rw [← hnode] at hfresh hprev
            rw [← horphans]
            exact storeBlock_advances hs hfresh (mem_iff_entry.mpr ⟨pindexPrev, hprev⟩) hunique
              (fun hchecked => (checkSync_above hfresh (hstrict hchecked)).2) h

/-! ## Processing a block -/

structure NodeSound (env : CheckpointEnv) (s : CheckpointNode) : Prop where
  checkpoint : CheckpointSound env s.node.chain s.checkpoints
  orphans : ∀ block ∈ s.mapOrphanBlocks, ParentUnique env.toNodeEnv block

/-- `Advances` for whole nodes. -/
structure NodeAdvances (env : CheckpointEnv) (checked : Prop) (s s' : CheckpointNode) : Prop where
  advances : Advances env checked s.node.chain s.checkpoints s'.node.chain s'.checkpoints
  orphans : ∀ block ∈ s'.mapOrphanBlocks, ParentUnique env.toNodeEnv block

theorem NodeAdvances.sound {s s' : CheckpointNode} (h : NodeAdvances env checked s s') :
    NodeSound env s' := ⟨h.advances.sound, h.orphans⟩

theorem NodeAdvances.refl {s : CheckpointNode} (hs : NodeSound env s) :
    NodeAdvances env checked s s := ⟨.refl hs.checkpoint, hs.orphans⟩

theorem NodeAdvances.trans {s s' s'' : CheckpointNode} (h : NodeAdvances env checked s s')
    (h' : NodeAdvances env checked s' s'') : NodeAdvances env checked s s'' :=
  ⟨h.advances.trans h'.advances, h'.orphans⟩

def CallChecked (env : CheckpointEnv) (o : ProcessOutcome) : Prop :=
  ∀ hash, Checked env (o.accept hash)

theorem acceptOrphan_advances {o : ProcessOutcome} {acc : List uint256 × CheckpointNode}
    {block : CBlock} (hs : NodeSound env acc.2) (hunique : ParentUnique env.toNodeEnv block) :
    NodeAdvances env (CallChecked env o) acc.2 (acceptOrphan env o acc block).2 := by
  have hstep : ∀ r s', acceptBlock env (o.accept (env.blockHash block.toCBlockHeader)) block acc.2 =
      (r, s') → NodeAdvances env (CallChecked env o) acc.2 s' := by
    intro r s' h
    obtain ⟨hadvances, horphans⟩ := acceptBlock_advances hs.checkpoint hunique h
    exact ⟨hadvances.mono fun hchecked => hchecked _, horphans ▸ hs.orphans⟩
  unfold acceptOrphan
  dsimp only
  split
  · next h => exact hstep _ _ h
  · next h => exact hstep _ _ h

theorem acceptOrphans_advances {o : ProcessOutcome} {children : List CBlock}
    {acc : List uint256 × CheckpointNode} (hs : NodeSound env acc.2)
    (hunique : ∀ block ∈ children, ParentUnique env.toNodeEnv block) :
    NodeAdvances env (CallChecked env o) acc.2 (children.foldl (acceptOrphan env o) acc).2 := by
  induction children generalizing acc with
  | nil => exact .refl hs
  | cons block children ih =>
    have hstep := @acceptOrphan_advances env o acc block hs (hunique block mem_cons_self)
    exact hstep.trans (ih hstep.sound fun b hb => hunique b (mem_cons_of_mem block hb))

theorem processOrphans_advances {o : ProcessOutcome} {k : ℕ} {vWorkQueue : List uint256}
    {s : CheckpointNode} (hs : NodeSound env s) :
    NodeAdvances env (CallChecked env o) s (processOrphans env o k vWorkQueue s) := by
  induction k generalizing vWorkQueue s with
  | zero => exact .refl hs
  | succ k ih =>
    cases vWorkQueue with
    | nil => exact .refl hs
    | cons hashPrev vWorkQueue =>
      rw [processOrphans]
      have hchildren := @acceptOrphans_advances env o
        (s.mapOrphanBlocks.filter fun block => block.hashPrevBlock = hashPrev) ([], s) hs
        fun block hblock => hs.orphans block (mem_of_mem_filter hblock)
      generalize (s.mapOrphanBlocks.filter fun block => block.hashPrevBlock = hashPrev).foldl
        (acceptOrphan env o) ([], s) = result at hchildren ⊢
      obtain ⟨accepted, s1⟩ := result
      have hrest : NodeAdvances env (CallChecked env o) s { s1 with
            mapOrphanBlocks := s1.mapOrphanBlocks.filter
              fun block => block.hashPrevBlock ≠ hashPrev } :=
        ⟨hchildren.advances, fun block hblock =>
          hchildren.orphans block (mem_of_mem_filter hblock)⟩
      exact hrest.trans (ih hrest.sound)

/-- A call of `ProcessBlock`, with the orphans and the checkpoint that it may send. -/
theorem processBlock_advances {o : ProcessOutcome} {block : CBlock} {b : Bool}
    {s s' : CheckpointNode} (hs : NodeSound env s) (hunique : ParentUnique env.toNodeEnv block)
    (h : processBlockWithOrphans env o block s = (b, s')) :
    NodeAdvances env (CallChecked env o) s s' := by
  unfold processBlockWithOrphans at h
  dsimp only at h
  split at h
  · cases h
    exact .refl hs
  · split at h
    · cases h
      exact .refl hs
    · split at h
      · cases h
        exact .refl hs
      · split at h
        · cases h
          exact .refl hs
        · split at h
          · cases h
            split
            · refine ⟨.refl hs.checkpoint, fun orphan horphan => ?_⟩
              rcases mem_append.mp horphan with horphan | horphan
              · exact hs.orphans orphan horphan
              · rw [mem_singleton.mp horphan]
                exact hunique
            · exact .refl hs
          · split at h
            · next haccept =>
              cases h
              obtain ⟨hadvances, horphans⟩ := acceptBlock_advances hs.checkpoint hunique haccept
              exact ⟨hadvances.mono fun hchecked => hchecked _, horphans ▸ hs.orphans⟩
            · next s1 haccept =>
              obtain ⟨hadvances, horphans⟩ := acceptBlock_advances hs.checkpoint hunique haccept
              have hblock : NodeAdvances env (CallChecked env o) s s1 :=
                ⟨hadvances.mono fun hchecked => hchecked _, horphans ▸ hs.orphans⟩
              have hqueue := hblock.trans
                (@processOrphans_advances env o (s1.mapOrphanBlocks.length + 1)
                  [env.blockHash block.toCBlockHeader] s1 hblock.sound)
              split at h
              · cases h
                exact hqueue.trans
                  ⟨sendSyncCheckpoint_advances hqueue.sound.checkpoint rfl, hqueue.orphans⟩
              · cases h
                exact hqueue

/-! ## Runs -/

def OutsideDownload : CheckpointCall → Prop
  | .processBlock o _ => ∀ hash query, (o.accept hash).fInitialBlockDownload query = false
  | .processSyncCheckpoint _ _ => True
  | .acceptPendingSyncCheckpoint _ => True

/-- A block that is passed on is not one of two with the same hash. -/
def UniqueBlock (env : NodeEnv) : CheckpointCall → Prop
  | .processBlock _ block => ParentUnique env block
  | .processSyncCheckpoint _ _ => True
  | .acceptPendingSyncCheckpoint _ => True

def IsCheckpointCall : CheckpointCall → Prop
  | .processBlock _ _ => False
  | .processSyncCheckpoint _ _ => True
  | .acceptPendingSyncCheckpoint _ => True

def runCalls (env : CheckpointEnv) (s : CheckpointNode) (calls : List CheckpointCall) :
    CheckpointNode :=
  calls.foldl (fun s call => (call.run env s).2) s

theorem run_advances {call : CheckpointCall} {s : CheckpointNode} (hs : NodeSound env s)
    (hunique : UniqueBlock env.toNodeEnv call) :
    NodeAdvances env (env.CheckpointsMode = .STRICT ∧ OutsideDownload call) s (call.run env s).2 ∧
      (IsCheckpointCall call → (call.run env s).1 = true →
        OnBestChain (call.run env s).2.node.chain (call.run env s).2.checkpoints) := by
  cases call with
  | processBlock o block =>
    have hadvances := @processBlock_advances env o block _ s _ hs hunique rfl
    refine ⟨⟨hadvances.advances.mono fun h hash => ⟨h.1, h.2 hash .checkSync⟩,
      hadvances.orphans⟩, fun h => h.elim⟩
  | processSyncCheckpoint o checkpoint =>
    unfold CheckpointCall.run
    dsimp only
    generalize hcall : processSyncCheckpoint env o checkpoint s.node s.checkpoints = result
    obtain ⟨hadvances, hbest⟩ := processSyncCheckpoint_advances hs.checkpoint hcall
    exact ⟨⟨hadvances, hs.orphans⟩, fun _ => hbest⟩
  | acceptPendingSyncCheckpoint o =>
    unfold CheckpointCall.run
    dsimp only
    generalize hcall : acceptPendingSyncCheckpoint env o s.node s.checkpoints = result
    obtain ⟨hadvances, hbest⟩ := acceptPendingSyncCheckpoint_advances hs.checkpoint hcall
    exact ⟨⟨hadvances, hs.orphans⟩, fun _ => hbest⟩

theorem runCalls_advances {calls : List CheckpointCall} {s : CheckpointNode}
    (hs : NodeSound env s) (hunique : ∀ call ∈ calls, UniqueBlock env.toNodeEnv call) :
    NodeAdvances env (env.CheckpointsMode = .STRICT ∧ ∀ call ∈ calls, OutsideDownload call) s
      (runCalls env s calls) := by
  induction calls generalizing s with
  | nil => exact .refl hs
  | cons call calls ih =>
    obtain ⟨⟨hadvances, horphans⟩, -⟩ := run_advances hs (hunique call mem_cons_self)
    have hstep : NodeAdvances env (env.CheckpointsMode = .STRICT ∧
        ∀ c ∈ call :: calls, OutsideDownload c) s (call.run env s).2 :=
      ⟨hadvances.mono fun h => ⟨h.1, h.2 call mem_cons_self⟩, horphans⟩
    have hrest := ih hstep.sound fun c hc => hunique c (mem_cons_of_mem call hc)
    exact hstep.trans ⟨hrest.advances.mono fun h =>
      ⟨h.1, fun c hc => h.2 c (mem_cons_of_mem call hc)⟩, hrest.orphans⟩

/-- **Checkpoints are not crossed.** In strict mode and outside the initial download each new
checkpoint is the one before it or lies above it. After every call the checkpoint is on the best
chain if it was there at the start, if it has changed since, or if the call accepted one. -/
theorem syncCheckpoint_notCrossed {s : CheckpointNode} {calls : List CheckpointCall}
    {call : CheckpointCall} (hmode : env.CheckpointsMode = .STRICT) (hs : NodeSound env s)
    (houtside : ∀ c ∈ calls ++ [call], OutsideDownload c)
    (hunique : ∀ c ∈ calls ++ [call], UniqueBlock env.toNodeEnv c) :
    let s₁ := runCalls env s calls
    let s₂ := (call.run env s₁).2
    Above s₂.node.chain.pprev s₂.checkpoints.hashSyncCheckpoint
        s₁.checkpoints.hashSyncCheckpoint ∧
      (OnBestChain s.node.chain s.checkpoints ∨
          s₂.checkpoints.hashSyncCheckpoint ≠ s.checkpoints.hashSyncCheckpoint ∨
          (IsCheckpointCall call ∧ (call.run env s₁).1 = true) →
        OnBestChain s₂.node.chain s₂.checkpoints) := by
  intro s₁ s₂
  have hbefore : NodeAdvances env (env.CheckpointsMode = .STRICT ∧
      ∀ c ∈ calls, OutsideDownload c) s s₁ :=
    runCalls_advances hs fun c hc => hunique c (mem_append_left _ hc)
  have hmem : call ∈ calls ++ [call] := mem_append_right _ (mem_singleton_self call)
  obtain ⟨hcall, haccept⟩ := run_advances hbefore.sound (hunique call hmem)
  have hrun : Advances env True s.node.chain s.checkpoints s₂.node.chain s₂.checkpoints :=
    (hbefore.advances.mono fun _ => ⟨hmode, fun c hc =>
      houtside c (mem_append_left _ hc)⟩).trans
      (hcall.advances.mono fun _ => ⟨hmode, houtside call hmem⟩)
  refine ⟨hcall.advances.above, ?_⟩
  rintro (hstart | hchanged | ⟨hcheckpoint, hresult⟩)
  · exact hrun.stays trivial hstart
  · exact hrun.moved trivial hchanged
  · exact haccept hcheckpoint hresult

end Steps

/-! ## The checkpoint on a side branch -/

namespace SampleCrossing

def hashOf (i : ℕ) : uint256 :=
  if i = 1 then 0xebc580b1c5100b9763d5c5d8a4df724b1d0f32ed78203fd9321fe6f2fbff5373 else i + 1

/-- Block 1 follows the genesis block 0. The blocks 2 and 5 are one branch on top of it, the
blocks 3 and 4 the other one. -/
def parent : ℕ → uint256
  | 0 => 0
  | 1 => hashOf 0
  | 2 => hashOf 1
  | 3 => hashOf 1
  | i + 4 => hashOf (3 - i)

def height : ℕ → ℕ
  | 0 => 0
  | 1 => 1
  | 2 => 2
  | 3 => 2
  | _ + 4 => 3

def coinBase (i : ℕ) : CTransaction where
  vin := [⟨⟨0, uintMax⟩, [0, 0], uintMax⟩]
  vout := [⟨25 * COIN, []⟩]
  nLockTime := i

def block (i : ℕ) : CBlock :=
  ⟨⟨2, parent i, 0, 1383843822 + 1000 * height i, 0x1e0fffff, i⟩, [coinBase i]⟩

def env : CheckpointEnv where
  fTestNet := true
  nBaseMaturity := 0
  totalBlocksEstimate := 0
  txHash tx := tx.nLockTime + 1
  blockHash header := hashOf header.nNonce
  checkProofOfWork _ := true
  buildMerkleTree _ := 0
  getSigOpCount _ _ := 0
  getP2SHSigOpCount _ _ := 0
  isPayToScriptHash _ := false
  verifyScript _ _ _ _ _ _ := true
  blockFileTx _ _ := none
  blockFileBlock _ nBlockPos := if nBlockPos ≤ 5 then some (block nBlockPos) else none
  hashGenesisBlock := 1
  CheckpointsMode := .STRICT
  checkSignature checkpoint := checkpoint.vchMsg.head?.map UInt8.toNat
  signCheckpoint _ := none
  nCheckpointDepth := 0

def start : CheckpointNode where
  node :=
    ⟨{ initial with
        mapBlockIndex := Finmap.insert 1 (CBlockIndex.ofBlock 1 1 0 (block 0)) ∅
        pindexGenesisBlock := some 1
        hashBestChain := 1
        pindexBest := some 1
        nBestHeight := 0 }, ⟨⟨∅, ∅, some 1, none⟩, none⟩⟩
  checkpoints := { hashSyncCheckpoint := 1, storedCheckpoint := some 1 }
  mapOrphanBlocks := []
  strMiscWarning := ""

/-- Block `i` arrives during the initial download or after it. -/
def receive (fInitialBlockDownload : Bool) (i : ℕ) : CheckpointCall :=
  .processBlock
    { nAdjustedTime := 1383943822
      accept := fun _ =>
        { nAdjustedTime := 1383943822
          fInitialBlockDownload := fun _ => fInitialBlockDownload
          nBlockPos := i
          chain := { nAdjustedTime := 1383943822 } } }
    (block i)

/-- The message for block 2. -/
def checkpoint : CSyncCheckpoint := ⟨0, [3], []⟩

/-- The best chain leaves the checkpoint 2 for the longer branch 3, 4. -/
def download : List CheckpointCall :=
  [receive true 1, receive true 2, .processSyncCheckpoint {} checkpoint, receive true 3,
    receive true 4]

def downloaded : CheckpointNode := runCalls env start download

/-- The node follows the checkpoint 2, outside the download. -/
def followed : CheckpointNode :=
  runCalls env start [receive false 1, receive false 2, .processSyncCheckpoint {} checkpoint,
    receive false 5]

theorem start_sound : NodeSound env start := by
  have hentry : ∀ h, start.node.chain.entry h =
      if h = 1 then some (CBlockIndex.ofBlock 1 1 0 (block 0)) else none := by
    intro h
    simp [start, entry, Table.lookup_insert_ite]
  have hpprev : ∀ h, start.node.chain.pprev h = none := by
    intro h
    rw [pprev, hentry]
    split_ifs <;> rfl
  refine ⟨⟨⟨⟨?_, ?_, ?_⟩, ?_, ⟨1, rfl, by decide⟩, ?_, ?_⟩, by decide⟩, ?_⟩
  · intro h e he
    rw [hentry] at he
    split_ifs at he with h1
    cases he
    rw [h1]
    rfl
  · intro h e p he hp
    rw [hentry] at he
    split_ifs at he with h1
    cases he
    cases hp
  · intro h e he _
    rw [hentry] at he
    split_ifs at he with h1
    cases he
    rfl
  · intro t ht
    cases ht
    exact ⟨rfl, by decide⟩
  · intro a b hab
    rw [pnext, hentry] at hab
    split_ifs at hab <;> cases hab
  · intro h p hp
    rw [hpprev] at hp
    cases hp
  · intro block hblock
    exact absurd hblock not_mem_nil

theorem parentUnique (i : ℕ) (hi : i ≤ 5) : ParentUnique env.toNodeEnv (block i) := by
  intro nFile nBlockPos block' hblock hhash
  have hpos : nBlockPos ≤ 5 := by
    by_contra hnot
    rw [show env.blockFileBlock nFile nBlockPos = none from if_neg hnot] at hblock
    cases hblock
  rw [show env.blockFileBlock nFile nBlockPos = some (block nBlockPos) from if_pos hpos] at hblock
  cases hblock
  have hinjective : ∀ a ≤ 5, ∀ b ≤ 5, hashOf a = hashOf b → a = b := by decide
  rw [hinjective nBlockPos hpos i hi hhash]

end SampleCrossing

open SampleCrossing

/-- The message for block 2 is accepted, and the node accepts block 5 on top of it. -/
theorem syncCheckpoint_notCrossed_sampleCrossing :
    followed.checkpoints.hashSyncCheckpoint = 3 ∧
      OnBestChain followed.node.chain followed.checkpoints := by
  have hmoved : followed.checkpoints.hashSyncCheckpoint = 3 := by decide
  have hstart : start.checkpoints.hashSyncCheckpoint = 1 := rfl
  refine ⟨hmoved, (@syncCheckpoint_notCrossed env start
    [receive false 1, receive false 2,
      .processSyncCheckpoint {} checkpoint]
    (receive false 5) rfl start_sound
    (by simp [receive, OutsideDownload])
    (by simp [receive, UniqueBlock, parentUnique])).2
    (Or.inr (Or.inl ?_))⟩
  change followed.checkpoints.hashSyncCheckpoint ≠ _
  rw [hmoved, hstart]
  decide

/-- After its download the node accepts block 5, which extends the checkpoint. -/
theorem syncCheckpoint_off_bestChain :
    env.CheckpointsMode = .STRICT ∧
    NodeSound env start ∧
    OnBestChain start.node.chain start.checkpoints ∧
    OutsideDownload (receive false 5) ∧
    ((receive false 5).run env downloaded).1 = true ∧
    ¬ OnBestChain
      ((receive false 5).run env
        downloaded).2.node.chain
      ((receive false 5).run env
        downloaded).2.checkpoints := by
  refine ⟨rfl, start_sound, ⟨1, rfl, .refl⟩, fun _ _ => rfl, by decide, ?_⟩
  generalize hafter : (receive false 5).run env
    downloaded = after
  -- the best chain is 4, 3, 1, 0 and the checkpoint is block 2
  have hparents : ∀ i ∈ [4, 3, 1],
      after.2.node.chain.pprev (hashOf i) = some (parent i) := by
    subst hafter
    decide
  have hroot : after.2.node.chain.pprev 1 = none := by
    subst hafter
    decide
  have hbest : after.2.node.chain.pindexBest = some 5 := by
    subst hafter
    decide
  have hcheckpoint : after.2.checkpoints.hashSyncCheckpoint = 3 := by
    subst hafter
    decide
  rintro ⟨t, ht, habove⟩
  cases hbest.symm.trans ht
  rw [hcheckpoint] at habove
  have h4 := habove.of_parent (hparents 4 (by decide)) (by decide)
  have h3 := h4.of_parent (hparents 3 (by decide)) (by decide)
  have h1 := h3.of_parent (hparents 1 (by decide)) (by decide)
  exact absurd (h1.of_root hroot) (by decide)

end Phoenixcoin.Analysis
