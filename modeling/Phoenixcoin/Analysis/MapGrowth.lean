import Phoenixcoin.Analysis.MapFull
import Phoenixcoin.Lib.Loop
import Phoenixcoin.Program.MapSize

/-!
# Growing the map makes progress

`GrowMap` on machine words computes what it computes on numbers, so no operation overflows. It
raises the size of the map or fails, and the room that is left bounds the rounds of the loops
that retry after a full map: those of the recovery, of `Write` and `Erase`, and of `Commit`.
-/

set_option autoImplicit false

namespace Phoenixcoin.Analysis

open Lib Lib.KeyValue Program Option CLMDBTransaction CLMDBEnv

/-! ## Sizes -/

section Sizes

variable {w : ℕ}

variable {a b : SizeT w}

theorem toNat_sizeAdd (h : a.toNat + b.toNat < 2 ^ (16 + w)) :
    ∃ c, SizeT.add a b = some c ∧ c.toNat = a.toNat + b.toNat :=
  ⟨a + b, if_pos h, by rw [BitVec.toNat_add, Nat.mod_eq_of_lt h]⟩

theorem toNat_sizeSub (h : b.toNat ≤ a.toNat) :
    ∃ c, SizeT.sub a b = some c ∧ c.toNat = a.toNat - b.toNat :=
  ⟨a - b, if_pos h, BitVec.toNat_sub_of_le h⟩

theorem toNat_sizeMul (h : a.toNat * b.toNat < 2 ^ (16 + w)) :
    ∃ c, SizeT.mul a b = some c ∧ c.toNat = a.toNat * b.toNat :=
  ⟨a * b, if_pos h, by rw [BitVec.toNat_mul, Nat.mod_eq_of_lt h]⟩

theorem toNat_alignDown (nValue nAlignment : SizeT w) :
    ∃ c, GrowSizes.alignDown nValue nAlignment = some c ∧
      c.toNat = alignDown nValue.toNat nAlignment.toNat := by
  unfold GrowSizes.alignDown alignDown
  by_cases hpos : nAlignment > 0
  · have hpos' : nAlignment.toNat > 0 := by simpa [BitVec.lt_def] using hpos
    rw [if_pos hpos, if_pos hpos']
    have hle : (nValue / nAlignment).toNat * nAlignment.toNat ≤ nValue.toNat := by
      exact Nat.div_mul_le_self nValue.toNat nAlignment.toNat
    obtain ⟨c, hc, hnat⟩ := toNat_sizeMul (hle.trans_lt nValue.isLt)
    exact ⟨c, hc, by rw [hnat, BitVec.toNat_udiv]⟩
  · have hpos' : ¬ nAlignment.toNat > 0 := by simpa [BitVec.lt_def] using hpos
    rw [if_neg hpos, if_neg hpos']
    exact ⟨nValue, rfl, rfl⟩

theorem toNat_two : (2 : SizeT w).toNat = 2 := by
  have hpow : 2 < 2 ^ (16 + w) := by
    calc 2 < 2 ^ 16 := by decide
      _ ≤ 2 ^ (16 + w) := Nat.pow_le_pow_right (by omega) (by omega)
  exact (BitVec.toNat_ofNat 2 (16 + w)).trans (Nat.mod_eq_of_lt hpow)

theorem toNat_doubled (nCurrent nMax : SizeT w) :
    ∃ c, GrowSizes.doubled nCurrent nMax = some c ∧
      c.toNat = if nCurrent.toNat > nMax.toNat / 2 then nMax.toNat else nCurrent.toNat * 2 := by
  unfold GrowSizes.doubled
  have hhalf : nCurrent > nMax / 2 ↔ nCurrent.toNat > nMax.toNat / 2 := by
    rw [gt_iff_lt, BitVec.lt_def, BitVec.toNat_udiv, toNat_two]
  by_cases hlarge : nCurrent.toNat > nMax.toNat / 2
  · rw [if_pos (hhalf.mpr hlarge), if_pos hlarge]
    exact ⟨nMax, rfl, rfl⟩
  · rw [if_neg fun h => hlarge (hhalf.mp h), if_neg hlarge]
    have hsmall : nCurrent.toNat * (2 : SizeT w).toNat < 2 ^ (16 + w) := by
      rw [toNat_two]
      omega
    obtain ⟨c, hc, hnat⟩ := toNat_sizeMul hsmall
    exact ⟨c, hc, by rw [hnat, toNat_two]⟩

/-- The words that `GrowMap` reads are the sizes of the environment. -/
structure SameSizes (env : CLMDBEnv) (sizes : GrowSizes w) : Prop where
  maxSize : sizes.nMaxMapSize.toNat = env.nMaxMapSize
  pageSize : sizes.nPageSize.toNat = env.nPageSize
  current : sizes.nCurrent.toNat = env.nMapSize

theorem toNat_clamp (nMax nCurrent : SizeT w) :
    (if nMax < nCurrent then nCurrent else nMax).toNat = max nMax.toNat nCurrent.toNat := by
  split
  · next hlt =>
    rw [BitVec.lt_def] at hlt
    exact (max_eq_right hlt.le).symm
  · next hge =>
    rw [BitVec.lt_def, not_lt] at hge
    exact (max_eq_left hge).symm

/-- Nothing overflows: on words `GrowMap` asks for the size that it asks for on numbers. -/
theorem toNat_growTarget {env : CLMDBEnv} {sizes : GrowSizes w} (h : SameSizes env sizes) :
    ∃ nTarget, sizes.growTarget = some nTarget ∧ nTarget.map BitVec.toNat = env.growTarget := by
  obtain ⟨nAligned, haligned, hnatAligned⟩ :=
    toNat_alignDown sizes.nMaxMapSize sizes.nPageSize
  have hpage : env.nMapSize < alignDown env.nMaxMapSize env.nPageSize →
      env.nPageSize ≤ alignDown env.nMaxMapSize env.nPageSize := fun hlt =>
    le_alignDown (Nat.zero_lt_of_lt hlt)
  rw [h.maxSize, h.pageSize] at hnatAligned
  rw [GrowSizes.growTarget, growTarget, haligned]
  simp only [bind_eq_bind, bind_some, Option.pure_def]
  have hclamp := toNat_clamp nAligned sizes.nCurrent
  rw [hnatAligned, h.current] at hclamp
  generalize (if nAligned < sizes.nCurrent then sizes.nCurrent else nAligned) = nMax at hclamp ⊢
  rw [← hclamp, ← h.current]
  by_cases hroom : nMax.toNat ≤ sizes.nCurrent.toNat
  · rw [if_pos (BitVec.le_def.mpr hroom), if_pos hroom]
    exact ⟨none, rfl, rfl⟩
  · rw [if_neg fun hle => hroom (BitVec.le_def.mp hle), if_neg hroom]
    have hpageLe : sizes.nPageSize.toNat ≤ nMax.toNat := by
      rw [hclamp] at hroom
      rw [h.pageSize]
      rw [h.current] at hroom
      omega
    obtain ⟨nDouble, hdouble, hnatDouble⟩ := toNat_doubled sizes.nCurrent nMax
    obtain ⟨nTarget, htarget, hnatTarget⟩ := toNat_alignDown nDouble sizes.nPageSize
    rw [hdouble, bind_some, htarget, bind_some, ← hnatDouble, ← h.pageSize, ← hnatTarget]
    by_cases hsame : nTarget.toNat ≤ sizes.nCurrent.toNat
    · obtain ⟨nLast, hlast, hnatLast⟩ := toNat_sizeSub hpageLe
      rw [if_pos (BitVec.le_def.mpr hsame), if_pos hsame, hlast, bind_some, ← hnatLast]
      by_cases hend : nLast.toNat < sizes.nCurrent.toNat
      · rw [if_pos (BitVec.lt_def.mpr hend), if_pos hend]
        exact ⟨some nMax, rfl, rfl⟩
      · rw [if_neg fun hlt => hend (BitVec.lt_def.mp hlt), if_neg hend]
        obtain ⟨nNext, hnext, hnatNext⟩ : ∃ c, SizeT.add sizes.nCurrent sizes.nPageSize = some c ∧
            c.toNat = sizes.nCurrent.toNat + sizes.nPageSize.toNat := toNat_sizeAdd (by omega)
        rw [hnext]
        exact ⟨some nNext, rfl, congrArg some hnatNext⟩
    · rw [if_neg fun hle => hsame (BitVec.le_def.mp hle), if_neg hsame]
      exact ⟨some nTarget, rfl, rfl⟩

end Sizes

theorem dvd_alignDown (nValue : ℕ) {nAlignment : ℕ} (h : nAlignment ≠ 0) :
    nAlignment ∣ alignDown nValue nAlignment := by
  rw [alignDown, if_pos (Nat.pos_of_ne_zero h)]
  exact Nat.dvd_mul_left nAlignment _

/-- A map of whole pages stays one. -/
theorem growTarget_aligned {env : CLMDBEnv} {nTarget : ℕ} (hpage : env.nPageSize ≠ 0)
    (h : env.growTarget = some nTarget) (haligned : env.nPageSize ∣ env.nMapSize) :
    env.nPageSize ∣ nTarget := by
  have hmax : env.nPageSize ∣ max (alignDown env.nMaxMapSize env.nPageSize)
      env.nMapSize := by
    rcases max_choice (alignDown env.nMaxMapSize env.nPageSize) env.nMapSize with heq | heq
    · rw [heq]
      exact dvd_alignDown env.nMaxMapSize hpage
    · rw [heq]
      exact haligned
  unfold growTarget at h
  dsimp only at h
  generalize max (alignDown env.nMaxMapSize env.nPageSize) env.nMapSize = nMax at h hmax
  generalize (if env.nMapSize > nMax / 2 then nMax else env.nMapSize * 2) = nDouble at h
  split at h
  · cases h
  · split at h
    · split at h
      · cases h
        exact hmax
      · cases h
        exact Nat.dvd_add haligned (Nat.dvd_refl env.nPageSize)
    · cases h
      exact dvd_alignDown nDouble hpage

/-- At the maximum, and only there, is there nothing to ask for. -/
theorem growTarget_eq_none_iff (env : CLMDBEnv) :
    env.growTarget = none ↔
      alignDown env.nMaxMapSize env.nPageSize ≤ env.nMapSize := by
  unfold growTarget
  dsimp only
  constructor
  · intro h
    by_contra hroom
    rw [if_neg (by omega)] at h
    generalize (if env.nMapSize > max _ env.nMapSize / 2 then max _ env.nMapSize
      else env.nMapSize * 2) = nDouble at h
    split at h
    · split at h <;> cases h
    · cases h
  · intro h
    rw [max_eq_right h, if_pos le_rfl]

/-! ## One growth -/

section Growth

variable {w : ℕ}

/-- The map has grown: it is larger, of whole pages if it was, and within the maximum. -/
structure SizesGrown (sizes sizes' : GrowSizes w) : Prop where
  larger : sizes.nCurrent < sizes'.nCurrent
  aligned : sizes.nPageSize.toNat ∣ sizes.nCurrent.toNat →
    sizes.nPageSize.toNat ∣ sizes'.nCurrent.toNat
  bounded : sizes'.nCurrent.toNat ≤
    sizes.nMaxMapSize.toNat / sizes.nPageSize.toNat * sizes.nPageSize.toNat
  rest : sizes' = { sizes with nCurrent := sizes'.nCurrent }

variable (sizes : GrowSizes w)

def envOfSizes : CLMDBEnv where
  contents := ∅
  fOpen := true
  fReadOnly := false
  fAutoGrow := true
  nMaxMapSize := sizes.nMaxMapSize.toNat
  nMapSize := sizes.nCurrent.toNat
  nPageSize := sizes.nPageSize.toNat
  nCalls := 0
  nMapFullLogs := 0

theorem envOfSizes_same : SameSizes (envOfSizes sizes) sizes :=
  ⟨rfl, rfl, rfl⟩

theorem mdbEnvSetMapSize_larger {sizes : GrowSizes w} {nSize : SizeT w}
    (hused : sizes.nUsed ≤ sizes.nCurrent) (hlarger : sizes.nCurrent < nSize) :
    sizes.mdbEnvSetMapSize nSize = { sizes with nCurrent := nSize } := by
  unfold GrowSizes.mdbEnvSetMapSize
  rw [BitVec.le_def] at hused
  rw [BitVec.lt_def] at hlarger
  have hkeep : ¬ nSize < sizes.nUsed := by
    rw [BitVec.lt_def]
    omega
  rw [if_neg hkeep]

theorem pageSize_ne_zero_iff :
    sizes.nPageSize ≠ 0 ↔ sizes.nPageSize.toNat ≠ 0 := by
  rw [ne_eq, ← BitVec.toNat_inj]
  rfl

/-- On words `GrowMap` grows the map to the size for which it asks on numbers. -/
theorem growMap_words {env : CLMDBEnv} {sizes : GrowSizes w} (h : SameSizes env sizes)
    (hpage : env.nPageSize ≠ 0) (hused : sizes.nUsed ≤ sizes.nCurrent) {nTarget : ℕ}
    (htarget : env.growTarget = some nTarget) :
    ∃ sizes', sizes.growMap = some (some sizes') ∧ SizesGrown sizes sizes' ∧
      sizes'.nCurrent.toNat = nTarget := by
  obtain ⟨target, hgrow, hnat⟩ := toNat_growTarget h
  rw [htarget] at hnat
  obtain ⟨size, rfl, hsize⟩ := map_eq_some_iff.mp hnat
  obtain ⟨hlarger, hbounded⟩ := growTarget_spec hpage htarget
  have haligned := growTarget_aligned hpage htarget
  rw [← h.pageSize] at hpage
  have hless : sizes.nCurrent < size := by
    rw [BitVec.lt_def, hsize, h.current]
    exact hlarger
  refine ⟨{ sizes with nCurrent := size }, ?_, ⟨hless, ?_, ?_, rfl⟩, hsize⟩
  · rw [GrowSizes.growMap, if_neg ((pageSize_ne_zero_iff sizes).mpr hpage), hgrow]
    exact congrArg (fun sizes => some (some sizes)) (mdbEnvSetMapSize_larger hused hless)
  · rw [h.pageSize, h.current]
    exact hsize ▸ haligned
  · rw [h.maxSize, h.pageSize]
    have halign : alignDown env.nMaxMapSize env.nPageSize =
        env.nMaxMapSize / env.nPageSize * env.nPageSize :=
      if_pos (Nat.pos_of_ne_zero (h.pageSize ▸ hpage))
    rw [← halign]
    exact hsize ▸ hbounded

/-- `GrowMap` overflows nowhere; it grows the map, or it fails, and at the maximum it fails. -/
theorem growMap_words_ends (hused : sizes.nUsed ≤ sizes.nCurrent) :
    ∃ result, sizes.growMap = some result ∧ (∀ sizes' ∈ result, SizesGrown sizes sizes') ∧
      (result = none ↔ sizes.nPageSize = 0 ∨
        sizes.nMaxMapSize.toNat / sizes.nPageSize.toNat * sizes.nPageSize.toNat ≤
          sizes.nCurrent.toNat) := by
  by_cases hpage : sizes.nPageSize = 0
  · refine ⟨none, if_pos hpage, ?_, fun _ => Or.inl hpage, fun _ => rfl⟩
    intro sizes' hmem
    cases hmem
  · have hpage' := (pageSize_ne_zero_iff sizes).mp hpage
    have halign : alignDown sizes.nMaxMapSize.toNat sizes.nPageSize.toNat =
        sizes.nMaxMapSize.toNat / sizes.nPageSize.toNat * sizes.nPageSize.toNat :=
      if_pos (Nat.pos_of_ne_zero hpage')
    have hnone : (envOfSizes sizes).growTarget = none ↔
        alignDown sizes.nMaxMapSize.toNat sizes.nPageSize.toNat ≤ sizes.nCurrent.toNat :=
      growTarget_eq_none_iff (envOfSizes sizes)
    rw [or_iff_right hpage, ← halign, ← hnone]
    cases htarget : (envOfSizes sizes).growTarget with
    | some nTarget =>
      obtain ⟨sizes', hgrow, hgrown, -⟩ :=
        growMap_words (envOfSizes_same sizes) hpage' hused htarget
      refine ⟨some sizes', hgrow, ?_, ?_⟩
      · intro sizes'' hmem
        cases hmem
        exact hgrown
      · simp
    | none =>
      obtain ⟨target, hgrow, hnat⟩ := toNat_growTarget (envOfSizes_same sizes)
      rw [htarget, map_eq_none_iff] at hnat
      subst hnat
      refine ⟨none, ?_, ?_, ?_⟩
      · rw [GrowSizes.growMap, if_neg hpage, hgrow]
        rfl
      · intro sizes' hmem
        cases hmem
      · simp

end Growth

/-! ## The loops -/

section Loops

variable (outcomes : ℕ → MdbOutcome)

/-- One round of `RecoverFromMapFull`. -/
def recoverRound (s : CLMDBTransaction) : Bool × CLMDBTransaction ⊕ CLMDBTransaction :=
  let s := { s with txn := none, fLeaseHeld := false }
  let (fGrown, env) := s.env.growMap outcomes
  if ¬ fGrown then .inl (false, { s with env := env.logMapFullOnce })
  else
    match env.mdbTxnBegin outcomes false with
    | (none, env) => .inl (false, { s with env := env })
    | (some newTxn, env) =>
      match replayMutations outcomes s.mutations newTxn env with
      | (.success, txn, env) =>
        .inl (true, { s with txn := some txn, env := env, fLeaseHeld := true })
      | (.mapFull, txn, env) => .inr { s with txn := some txn, env := env, fLeaseHeld := true }
      | (_, _, env) => .inl (false, { s with env := env })

/-- One round of `Write` and `Erase`. -/
def mutateRound (m : Mutation) (s : CLMDBTransaction) :
    Bool × CLMDBTransaction ⊕ CLMDBTransaction :=
  match s.txn with
  | none => .inl (false, s)
  | some txn =>
    let (ret, txn) := m.call (outcomes s.env.nCalls) txn
    let s := { s with txn := some txn, env := s.env.tick }
    if m.applied ret then .inl (true, s.record m)
    else if ret ≠ .mapFull then .inl (false, s)
    else
      match s.recoverFromMapFull outcomes with
      | (true, s) => .inr s
      | (false, s) => .inl (false, s.logMapFullOnce)

/-- One round of `Commit` after a commit that ended with a code. -/
def commitRound (p : MdbCode × CLMDBTransaction) :
    MdbCode × CLMDBTransaction ⊕ MdbCode × CLMDBTransaction :=
  if p.1 = .mapFull ∧ ¬ p.2.fReadOnly then
    match p.2.recoverFromMapFull outcomes with
    | (false, s) => .inl (p.1, s)
    | (true, s) =>
      match s.txn with
      | none => .inl (p.1, s)
      | some txn => .inr (s.commitTxn outcomes txn)
  else .inl p

theorem recoverLoop_succ (fuel : ℕ) (s : CLMDBTransaction) :
    s.recoverLoop outcomes (fuel + 1) =
      (recoverRound outcomes s).elim id fun s => s.recoverLoop outcomes fuel := by
  rw [recoverRound, recoverLoop]
  dsimp only
  generalize s.env.growMap outcomes = grow
  obtain ⟨fGrown, env⟩ := grow
  cases fGrown with
  | false => rfl
  | true =>
    generalize env.mdbTxnBegin outcomes false = started
    obtain ⟨newTxn, env⟩ := started
    cases newTxn with
    | none => rfl
    | some newTxn =>
      dsimp only
      generalize replayMutations outcomes s.mutations newTxn env = replay
      obtain ⟨ret, txn, env⟩ := replay
      cases ret <;> rfl

theorem mutateLoop_succ (m : Mutation) (fuel : ℕ) (s : CLMDBTransaction) :
    s.mutateLoop outcomes m (fuel + 1) =
      (mutateRound outcomes m s).elim id fun s => s.mutateLoop outcomes m fuel := by
  rw [mutateRound, mutateLoop]
  cases htxn : s.txn with
  | none => rfl
  | some txn =>
    dsimp only
    split
    · rfl
    · split
      · rfl
      · generalize recoverFromMapFull outcomes _ = r
        obtain ⟨fRecovered, s⟩ := r
        cases fRecovered <;> rfl

theorem commitLoop_succ (fuel : ℕ) (p : MdbCode × CLMDBTransaction) :
    p.2.commitLoop outcomes (fuel + 1) p.1 =
      (commitRound outcomes p).elim id fun p => p.2.commitLoop outcomes fuel p.1 := by
  rw [commitRound, commitLoop]
  split
  · generalize p.2.recoverFromMapFull outcomes = r
    obtain ⟨fRecovered, s⟩ := r
    cases fRecovered with
    | false => rfl
    | true =>
      dsimp only
      cases htxn : s.txn <;> rfl
  · rfl

variable {outcomes}

theorem replayMutations_room (mutations : List Mutation) :
    ∀ (txn : MdbTxn) (env : CLMDBEnv),
      (replayMutations outcomes mutations txn env).2.2.room = env.room := by
  induction mutations with
  | nil => exact fun _ _ => rfl
  | cons m mutations ih =>
    intro txn env
    unfold replayMutations
    dsimp only
    split
    · exact ih _ _
    · rfl

variable {s s' : CLMDBTransaction}

/-- A recovery that goes on with a new transaction has grown the map. -/
theorem recoverRound_room
    (h : recoverRound outcomes s = .inr s' ∨ recoverRound outcomes s = .inl (true, s')) :
    s'.env.room < s.env.room := by
  unfold recoverRound at h
  dsimp only at h
  cases hgrow : s.env.growMap outcomes with
  | mk fGrown env =>
  rw [hgrow] at h
  cases fGrown with
  | false => simp at h
  | true =>
    obtain ⟨-, hroom⟩ := growMap_true hgrow
    unfold mdbTxnBegin at h
    by_cases hbegin : outcomes env.nCalls ≠ .success
    · rw [if_pos hbegin] at h
      simp at h
    · rw [if_neg hbegin] at h
      dsimp only at h
      have hreplay : (replayMutations outcomes s.mutations
          ⟨env.contents, false, false⟩ env.tick).2.2.room = env.tick.room :=
        replayMutations_room _ _ _
      generalize replayMutations outcomes s.mutations
        ⟨env.contents, false, false⟩ env.tick = replay at h hreplay
      obtain ⟨ret, txn, env'⟩ := replay
      have hless : env'.room < s.env.room := hreplay.trans_lt hroom
      cases ret with
      | success =>
        rcases h with h | h
        · cases h
        · cases h
          exact hless
      | mapFull =>
        rcases h with h | h
        · cases h
          exact hless
        · cases h
      | notFound => simp at h
      | keyExist => simp at h
      | other => simp at h

theorem recoverLoop_room (fuel : ℕ) (h : s.recoverLoop outcomes fuel = (true, s')) :
    s'.env.room < s.env.room := by
  induction fuel generalizing s with
  | zero => cases h
  | succ fuel ih =>
    rw [recoverLoop_succ] at h
    cases hround : recoverRound outcomes s with
    | inl r =>
      rw [hround] at h
      have hr : r = (true, s') := h
      exact recoverRound_room (Or.inr (hr ▸ hround))
    | inr mid =>
      rw [hround] at h
      exact (ih h).trans (recoverRound_room (Or.inl hround))

theorem recoverFromMapFull_room (h : s.recoverFromMapFull outcomes = (true, s')) :
    s'.env.room < s.env.room := by
  unfold recoverFromMapFull at h
  split at h
  · cases h
  · split at h
    · cases h
    · exact recoverLoop_room _ h

theorem mutateRound_room {m : Mutation} (h : mutateRound outcomes m s = .inr s') :
    s'.env.room < s.env.room := by
  unfold mutateRound at h
  cases htxn : s.txn with
  | none =>
    rw [htxn] at h
    cases h
  | some txn =>
    rw [htxn] at h
    dsimp only at h
    split at h
    · cases h
    · split at h
      · cases h
      · cases hrecover : recoverFromMapFull outcomes
            { s with
              txn := some (m.call (outcomes s.env.nCalls) txn).2
              env := s.env.tick } with
        | mk fRecovered s'' =>
        rw [hrecover] at h
        cases fRecovered with
        | false => cases h
        | true =>
          cases h
          have hless := recoverFromMapFull_room hrecover
          exact hless

theorem commitRound_room {p p' : MdbCode × CLMDBTransaction}
    (h : commitRound outcomes p = .inr p') : p'.2.env.room < p.2.env.room := by
  unfold commitRound at h
  split at h
  · cases hrecover : p.2.recoverFromMapFull outcomes with
    | mk fRecovered s =>
    rw [hrecover] at h
    cases fRecovered with
    | false => cases h
    | true =>
      dsimp only at h
      cases htxn : s.txn with
      | none =>
        rw [htxn] at h
        cases h
      | some txn =>
        rw [htxn] at h
        cases h
        change s.env.room < p.2.env.room
        exact recoverFromMapFull_room hrecover
  · cases h

/-- Each loop ends, after no more rounds than the map has room to grow and one, and the fuel that
it has is enough. -/
theorem retryLoops_end (s : CLMDBTransaction) :
    (∃ n r, n ≤ s.env.room + 1 ∧ LoopEnds (recoverRound outcomes) n s r ∧
      s.recoverLoop outcomes (s.env.room + 1) = r) ∧
    (∀ m, ∃ n r, n ≤ s.env.room + 1 ∧ LoopEnds (mutateRound outcomes m) n s r ∧
      s.mutateLoop outcomes m (s.env.room + 1) = r) ∧
    ∀ ret, ∃ n r, n ≤ s.env.room + 1 ∧ LoopEnds (commitRound outcomes) n (ret, s) r ∧
      s.commitLoop outcomes (s.env.room + 1) ret = r := by
  refine ⟨?_, fun m => ?_, fun ret => ?_⟩
  · obtain ⟨n, r, hn, hends⟩ := LoopEnds.of_measure
      (fun s : CLMDBTransaction => s.env.room) (fun s s' h => recoverRound_room (Or.inl h)) s
    exact ⟨n, r, hn, hends, hends.run_eq (recoverLoop_succ outcomes) hn⟩
  · obtain ⟨n, r, hn, hends⟩ := LoopEnds.of_measure
      (fun s : CLMDBTransaction => s.env.room) (fun s s' h => mutateRound_room (m := m) h) s
    exact ⟨n, r, hn, hends, hends.run_eq (mutateLoop_succ outcomes m) hn⟩
  · obtain ⟨n, r, hn, hends⟩ := LoopEnds.of_measure
      (fun p : MdbCode × CLMDBTransaction => p.2.env.room) (fun p p' h => commitRound_room h)
      (ret, s)
    exact ⟨n, r, hn, hends, @LoopEnds.run_eq _ _ _
      (fun fuel p => p.2.commitLoop outcomes fuel p.1) (commitLoop_succ outcomes) _ _ _ hends _ hn⟩

end Loops

/-- Growing the map makes progress: the arithmetic overflows nowhere; the map gets larger, keeps to
whole pages and to the maximum, or the call fails, as it does at the maximum; what the model of
the environment does on numbers is what happens on words; and so every loop that retries ends,
whichever calls of LMDB find the map full. -/
theorem growMap_progress :
    (∀ (w : ℕ) (sizes : GrowSizes w), sizes.nUsed ≤ sizes.nCurrent →
      ∃ result, sizes.growMap = some result ∧ (∀ sizes' ∈ result, SizesGrown sizes sizes') ∧
        (result = none ↔ sizes.nPageSize = 0 ∨
          sizes.nMaxMapSize.toNat / sizes.nPageSize.toNat * sizes.nPageSize.toNat ≤
            sizes.nCurrent.toNat)) ∧
    (∀ (outcomes : ℕ → MdbOutcome) (env env' : CLMDBEnv), env.growMap outcomes = (true, env') →
      env.nMapSize < env'.nMapSize ∧ env'.room < env.room ∧
        ∀ (w : ℕ) (sizes : GrowSizes w), SameSizes env sizes → sizes.nUsed ≤ sizes.nCurrent →
          ∃ sizes', sizes.growMap = some (some sizes') ∧ SameSizes env' sizes') ∧
    ∀ (outcomes : ℕ → MdbOutcome) (s : CLMDBTransaction),
      (∃ n r, n ≤ s.env.room + 1 ∧ LoopEnds (recoverRound outcomes) n s r ∧
        s.recoverLoop outcomes (s.env.room + 1) = r) ∧
      (∀ m, ∃ n r, n ≤ s.env.room + 1 ∧ LoopEnds (mutateRound outcomes m) n s r ∧
        s.mutateLoop outcomes m (s.env.room + 1) = r) ∧
      ∀ ret, ∃ n r, n ≤ s.env.room + 1 ∧ LoopEnds (commitRound outcomes) n (ret, s) r ∧
        s.commitLoop outcomes (s.env.room + 1) ret = r := by
  refine ⟨fun w sizes hused => growMap_words_ends sizes hused, ?_,
    fun outcomes s => retryLoops_end s⟩
  intro outcomes env env' hgrow
  obtain ⟨nTarget, hpage, htarget, rfl⟩ := growMap_eq_true hgrow
  refine ⟨(growTarget_spec hpage htarget).1, (growMap_true hgrow).2, ?_⟩
  intro w sizes hsame hused
  obtain ⟨sizes', hwords, hgrown, hnat⟩ := growMap_words hsame hpage hused htarget
  rw [hgrown.rest] at hwords
  exact ⟨_, hwords, hsame.maxSize, hsame.pageSize, hnat⟩

/-- A map of two pages of which one is used. -/
def twoPages : GrowSizes 64 := ⟨1048576, 4096, 8192, 4096⟩

/-- The map of two pages grows, on words and on numbers. -/
theorem growMap_progress_twoPages :
    (∃ sizes', twoPages.growMap = some (some sizes') ∧ SizesGrown twoPages sizes') ∧
      (envOfSizes twoPages).nMapSize <
        ((envOfSizes twoPages).growMap fun _ => .success).2.nMapSize := by
  have hused : twoPages.nUsed ≤ twoPages.nCurrent := by decide
  have hgrow : (envOfSizes twoPages).growMap (fun _ => .success) =
      (true, ((envOfSizes twoPages).growMap fun _ => .success).2) := Prod.ext (by decide) rfl
  obtain ⟨hless, -, hwords⟩ := growMap_progress.2.1 _ _ _ hgrow
  obtain ⟨sizes', hsizes, -⟩ := hwords 64 twoPages ⟨rfl, rfl, rfl⟩ hused
  obtain ⟨result, hresult, hgrown, -⟩ := growMap_progress.1 64 twoPages hused
  cases hsizes.symm.trans hresult
  exact ⟨⟨sizes', hsizes, hgrown sizes' rfl⟩, hless⟩

end Phoenixcoin.Analysis
