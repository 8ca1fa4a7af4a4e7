import Phoenixcoin.Analysis.ScriptRuns
import Phoenixcoin.Program.ScriptForms

/-!
# Pushed vectors are read back

`GetOp2` never looks behind the end of a script. It reads back what `operator<<` appends unless what
is left of the script comes, in 32 bits, to less than the next vector.
-/

set_option autoImplicit false

namespace Phoenixcoin.Analysis

open Program List Option

variable {script rest : CScript} {v : valtype} {vs : List valtype} {pc : ℕ}

/-- What the comparison in 32 bits makes of an instruction that `GetOp` reads. -/
def truncated (script : CScript) (read : opcodetype × valtype × CScript) :
    Option (opcodetype × valtype × ℕ) :=
  if (read.2.1.length + read.2.2.length) % 2 ^ 32 < read.2.1.length then none
  else some (read.1, read.2.1, script.length - read.2.2.length)

theorem bytesAt_eq {n : ℕ} (h : n ≤ (script.drop pc).length) (hpc : pc ≤ script.length) :
    bytesAt script pc n = some ((script.drop pc).take n) := by
  rw [length_drop] at h
  exact if_pos (by omega)

/-- The size bytes are read where `operandSize` reads them. -/
theorem sizeAt_eq (hpc : pc ≤ script.length) (nBytes : ℕ) :
    sizeAt script pc nBytes = some (if (script.drop pc).length < nBytes then none
      else some (ofLittleEndian ((script.drop pc).take nBytes), pc + nBytes)) := by
  rw [sizeAt, ← length_drop]
  split_ifs with hshort
  · rfl
  · rw [bytesAt_eq (not_lt.mp hshort) hpc]
    rfl

theorem operandSize_suffix {opcode : opcodetype} {suffix : CScript} {nSize : ℕ}
    (h : operandSize opcode suffix = some (nSize, rest)) : rest <:+ suffix := by
  unfold operandSize at h
  generalize (if opcode = OP_PUSHDATA1 then 1 else if opcode = OP_PUSHDATA2 then 2 else 4) =
    nBytes at h
  dsimp only at h
  split_ifs at h
  · cases h
    exact suffix_rfl
  · cases h
    exact drop_suffix _ _

/-- A position stands for the suffix behind it. -/
theorem GetOp2_eq (script : CScript) (pc : ℕ) :
    GetOp2 script pc = some ((GetOp (script.drop pc)).bind (truncated script)) := by
  unfold GetOp2
  by_cases hend : pc ≥ script.length
  · rw [if_pos hend, drop_eq_nil_of_le hend]
    rfl
  · have hlt := not_le.mp hend
    rw [if_neg hend, drop_eq_getElem_cons hlt, getElem?_eq_getElem hlt, GetOp]
    dsimp only [bind_eq_bind, bind_some]
    generalize script[pc] = opcode
    have hnext : pc + 1 ≤ script.length := hlt
    by_cases hpush : opcode ≤ OP_PUSHDATA4
    · rw [if_pos hpush, if_pos hpush]
      have hoperand : (if opcode < OP_PUSHDATA1 then some (some (opcode.toNat, pc + 1))
          else if opcode = OP_PUSHDATA1 then sizeAt script (pc + 1) 1
          else if opcode = OP_PUSHDATA2 then sizeAt script (pc + 1) 2
          else sizeAt script (pc + 1) 4) =
          some ((operandSize opcode (script.drop (pc + 1))).map fun operand =>
            (operand.1, script.length - operand.2.length)) := by
        unfold operandSize
        simp only [sizeAt_eq hnext, length_drop]
        split_ifs <;> simp only [map_none, map_some, length_drop] <;> congr <;> omega
      rw [hoperand]
      cases hsize : operandSize opcode (script.drop (pc + 1)) with
      | none => rfl
      | some operand =>
        obtain ⟨nSize, rest⟩ := operand
        have hsuffix := (operandSize_suffix hsize).trans (drop_suffix (pc + 1) script)
        have hdrop := suffix_iff_eq_drop.mp hsuffix
        have hle := hsuffix.length_le
        dsimp only [bind_some, map_some]
        have hleft : script.length - (script.length - rest.length) = rest.length := by omega
        rw [hleft]
        by_cases hshort : rest.length < nSize
        · rw [if_pos hshort, if_pos (Or.inr (by omega))]
          rfl
        · have htake : (rest.take nSize).length = nSize := by
            rw [length_take]
            omega
          have hsum : nSize + (rest.drop nSize).length = rest.length := by
            rw [length_drop]
            omega
          rw [if_neg hshort, bind_some, truncated]
          dsimp only
          rw [htake, hsum]
          by_cases htrunc : rest.length % 2 ^ 32 < nSize
          · rw [if_pos htrunc, if_pos (Or.inr htrunc)]
          · rw [if_neg htrunc, if_neg (by omega), bytesAt_eq (by rw [← hdrop]; omega) (by omega),
              ← hdrop, bind_some]
            congr 4
            omega
    · rw [if_neg hpush, if_neg hpush]
      have hlength := length_drop (i := pc + 1) (l := script)
      unfold truncated
      dsimp only [bind_some, length_nil]
      rw [if_neg (Nat.not_lt_zero _)]
      congr
      omega

theorem GetOp2_isSome (script : CScript) (pc : ℕ) : (GetOp2 script pc).isSome = true := by
  rw [GetOp2_eq]
  rfl

/-! ## The round trip -/

/-- From a position on, these vectors are read, and then the end of the script. -/
def ReadsTo (script : CScript) : ℕ → List valtype → Prop
  | pc, [] => pc = script.length
  | pc, v :: vs => ∃ opcode pc', GetOp2 script pc = some (some (opcode, v, pc')) ∧
      ReadsTo script pc' vs

/-- What becomes of vectors that are pushed. -/
structure PushesRoundTrip (vs : List valtype) : Prop where
  reads : ReadsTo (PushAll vs) 0 vs
  pushOnly : isPushOnlyAt (PushAll vs) (PushAll vs).length 0 = some true
  evaluates : ∀ C txTo nIn nHashType checks, vs.length ≤ 1000 →
    (∀ v ∈ vs, v.length ≤ MAX_SCRIPT_ELEMENT_SIZE) → (PushAll vs).length ≤ MAX_SCRIPT_SIZE →
    EvalScript C txTo nIn nHashType [] (PushAll vs) checks = .ok (vs.reverse, checks)

/-- What is left of the script seems long enough for every vector. -/
def SizesSeen : List valtype → Prop
  | [] => True
  | v :: vs => v.length ≤ (v.length + (PushAll vs).length) % 2 ^ 32 ∧ SizesSeen vs

theorem GetOp2_push {pre : CScript} (hv : v.length < 2 ^ 32)
    (hscript : script = pre ++ PushAll (v :: vs)) :
    ∃ opcode ≤ OP_PUSHDATA4, GetOp2 script pre.length = some (
      if (v.length + (PushAll vs).length) % 2 ^ 32 < v.length then none
      else some (opcode, v, (pre ++ pushData v).length)) := by
  obtain ⟨opcode, hle, hget⟩ := GetOp_pushData (PushAll vs) (v := v) (hv.trans_eq (by norm_num))
  refine ⟨opcode, hle, ?_⟩
  have hcode : PushAll (v :: vs) = pushData v ++ PushAll vs := flatMap_cons
  rw [GetOp2_eq, hscript, drop_left, hcode, hget, bind_some, truncated]
  rw [← append_assoc, length_append, Nat.add_sub_cancel]

section

variable (pre : CScript) (hlt : ∀ v ∈ vs, v.length < 2 ^ 32) (hscript : script = pre ++ PushAll vs)
include pre hlt hscript

theorem readsTo_iff : ReadsTo script pre.length vs ↔ SizesSeen vs := by
  induction vs generalizing pre with
  | nil =>
    rw [hscript]
    exact iff_of_true (congrArg length (append_nil pre)).symm trivial
  | cons v vs ih =>
    obtain ⟨opcode, -, hget⟩ := GetOp2_push (hlt v mem_cons_self) hscript
    have hmore := ih (pre ++ pushData v) (fun w hw => hlt w (mem_cons_of_mem _ hw))
      (by rw [hscript, append_assoc]; rfl)
    rw [ReadsTo, SizesSeen, hget, ← hmore, ← not_lt]
    split_ifs with hshort
    · refine iff_of_false (fun h => ?_) fun h => h.1 hshort
      obtain ⟨_, _, hnone, -⟩ := h
      cases hnone
    · constructor
      · intro h
        obtain ⟨_, _, hsome, hrest⟩ := h
        cases hsome
        exact ⟨hshort, hrest⟩
      · exact fun h => ⟨opcode, _, rfl, h.2⟩

theorem isPushOnlyAt_of_sizesSeen {fuel : ℕ} (hseen : SizesSeen vs) :
    isPushOnlyAt script fuel pre.length = some true := by
  induction fuel generalizing pre vs with
  | zero => rfl
  | succ fuel ih =>
    unfold isPushOnlyAt
    split_ifs with hend
    · rfl
    · cases vs with
      | nil =>
        rw [hscript] at hend
        exact absurd (congrArg length (append_nil pre)).le hend
      | cons v vs =>
        obtain ⟨opcode, hle, hget⟩ := GetOp2_push (hlt v mem_cons_self) hscript
        rw [hget, if_neg (not_lt.mpr hseen.1)]
        dsimp only [bind_eq_bind, bind_some]
        rw [if_neg (UInt8.not_lt.mpr (UInt8.le_trans hle (by decide)))]
        exact ih (pre ++ pushData v) (fun w hw => hlt w (mem_cons_of_mem _ hw))
          (by rw [hscript, append_assoc]; rfl) hseen.2

end

/-- Pushed vectors are read back exactly when what is left of the script never seems too short. -/
theorem pushesRoundTrip_iff (hlt : ∀ v ∈ vs, v.length < 2 ^ 32) :
    PushesRoundTrip vs ↔ SizesSeen vs := by
  refine ⟨fun h => (readsTo_iff [] hlt rfl).mp h.reads, fun h => ?_⟩
  refine ⟨(readsTo_iff [] hlt rfl).mpr h, isPushOnlyAt_of_sizesSeen [] hlt rfl h, ?_⟩
  intro C txTo nIn nHashType checks hcount hsizes hlength
  have hpushes := pushesTo_PushAll [] hsizes
  rw [append_nil] at hpushes
  rw [EvalScript_pushes C txTo nIn nHashType [] checks hpushes hlength
    (by rw [length_nil, Nat.zero_add]; exact hcount), append_nil]

theorem sizesSeen_of_length (h : (PushAll vs).length < 2 ^ 32) :
    SizesSeen vs ∧ ∀ v ∈ vs, v.length < 2 ^ 32 := by
  induction vs with
  | nil => exact ⟨trivial, nofun⟩
  | cons v vs ih =>
    have hcode : PushAll (v :: vs) = pushData v ++ PushAll vs := flatMap_cons
    have hv := length_le_pushData v
    rw [hcode, length_append] at h
    obtain ⟨hseen, hlt⟩ := ih (by omega)
    refine ⟨⟨?_, hseen⟩, forall_mem_cons.mpr ⟨by omega, hlt⟩⟩
    rw [Nat.mod_eq_of_lt (by omega)]
    exact Nat.le_add_right _ _

/-- No script makes `GetOp2` look behind its end, and pushed vectors are read back if their script
has less than 4 GiB. -/
theorem pushesRoundTrip_of_length (script : CScript) (pc : ℕ) (vs : List valtype)
    (hlength : (PushAll vs).length < 2 ^ 32) :
    (GetOp2 script pc).isSome = true ∧ PushesRoundTrip vs := by
  obtain ⟨hseen, hlt⟩ := sizesSeen_of_length hlength
  exact ⟨GetOp2_isSome script pc, (pushesRoundTrip_iff hlt).mpr hseen⟩

theorem pushesRoundTrip_sample :
    (GetOp2 [0x4c] 0).isSome = true ∧ PushesRoundTrip [[1], replicate 80 7, []] :=
  pushesRoundTrip_of_length [0x4c] 0 [[1], replicate 80 7, []] (by decide)

/-- These two make what is left behind the second size just as long as 32 bits can count. -/
theorem not_sizesSeen_pair {u v : valtype} (hu : u.length = 10) (hv : v.length = 2 ^ 32 - 15) :
    ¬ SizesSeen [u, v] := by
  intro h
  have hseen := h.1
  have hpush : (PushAll [v]).length = 5 + v.length := by
    rw [PushAll, flatMap_cons, flatMap_nil, append_nil, pushData]
    rw [if_neg (by omega), if_neg (by omega), if_neg (by omega), length_append,
      length_cons, length_toLittleEndian]
  omega

/-- The second vector is 15 bytes short of what 32 bits can count. -/
def longPushes : List valtype := [replicate 10 0, replicate (2 ^ 32 - 15) 0]

theorem pushesRoundTrip_longPushes :
    (∀ v ∈ longPushes, v.length < 2 ^ 32) ∧ ¬ PushesRoundTrip longPushes := by
  have hshort : (replicate 10 0 : valtype).length = 10 := length_replicate
  have hlong : (replicate (2 ^ 32 - 15) 0 : valtype).length = 2 ^ 32 - 15 :=
    length_replicate
  have hlt : ∀ v ∈ longPushes, v.length < 2 ^ 32 := by
    intro v hv
    rcases mem_pair.mp hv with rfl | rfl
    · rw [hshort]
      norm_num
    · rw [hlong]
      norm_num
  exact ⟨hlt, fun h => not_sizesSeen_pair hshort hlong ((pushesRoundTrip_iff hlt).mp h)⟩

end Phoenixcoin.Analysis
