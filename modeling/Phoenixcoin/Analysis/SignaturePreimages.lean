import Phoenixcoin.Lib.Unambiguous
import Phoenixcoin.Program.EvalScript

/-!
# What a signature commits to

The preimage of a signature hash is the transaction with the scripts of its inputs blanked, written
in full, and the hash type. Both can be read off the preimage, so a signature for all outputs fixes
everything that is not blanked, and the input it was made for unless its script code is empty.
-/

set_option autoImplicit false

namespace Phoenixcoin.Analysis

open Lib Program List

/-! ## Compact sizes -/

def sizeMark (nSize : ℕ) : ℕ :=
  if nSize < 253 then nSize else if nSize ≤ 0xFFFF then 253 else if nSize ≤ 0xFFFFFFFF then 254
  else 255

def markWidth (chSize : ℕ) : ℕ :=
  if chSize < 253 then 0 else if chSize = 253 then 2 else if chSize = 254 then 4 else 8

theorem WriteCompactSize_eq (nSize : ℕ) :
    WriteCompactSize nSize =
      UInt8.ofNat (sizeMark nSize) :: toLittleEndian (markWidth (sizeMark nSize)) nSize := by
  unfold WriteCompactSize sizeMark
  split_ifs with h1 h2 h3
  · rw [toLittleEndian_one (by omega), markWidth, if_pos h1]
    rfl
  all_goals rfl

theorem sizeMark_lt (nSize : ℕ) : sizeMark nSize < 256 := by
  unfold sizeMark
  split_ifs <;> omega

theorem sizeMark_cases {nSize : ℕ} (h : nSize < 2 ^ 64) :
    sizeMark nSize = nSize ∧ nSize < 253 ∨
      253 ≤ sizeMark nSize ∧ nSize < 256 ^ markWidth (sizeMark nSize) := by
  unfold sizeMark
  split_ifs with h1 h2 h3
  · exact Or.inl ⟨rfl, h1⟩
  all_goals
    norm_num [markWidth]
    omega

theorem unambiguous_WriteCompactSize : Unambiguous WriteCompactSize (· < 2 ^ 64) := by
  intro n m r s hn hm heq
  rw [WriteCompactSize_eq, WriteCompactSize_eq, cons_append] at heq
  obtain ⟨hmark, hrest⟩ := List.cons.inj heq
  have hmark : sizeMark n = sizeMark m := by
    have hnat := congrArg UInt8.toNat hmark
    rwa [UInt8.toNat_ofNat_of_lt' (sizeMark_lt n), UInt8.toNat_ofNat_of_lt' (sizeMark_lt m)] at hnat
  rw [hmark] at hrest
  obtain ⟨hbytes, hend⟩ := append_inj hrest (by simp)
  refine ⟨?_, hend⟩
  have hcases := sizeMark_cases hn
  rw [hmark] at hcases
  rcases hcases, sizeMark_cases hm with ⟨⟨hself, hlt⟩ | ⟨hge, hlt⟩, ⟨hself', hlt'⟩ | ⟨hge', hlt'⟩⟩
  · omega
  · omega
  · omega
  · rw [← ofLittleEndian_toLittleEndian hlt, hbytes, ofLittleEndian_toLittleEndian hlt']

/-! ## The fields of a transaction -/

/-- The fields of an input hold what their types can hold. -/
structure InputInRange (txin : CTxIn) : Prop where
  prevout : txin.prevout.hash < 2 ^ 256 ∧ txin.prevout.n < 2 ^ 32
  scriptSig : txin.scriptSig.length < 2 ^ 64
  nSequence : txin.nSequence < 2 ^ 32

structure OutputInRange (txout : CTxOut) : Prop where
  nValue : -2 ^ 63 ≤ txout.nValue ∧ txout.nValue < 2 ^ 63
  scriptPubKey : txout.scriptPubKey.length < 2 ^ 64

structure TransactionInRange (tx : CTransaction) : Prop where
  nVersion : -2 ^ 31 ≤ tx.nVersion ∧ tx.nVersion < 2 ^ 31
  vin : tx.vin.length < 2 ^ 64 ∧ ∀ txin ∈ tx.vin, InputInRange txin
  vout : tx.vout.length < 2 ^ 64 ∧ ∀ txout ∈ tx.vout, OutputInRange txout
  nLockTime : tx.nLockTime < 2 ^ 32

theorem unambiguous_toLittleEndian (width : ℕ) :
    Unambiguous (toLittleEndian width) (· < 256 ^ width) := by
  apply Unambiguous.of_length width (length_toLittleEndian width)
  intro n m hn hm heq
  rw [← ofLittleEndian_toLittleEndian hn, heq, ofLittleEndian_toLittleEndian hm]

theorem unambiguous_toTwosComplement (width : ℕ) : Unambiguous (toTwosComplement width)
      fun n => -256 ^ width ≤ 2 * n ∧ 2 * n < (256 : ℤ) ^ width := by
  apply Unambiguous.of_length width
  · intro n
    exact length_toLittleEndian _ _
  · intro n m hn hm heq
    rw [← ofTwosComplement_toTwosComplement hn, heq, ofTwosComplement_toTwosComplement hm]

theorem unambiguous_script : Unambiguous ucharVector.write fun script => script.length < 2 ^ 64 :=
  unambiguous_WriteCompactSize.countedLetters

theorem unambiguous_input : Unambiguous CTxIn.codec.write InputInRange := by
  have houtpoint : Unambiguous COutPoint.codec.write
      fun o => o.hash < 256 ^ 32 ∧ o.n < 256 ^ 4 := by
    apply ((unambiguous_toLittleEndian 32).append (unambiguous_toLittleEndian 4)).comap
      (e := fun o : COutPoint => (o.hash, o.n))
    rintro ⟨_, _⟩ ⟨_, _⟩ heq
    cases heq
    rfl
  have hfields := houtpoint.append (unambiguous_script.append (unambiguous_toLittleEndian 4))
  intro x y r s hx hy heq
  have hinRange {txin : CTxIn} (h : InputInRange txin) :
      (txin.prevout.hash < 256 ^ 32 ∧ txin.prevout.n < 256 ^ 4) ∧
        txin.scriptSig.length < 2 ^ 64 ∧ txin.nSequence < 256 ^ 4 :=
    ⟨h.prevout, h.scriptSig, h.nSequence⟩
  obtain ⟨hsame, hrest⟩ := hfields (x.prevout, x.scriptSig, x.nSequence)
    (y.prevout, y.scriptSig, y.nSequence) r s (hinRange hx) (hinRange hy) heq
  refine ⟨?_, hrest⟩
  cases x
  cases hsame
  rfl

theorem unambiguous_output : Unambiguous CTxOut.codec.write OutputInRange := by
  have hfields := (unambiguous_toTwosComplement 8).append unambiguous_script
  intro x y r s hx hy heq
  have hinRange {txout : CTxOut} (h : OutputInRange txout) :
      (-256 ^ 8 ≤ 2 * txout.nValue ∧ 2 * txout.nValue < 256 ^ 8) ∧
        txout.scriptPubKey.length < 2 ^ 64 :=
    ⟨by have hvalue := h.nValue; omega, h.scriptPubKey⟩
  obtain ⟨hsame, hrest⟩ := hfields (x.nValue, x.scriptPubKey) (y.nValue, y.scriptPubKey) r s
    (hinRange hx) (hinRange hy) heq
  refine ⟨?_, hrest⟩
  cases x
  cases hsame
  rfl

theorem unambiguous_transaction : Unambiguous CTransaction.codec.write TransactionInRange := by
  have hfields := (unambiguous_toTwosComplement 4).append
    ((unambiguous_WriteCompactSize.counted unambiguous_input).append
      ((unambiguous_WriteCompactSize.counted unambiguous_output).append
        (unambiguous_toLittleEndian 4)))
  intro x y r s hx hy heq
  have hversion {tx : CTransaction} (h : TransactionInRange tx) :
      -256 ^ 4 ≤ 2 * tx.nVersion ∧ 2 * tx.nVersion < 256 ^ 4 := by
    have hrange := h.nVersion
    omega
  obtain ⟨hsame, hrest⟩ := hfields (x.nVersion, x.vin, x.vout, x.nLockTime)
    (y.nVersion, y.vin, y.vout, y.nLockTime) r s
    ⟨hversion hx, hx.vin, hx.vout, hx.nLockTime⟩ ⟨hversion hy, hy.vin, hy.vout, hy.nLockTime⟩ heq
  refine ⟨?_, hrest⟩
  cases x
  cases hsame
  rfl

/-! ## The preimage -/

theorem length_FindAndDelete_le (script b : CScript) :
    (FindAndDelete script b).length ≤ script.length := by
  have hloop (fuel : ℕ) (pc : CScript) : (findAndDeleteFrom fuel pc b).length ≤ pc.length := by
    induction fuel generalizing pc with
    | zero => exact le_rfl
    | succ fuel ih =>
      unfold findAndDeleteFrom
      split_ifs
      · have hrest := ih (pc.drop b.length)
        rw [length_drop] at hrest
        omega
      · match hop : GetOp pc with
        | none => exact le_rfl
        | some (_, _, rest) =>
          have hshorter := length_GetOp hop
          have hrest := ih rest
          simp only [length_append, length_take]
          omega
  unfold FindAndDelete
  split_ifs
  · exact le_rfl
  · exact hloop _ _

/-- The inputs of the preimage for all outputs. -/
def signedInputs (scriptCode : CScript) (nIn : ℕ) (vin : List CTxIn) : List CTxIn :=
  vin.mapIdx fun i txin =>
    { txin with
      scriptSig := if i = nIn then FindAndDelete scriptCode [OP_CODESEPARATOR] else [] }

variable {nIn : ℕ} {scriptCode : CScript} {txTo : CTransaction}

theorem preimage_of_all {nHashType : ℕ} {preimage : List UInt8}
    (hall : nHashType % 0x20 = SIGHASH_ALL) (hothers : nHashType / SIGHASH_ANYONECANPAY % 2 = 0)
    (h : ConstructSignatureHashPreimage scriptCode txTo nIn nHashType = some preimage) :
    nIn < txTo.vin.length ∧
      preimage = CTransaction.codec.write { txTo with vin := signedInputs scriptCode nIn txTo.vin }
        ++ toLittleEndian 4 nHashType := by
  have hnone : ¬ nHashType % 0x20 = SIGHASH_NONE := by rw [hall]; decide
  have hsingle : ¬ nHashType % 0x20 = SIGHASH_SINGLE := by rw [hall]; decide
  unfold ConstructSignatureHashPreimage at h
  by_cases hin : nIn ≥ txTo.vin.length
  · rw [if_pos hin] at h
    cases h
  · rw [if_neg hin] at h
    have hkept : ¬ nHashType / SIGHASH_ANYONECANPAY % 2 = 1 := by omega
    rw [if_neg (fun hout => hsingle hout.1), if_neg hkept, if_neg hnone] at h
    refine ⟨not_le.mp hin, ?_⟩
    rw [← Option.some.inj h]
    simp [signedInputs, hnone, hsingle]

theorem inRange_signed (nIn : ℕ) (hcode : scriptCode.length < 2 ^ 64)
    (htx : TransactionInRange txTo) :
    TransactionInRange { txTo with vin := signedInputs scriptCode nIn txTo.vin } := by
  refine ⟨htx.nVersion, ⟨?_, ?_⟩, htx.vout, htx.nLockTime⟩
  · simpa [signedInputs] using htx.vin.1
  · intro txin hmem
    obtain ⟨i, hi, rfl⟩ := mem_mapIdx.mp hmem
    have hinput := htx.vin.2 _ (getElem_mem hi)
    refine ⟨hinput.prevout, ?_, hinput.nSequence⟩
    have hle := length_FindAndDelete_le scriptCode [OP_CODESEPARATOR]
    dsimp only
    split_ifs
    · omega
    · simp

/-- Blanked inputs show the outpoints and the sequence numbers, and the script code at its place
unless it is empty. -/
theorem signedInputs_injective {scriptCode' : CScript} {nIn' : ℕ} {vin vin' : List CTxIn}
    (hin : nIn < vin.length)
    (h : signedInputs scriptCode nIn vin = signedInputs scriptCode' nIn' vin') :
    vin.map (fun txin => (txin.prevout, txin.nSequence)) =
        vin'.map (fun txin => (txin.prevout, txin.nSequence)) ∧
      (FindAndDelete scriptCode [OP_CODESEPARATOR] ≠ [] → nIn = nIn' ∧
        FindAndDelete scriptCode [OP_CODESEPARATOR] =
          FindAndDelete scriptCode' [OP_CODESEPARATOR]) := by
  have hlength : vin.length = vin'.length := by
    have hsame := congrArg List.length h
    simpa [signedInputs] using hsame
  have hinput (i : ℕ) (hi : i < vin.length) (hi' : i < vin'.length) :
      vin[i].prevout = vin'[i].prevout ∧
        (if i = nIn then FindAndDelete scriptCode [OP_CODESEPARATOR] else []) =
          (if i = nIn' then FindAndDelete scriptCode' [OP_CODESEPARATOR] else []) ∧
        vin[i].nSequence = vin'[i].nSequence := by
    have hsame : (signedInputs scriptCode nIn vin)[i]? = (signedInputs scriptCode' nIn' vin')[i]? :=
      congrArg (fun l => l[i]?) h
    simpa [signedInputs, hi, hi'] using hsame
  constructor
  · apply ext_getElem
    · simpa using hlength
    · intro i hi hi'
      rw [length_map] at hi hi'
      obtain ⟨hprevout, -, hsequence⟩ := hinput i hi hi'
      simp [hprevout, hsequence]
  · intro hcode
    obtain ⟨-, hscript, -⟩ := hinput nIn hin (by omega)
    rw [if_pos rfl] at hscript
    by_cases hsame : nIn = nIn'
    · rw [if_pos hsame] at hscript
      exact ⟨hsame, hscript⟩
    · rw [if_neg hsame] at hscript
      exact absurd hscript hcode

/-- Equal preimages of signatures for all outputs come from transactions that differ in the scripts
of their inputs only, and have one hash type. Unless the script code without its separators is
empty, they also have one script code and one input. -/
theorem ConstructSignatureHashPreimage_injective {scriptCode scriptCode' : CScript}
    {txTo txTo' : CTransaction} {nIn nIn' nHashType nHashType' : ℕ} {preimage : List UInt8}
    (htx : TransactionInRange txTo) (htx' : TransactionInRange txTo')
    (hcode : scriptCode.length < 2 ^ 64) (hcode' : scriptCode'.length < 2 ^ 64)
    (htype : nHashType < 2 ^ 32) (htype' : nHashType' < 2 ^ 32)
    (hall : nHashType % 0x20 = SIGHASH_ALL) (hall' : nHashType' % 0x20 = SIGHASH_ALL)
    (hothers : nHashType / SIGHASH_ANYONECANPAY % 2 = 0)
    (hothers' : nHashType' / SIGHASH_ANYONECANPAY % 2 = 0)
    (h : ConstructSignatureHashPreimage scriptCode txTo nIn nHashType = some preimage)
    (h' : ConstructSignatureHashPreimage scriptCode' txTo' nIn' nHashType' = some preimage) :
    txTo.nVersion = txTo'.nVersion ∧
      txTo.vin.map (fun txin => (txin.prevout, txin.nSequence)) =
        txTo'.vin.map (fun txin => (txin.prevout, txin.nSequence)) ∧
      txTo.vout = txTo'.vout ∧ txTo.nLockTime = txTo'.nLockTime ∧ nHashType = nHashType' ∧
      (FindAndDelete scriptCode [OP_CODESEPARATOR] ≠ [] → nIn = nIn' ∧
        FindAndDelete scriptCode [OP_CODESEPARATOR] =
          FindAndDelete scriptCode' [OP_CODESEPARATOR]) := by
  obtain ⟨hin, hpre⟩ := preimage_of_all hall hothers h
  obtain ⟨-, hpre'⟩ := preimage_of_all hall' hothers' h'
  obtain ⟨hsame, hend⟩ := unambiguous_transaction _ _ _ _ (inRange_signed nIn hcode htx)
    (inRange_signed nIn' hcode' htx') (hpre.symm.trans hpre')
  injection hsame with hversion hvin hvout hlock
  obtain ⟨hinputs, hscript⟩ := signedInputs_injective hin hvin
  have htypes : nHashType = nHashType' :=
    (unambiguous_toLittleEndian 4 _ _ [] [] htype htype' (by rw [hend])).1
  exact ⟨hversion, hinputs, hvout, hlock, htypes, hscript⟩

/-- A transaction whose input carries the given script. -/
def signedTx (scriptSig : CScript) : CTransaction :=
  { vin := [⟨⟨5, 0⟩, scriptSig, uintMax⟩], vout := [⟨7, [OP_1]⟩] }

theorem inRange_signedTx {scriptSig : CScript} (h : scriptSig.length < 2 ^ 64) :
    TransactionInRange (signedTx scriptSig) := by
  refine ⟨by simp [signedTx], ⟨by simp [signedTx], ?_⟩, ⟨by simp [signedTx], ?_⟩,
    by simp [signedTx]⟩
  · intro txin hmem
    obtain rfl := mem_singleton.mp hmem
    exact ⟨by simp, h, by simp [uintMax]⟩
  · intro txout hmem
    obtain rfl := mem_singleton.mp hmem
    exact ⟨by simp, by simp⟩

theorem preimage_signedTx :
    (signedTx []).vout = (signedTx [OP_1]).vout ∧
      FindAndDelete [OP_1, OP_CODESEPARATOR] [OP_CODESEPARATOR] =
        FindAndDelete [OP_1] [OP_CODESEPARATOR] := by
  have h : ConstructSignatureHashPreimage [OP_1, OP_CODESEPARATOR] (signedTx []) 0 SIGHASH_ALL =
      some (CTransaction.codec.write (signedTx [OP_1]) ++ [1, 0, 0, 0]) := by
    decide
  have h' : ConstructSignatureHashPreimage [OP_1] (signedTx [OP_1]) 0 SIGHASH_ALL =
      some (CTransaction.codec.write (signedTx [OP_1]) ++ [1, 0, 0, 0]) := by
    decide
  have hsame := ConstructSignatureHashPreimage_injective (inRange_signedTx (by simp))
    (inRange_signedTx (by simp)) (by simp) (by simp) (by decide) (by decide) rfl rfl rfl rfl h h'
  exact ⟨hsame.2.2.1, (hsame.2.2.2.2.2 (by decide)).2⟩

end Phoenixcoin.Analysis
