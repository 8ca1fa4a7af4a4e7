import Phoenixcoin.Analysis.DisconnectConnect
import Phoenixcoin.Program.Records

/-!
# Decoding what was written, and what was not

Every decoder takes an encoding of its value from the stream, and a stream that ends too
early is completed with zeros. What `Serialize` writes decodes to the same value, its length is
the serialised size as long as that fits 32 bits, and the positions that `ConnectBlock`
computes from serialised sizes are those of the transactions inside the stored block.
-/

set_option autoImplicit false

namespace Phoenixcoin.Analysis

open Lib Program List CTransaction SampleBlock

/-! ## Transactions and blocks have one encoding -/

theorem txIn_canonical : CTxIn.codec.Canonical :=
  (COutPoint.codec_canonical.pair (ucharVector_canonical.pair (uintCodec_canonical _))).embed _ _ _

theorem txOut_canonical : CTxOut.codec.Canonical :=
  ((intCodec_canonical _).pair ucharVector_canonical).embed _ _ _

theorem transaction_canonical : codec.Canonical :=
  ((intCodec_canonical _).pair ((vectorCodec_canonical txIn_canonical).pair
    ((vectorCodec_canonical txOut_canonical).pair (uintCodec_canonical _)))).embed _ _ _

theorem blockHeader_canonical : CBlockHeader.codec.Canonical :=
  ((intCodec_canonical _).pair ((uintCodec_canonical _).pair ((uintCodec_canonical _).pair
    ((uintCodec_canonical _).pair ((uintCodec_canonical _).pair
      (uintCodec_canonical _)))))).embed _ _ _

theorem block_canonical : CBlock.codec.Canonical :=
  (blockHeader_canonical.pair (vectorCodec_canonical transaction_canonical)).embed _ _ _

theorem canonical_of_transaction_or_block {nVersion : StreamVersion} {T : StreamType}
    (h : T = .transaction ∨ T = .block) : (T.codec nVersion).Canonical := by
  rcases h with rfl | rfl
  · exact transaction_canonical
  · exact block_canonical

/-! ## What a decoder consumes -/

variable {α : Type} {c : Codec α} {x : α}

/-- A proper prefix of what is written decodes, if at all, by running out of data. -/
theorem Consumes.of_isPrefix {b enc rest : List UInt8} {y : α} (hx : c.Fits x)
    (hy : c.Encodes enc y) (hpre : b <+: c.write x) (hne : b ≠ c.write x) (h : Consumes enc b rest)
    :
    rest = [] ∧ ∃ k, enc = b ++ replicate (k + 1) 0 := by
  rcases h with rfl | h
  · exfalso
    obtain ⟨tail, htail⟩ := hpre
    rw [append_assoc] at htail
    have hfull := c.eval_append enc y (rest ++ tail) hy
    have hwrite := c.eval_write_append hx []
    rw [htail] at hfull
    rw [append_nil, hfull] at hwrite
    simp only [Option.some.injEq, Prod.mk.injEq, append_eq_nil_iff] at hwrite
    obtain ⟨-, rfl, rfl⟩ := hwrite
    exact hne htail
  · exact h

/-- What a decoder that gave `x` and left `s` took from the bytes `b`: an encoding of `x` in
front of what is left, or all of them, and zeros complete the encoding. The encoding is longer
than the containers of `x` together; for a transaction or a block it is the one that is
written, and a proper prefix of what is written was used up. -/
def TakenFrom (nVersion : StreamVersion) (T : StreamType) (b : List UInt8) (x : T.Value)
    (s : CDataStream) : Prop :=
  ∃ enc, (T.codec nVersion).Encodes enc x ∧
    (b = enc ++ s.remaining ∨ s.remaining = [] ∧ ∃ k, enc = b ++ replicate (k + 1) 0) ∧
    (T.codec nVersion).elements x < enc.length ∧
    (T = .transaction ∨ T = .block → enc = (T.codec nVersion).write x ∧
      ∀ y, (T.codec nVersion).Fits y → b <+: (T.codec nVersion).write y →
        b ≠ (T.codec nVersion).write y →
        s.remaining = [] ∧ ∃ k, enc = b ++ replicate (k + 1) 0)

/-- Strict decoding, up to the zeros that stand in for missing data. -/
theorem takenFrom_of_unserialize (nVersion : StreamVersion) (T : StreamType) (b : List UInt8)
    (hb : b.length < 2 ^ 32) (x : T.Value) (s : CDataStream)
    (h : unserialize (T.codec nVersion) (.ofBytes b) = some (x, s)) :
    TakenFrom nVersion T b x s := by
  have heval : (T.codec nVersion).decoder.eval b = some (x, s.remaining) :=
    eval_of_unserialize hb h
  obtain ⟨enc, henc, hconsumes⟩ := (T.codec nVersion).consumes_of_eval _ _ _ heval
  refine ⟨enc, henc, hconsumes, (T.codec nVersion).elements_lt _ _ henc, fun hT => ⟨?_, ?_⟩⟩
  · exact canonical_of_transaction_or_block hT enc x henc
  · intro y hy hpre hne
    exact Consumes.of_isPrefix hy henc hpre hne hconsumes

/-- A transaction with an input and two outputs, and a byte behind it. -/
theorem takenFrom_of_unserialize_spender :
    TakenFrom CLIENT_VERSION .transaction (codec.write spender ++ [7])
      spender ⟨codec.write spender ++ [7], 69, by decide⟩ :=
  takenFrom_of_unserialize _ .transaction _ (by decide) _ _ (by
    show unserialize codec _ = some (spender, _)
    decide +kernel)

/-- The transaction without inputs and outputs. -/
def emptyTransaction : CTransaction := ⟨1, [], [], 0⟩

/-- A transaction cut after its version decodes, and five bytes decode to a hundred inputs. -/
theorem unserialize_truncated :
    (unserialize codec (.ofBytes [1, 0, 0, 0])).map Prod.fst =
        some emptyTransaction ∧
      codec.write emptyTransaction = [1, 0, 0, 0] ++ [0, 0, 0, 0, 0, 0] ∧
      (∀ enc, codec.Encodes enc emptyTransaction → ¬ enc <+: [1, 0, 0, 0]) ∧
      (unserialize codec (.ofBytes [1, 0, 0, 0, 100])).map
        (fun r => r.1.vin.length) = some 100 := by
  have hwrite : codec.write emptyTransaction =
      [1, 0, 0, 0] ++ [0, 0, 0, 0, 0, 0] := by decide
  refine ⟨by decide +kernel, hwrite, ?_, by decide +kernel⟩
  intro enc henc hpre
  rw [transaction_canonical enc _ henc, hwrite] at hpre
  have hlength := hpre.length_le
  simp at hlength

/-! ## Serialised sizes -/

theorem length_script (script : CScript) :
    (ucharVector.write script).length = scriptSerializeSize script := by
  show (WriteCompactSize _ ++ _).length = _
  rw [length_append, length_WriteCompactSize, scriptSerializeSize]

theorem length_vector {sizeofT : ℕ} {h : 0 < 5000000 / sizeofT} {size : α → ℕ}
    (hsize : ∀ x, (c.write x).length = size x) (xs : List α) :
    ((vectorCodec sizeofT h c).write xs).length =
      getSizeOfCompactSize xs.length + (xs.map size).sum := by
  show (WriteCompactSize _ ++ (xs.map c.write).flatten).length = _
  rw [length_append, length_WriteCompactSize, length_flatten, map_map]
  congr 2
  exact map_congr_left fun x _ => hsize x

theorem length_txIn (txin : CTxIn) : (CTxIn.codec.write txin).length = txin.getSerializeSize := by
  have hprevout : (COutPoint.codec.write txin.prevout).length = 36 := by
    show (toLittleEndian 32 _ ++ toLittleEndian 4 _).length = 36
    simp
  have hnSequence : (uintCodec32.write txin.nSequence).length = 4 := length_toLittleEndian 4 _
  show (COutPoint.codec.write _ ++ (ucharVector.write _ ++ uintCodec32.write _)).length = _
  rw [length_append, length_append, length_script, hprevout, hnSequence,
    CTxIn.getSerializeSize, Nat.add_assoc]

theorem length_txOut (txout : CTxOut) :
    (CTxOut.codec.write txout).length = txout.getSerializeSize := by
  have hnValue : (int64Codec.write txout.nValue).length = 8 := length_toLittleEndian 8 _
  show (int64Codec.write _ ++ ucharVector.write _).length = _
  rw [length_append, length_script, hnValue, CTxOut.getSerializeSize]

theorem length_transaction (tx : CTransaction) :
    (codec.write tx).length = tx.getSerializeSize := by
  have hnVersion : (intCodec32.write tx.nVersion).length = 4 := length_toLittleEndian 4 _
  have hnLockTime : (uintCodec32.write tx.nLockTime).length = 4 := length_toLittleEndian 4 _
  show (intCodec32.write tx.nVersion ++ ((vectorCodec _ _ CTxIn.codec).write tx.vin ++
    ((vectorCodec _ _ CTxOut.codec).write tx.vout ++ uintCodec32.write tx.nLockTime))).length = _
  rw [length_append, length_append, length_append, length_vector length_txIn,
    length_vector length_txOut, getSerializeSize]
  omega

theorem length_blockHeader (header : CBlockHeader) :
    (CBlockHeader.codec.write header).length = 80 := by
  show (toTwosComplement 4 _ ++ (toLittleEndian 32 _ ++ (toLittleEndian 32 _ ++
    (toLittleEndian 4 _ ++ (toLittleEndian 4 _ ++ toLittleEndian 4 _))))).length = 80
  simp [toTwosComplement]

/-! ## The positions of the transactions of a block -/

section Positions

variable {env : ChainEnv} {ctx : NodeContext} {outcome : DbOutcome} {txdb : CTxDB}
  {pindex : CBlockIndex} {pprevs : List CBlockIndex}

variable {state : ConnectState} {after before : List CTransaction} {block : CBlock}
  {tx : CTransaction}

theorem nTxPos_of_foldlM {txs : List CTransaction} {state' : ConnectState}
    (h : txs.foldlM (connectTx env ctx outcome txdb pindex pprevs false) state = some state') :
    state'.nTxPos = state.nTxPos + (txs.map getSerializeSize).sum := by
  induction txs generalizing state with
  | nil =>
    cases h
    simp
  | cons tx txs ih =>
    rw [foldlM_cons, Option.bind_eq_bind, Option.bind_eq_some_iff] at h
    obtain ⟨next, hnext, h⟩ := h
    rw [ih h, (connectTx_cases hnext).1, map_cons, sum_cons, Nat.add_assoc]

/-- In a block, the encoding of a transaction follows the header, the count and the encodings of
the transactions before it. -/
theorem write_block_eq (h : block.vtx = before ++ tx :: after) :
    ∃ head, CBlock.codec.write block =
        head ++ (codec.write tx ++ (after.map codec.write).flatten) ∧
      head.length = 80 + getSizeOfCompactSize block.vtx.length +
        (before.map getSerializeSize).sum := by
  refine ⟨CBlockHeader.codec.write block.toCBlockHeader ++
    (WriteCompactSize block.vtx.length ++ (before.map codec.write).flatten), ?_, ?_⟩
  · show CBlockHeader.codec.write block.toCBlockHeader ++ (WriteCompactSize block.vtx.length ++
      (block.vtx.map codec.write).flatten) = _
    simp [h]
  · have hlength : (fun tx => (codec.write tx).length) =
        getSerializeSize := funext length_transaction
    rw [length_append, length_append, length_blockHeader, length_WriteCompactSize,
      length_flatten, map_map, Function.comp_def, hlength, Nat.add_assoc]

/-- The position that `ConnectBlock` gives a transaction is where its encoding starts. -/
theorem drop_nTxPos {file rest : List UInt8} (hvtx : block.vtx = before ++ tx :: after)
    (hfile : file.drop pindex.nBlockPos = CBlock.codec.write block ++ rest)
    (h : before.foldlM (connectTx env ctx outcome txdb pindex pprevs false)
      ⟨∅, 0, 0, firstTxPos pindex block⟩ = some state) :
    file.drop state.nTxPos = codec.write tx ++
      ((after.map codec.write).flatten ++ rest) := by
  obtain ⟨head, hwrite, hlength⟩ := write_block_eq hvtx
  have hpos : state.nTxPos = pindex.nBlockPos + head.length := by
    have hzero : getSizeOfCompactSize 0 = 1 := rfl
    rw [nTxPos_of_foldlM h]
    dsimp only [firstTxPos]
    omega
  rw [hpos, ← drop_drop, hfile, hwrite, append_assoc, drop_left' rfl, append_assoc]

end Positions

/-! ## The round trip -/

/-- What `Serialize` writes for `x` is read back, and its length is the serialised size. -/
def RoundTrips {α : Type} (c : Codec α) (x : α) : Prop :=
  (c.size x).toNat = (c.write x).length ∧
    ∀ rest, ∃ s, unserialize c (.ofBytes (c.write x ++ rest)) = some (x, s) ∧ s.remaining = rest

theorem size_eq_length (h : (c.write x).length < 2 ^ 32) :
    (c.size x).toNat = (c.write x).length := by
  rw [c.size_eq, UInt32.toNat_ofNat', Nat.mod_eq_of_lt h]

theorem roundTrips_of_fits (hfits : c.Fits x) (h : (c.write x).length < 2 ^ 32) :
    RoundTrips c x := by
  refine ⟨size_eq_length h, fun rest => ?_⟩
  have heval : c.decoder.eval (CDataStream.ofBytes (c.write x ++ rest)).remaining =
      some (x, rest) := c.eval_write_append hfits rest
  apply unserialize_of_eval heval
  show (c.write x ++ rest).length - rest.length < 2 ^ 32
  rw [length_append]
  omega

/-- Round trip of everything that is decoded, and the positions of transactions in a stored
block. The sizes and positions are computed in 32 bits; none of them overflows as long as the
encoding, or the block file, is shorter than 4 GiB. -/
theorem serialization_roundTrip (nVersion : StreamVersion) :
    (∀ (T : StreamType) (x : T.Value), (T.codec nVersion).Fits x →
      (T.codec nVersion).size x = UInt32.ofNat ((T.codec nVersion).write x).length ∧
      (((T.codec nVersion).write x).length < 2 ^ 32 → RoundTrips (T.codec nVersion) x)) ∧
    ∀ (env : ChainEnv) (ctx : NodeContext) (outcome : DbOutcome) (txdb : CTxDB)
      (pindex : CBlockIndex) (pprevs : List CBlockIndex) (block : CBlock)
      (before after : List CTransaction) (tx : CTransaction) (state : ConnectState)
      (file rest : List UInt8), block.vtx = before ++ tx :: after →
      file.drop pindex.nBlockPos = CBlock.codec.write block ++ rest → file.length < 2 ^ 32 →
      before.foldlM (connectTx env ctx outcome txdb pindex pprevs false)
        ⟨∅, 0, 0, firstTxPos pindex block⟩ = some state →
      state.nTxPos < 2 ^ 32 ∧ codec.write tx <+: file.drop state.nTxPos := by
  refine ⟨fun T x hfits => ⟨(T.codec nVersion).size_eq x, roundTrips_of_fits hfits⟩, ?_⟩
  intro env ctx outcome txdb pindex pprevs block before after tx state file rest hvtx hfile
    hlength hfold
  have hdrop := drop_nTxPos hvtx hfile hfold
  refine ⟨?_, _, hdrop.symm⟩
  by_contra hlt
  have hempty : file.drop state.nTxPos = [] := drop_eq_nil_of_le (by omega)
  have hwrite : (codec.write tx).length = 0 := by
    rw [hempty] at hdrop
    rw [(append_eq_nil_iff.mp hdrop.symm).1, length_nil]
  rw [length_transaction, getSerializeSize] at hwrite
  omega

/-- What a transaction must satisfy to be written, part by part. -/
theorem fits_transaction {tx : CTransaction}
    (h : (-256 ^ 4 ≤ 2 * tx.nVersion ∧ 2 * tx.nVersion < 256 ^ 4) ∧
      (tx.vin.length ≤ MAX_SIZE ∧ ∀ txin ∈ tx.vin, txin.prevout.hash < 256 ^ 32 ∧
        txin.prevout.n < 256 ^ 4 ∧ txin.scriptSig.length ≤ MAX_SIZE ∧ txin.nSequence < 256 ^ 4) ∧
      (tx.vout.length ≤ MAX_SIZE ∧ ∀ txout ∈ tx.vout, -256 ^ 8 ≤ 2 * txout.nValue ∧
        2 * txout.nValue < 256 ^ 8 ∧ txout.scriptPubKey.length ≤ MAX_SIZE) ∧
      tx.nLockTime < 256 ^ 4) : codec.Fits tx := by
  obtain ⟨hversion, ⟨hvin, hins⟩, ⟨hvout, houts⟩, htime⟩ := h
  refine ⟨rfl, hversion, ⟨hvin, fun txin htxin => ?_⟩, ⟨hvout, fun txout htxout => ?_⟩, htime⟩
  · obtain ⟨hhash, hn, hscript, hsequence⟩ := hins txin htxin
    exact ⟨rfl, ⟨hhash, hn⟩, hscript, hsequence⟩
  · obtain ⟨hlow, hhigh, hscript⟩ := houts txout htxout
    exact ⟨rfl, ⟨hlow, hhigh⟩, hscript⟩

theorem fits_sampleBlock : CBlock.codec.Fits block := by
  have hzero : 0 < 256 ^ 32 ∧ 0 < 256 ^ 32 ∧ 0 < 256 ^ 4 ∧ 0 < 256 ^ 4 ∧ 0 < 256 ^ 4 := by decide
  have hcount : 2 ≤ MAX_SIZE := by decide
  refine ⟨rfl, ⟨rfl, ⟨by decide, by decide⟩, hzero⟩, hcount, fun tx htx => ?_⟩
  rcases mem_pair.mp htx with rfl | rfl
  · exact fits_transaction (by decide)
  · exact fits_transaction (by decide)

/-- A block behind eight other bytes: it is read back, and the position of its second transaction
is where that one starts. -/
theorem serialization_roundTrip_sampleBlock :
    RoundTrips (StreamType.codec CLIENT_VERSION .block) block ∧
      ∃ state, [coinBase].foldlM (connectTx SampleBlock.sampleEnv sampleCtx
          (fun _ => true) txdb pindex [] false)
          ⟨∅, 0, 0, firstTxPos pindex block⟩ = some state ∧
        codec.write spender <+:
          (replicate 8 0 ++ CBlock.codec.write block).drop state.nTxPos := by
  have hsize : (CBlock.codec.write block).length < 2 ^ 32 := by decide +kernel
  have hconnect : ([coinBase].foldlM (connectTx SampleBlock.sampleEnv
      sampleCtx (fun _ => true) txdb pindex [] false)
      ⟨∅, 0, 0, firstTxPos pindex block⟩).isSome = true := by decide
  obtain ⟨state, hstate⟩ := Option.isSome_iff_exists.mp hconnect
  obtain ⟨hblock, hpositions⟩ := serialization_roundTrip CLIENT_VERSION
  refine ⟨(hblock .block block fits_sampleBlock).2 hsize, state, hstate, ?_⟩
  exact (hpositions _ _ _ _ pindex _ block [coinBase] []
    spender state (replicate 8 0 ++ CBlock.codec.write block) [] rfl
    (by rw [append_nil]; rfl) (by decide +kernel) hstate).2

/-- A transaction with `n` equal outputs. -/
def repeatedOutput (n : ℕ) (script : CScript) : CTransaction :=
  ⟨1, [], replicate n ⟨0, script⟩, 0⟩

theorem fits_repeatedOutput {n : ℕ} {script : CScript} (hn : n ≤ MAX_SIZE)
    (hscript : script.length ≤ MAX_SIZE) : codec.Fits (repeatedOutput n script) := by
  refine fits_transaction ⟨by norm_num [repeatedOutput], by simp [repeatedOutput],
    ⟨length_replicate.trans_le hn, ?_⟩, by norm_num [repeatedOutput]⟩
  intro txout htxout
  rw [eq_of_mem_replicate htxout]
  exact ⟨by norm_num, by norm_num, hscript⟩

theorem length_repeatedOutput (n : ℕ) (script : CScript) :
    (codec.write (repeatedOutput n script)).length =
      9 + getSizeOfCompactSize n + n * (8 + scriptSerializeSize script) := by
  have hzero : getSizeOfCompactSize 0 = 1 := rfl
  rw [length_transaction, getSerializeSize, repeatedOutput]
  rw [map_nil, sum_nil, map_replicate, sum_replicate_nat, length_replicate,
    length_nil, CTxOut.getSerializeSize]
  dsimp only
  omega

def longestScript : CScript := replicate MAX_SIZE 0

theorem length_longestScript : longestScript.length = MAX_SIZE := length_replicate

/-- The serialised size of a transaction of more than 4 GiB is not its length. -/
theorem size_repeatedOutput_longestScript :
    codec.Fits (repeatedOutput 129 longestScript) ∧
      (codec.size (repeatedOutput 129 longestScript)).toNat ≠
        (codec.write (repeatedOutput 129 longestScript)).length := by
  refine ⟨fits_repeatedOutput (by decide) length_longestScript.le, ?_⟩
  rw [codec.size_eq, length_repeatedOutput, scriptSerializeSize, length_longestScript]
  decide

end Phoenixcoin.Analysis
