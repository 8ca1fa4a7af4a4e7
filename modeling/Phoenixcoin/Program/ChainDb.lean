import Phoenixcoin.Lib.Table
import Phoenixcoin.Program.Transaction

/-!
# The chain database

Transaction-index entries, block-index entries and the operations of `CTxDB` on them. A
`CTxDB` holds the committed records and, while a database transaction is active, the records
as that transaction sees them. Every operation takes as its first argument whether the
database carries it out.
-/

set_option autoImplicit false

namespace Phoenixcoin.Program

open Lib

/-! ## Transaction-index entries -/

structure CDiskTxPos where
  nFile : ℕ
  nBlockPos : ℕ
  nTxPos : ℕ
deriving DecidableEq, Repr

namespace CDiskTxPos

def null : CDiskTxPos := ⟨uintMax, 0, 0⟩

/-- `CDiskTxPos::IsNull` looks at the file number only. -/
def IsNull (pos : CDiskTxPos) : Prop := pos.nFile = uintMax

instance : DecidablePred IsNull := fun _ => inferInstanceAs (Decidable (_ = _))

@[simp]
theorem isNull_null : null.IsNull := rfl

end CDiskTxPos

/-- The record of a transaction: where it is stored and which transactions spend its outputs. -/
structure CTxIndex where
  pos : CDiskTxPos
  vSpent : List CDiskTxPos
deriving DecidableEq, Repr

/-- The constructor `CTxIndex(pos, nOutputs)`. -/
def CTxIndex.ofOutputs (pos : CDiskTxPos) (nOutputs : ℕ) : CTxIndex :=
  ⟨pos, List.replicate nOutputs CDiskTxPos.null⟩

abbrev TxIndexTable : Type := Table uint256 CTxIndex

/-! ## Block-index entries -/

/-- An entry of the block index. Pointers to other entries are the keys of these entries. -/
structure CBlockIndex where
  phashBlock : Option uint256
  pprev : Option uint256
  pnext : Option uint256
  nFile : ℕ
  nBlockPos : ℕ
  nHeight : ℕ
  bnChainWork : ℕ
  nVersion : ℤ
  hashMerkleRoot : uint256
  nTime : ℕ
  nBits : ℕ
  nNonce : ℕ
deriving DecidableEq, Repr

/-- The record that `CDiskBlockIndex` serialises. -/
structure CDiskBlockIndex where
  hashNext : uint256
  nFile : ℕ
  nBlockPos : ℕ
  nHeight : ℕ
  nVersion : ℤ
  hashPrev : uint256
  hashMerkleRoot : uint256
  nTime : ℕ
  nBits : ℕ
  nNonce : ℕ
deriving DecidableEq, Repr

/-- The constructor `CDiskBlockIndex(pindex)`: links become hashes, a missing link is `0`. -/
def CDiskBlockIndex.ofBlockIndex (pindex : CBlockIndex) : CDiskBlockIndex where
  hashNext := pindex.pnext.getD 0
  nFile := pindex.nFile
  nBlockPos := pindex.nBlockPos
  nHeight := pindex.nHeight
  nVersion := pindex.nVersion
  hashPrev := pindex.pprev.getD 0
  hashMerkleRoot := pindex.hashMerkleRoot
  nTime := pindex.nTime
  nBits := pindex.nBits
  nNonce := pindex.nNonce

/-- The header that `CDiskBlockIndex::GetBlockHash` hashes. -/
def CDiskBlockIndex.header (diskindex : CDiskBlockIndex) : CBlockHeader where
  nVersion := diskindex.nVersion
  hashPrevBlock := diskindex.hashPrev
  hashMerkleRoot := diskindex.hashMerkleRoot
  nTime := diskindex.nTime
  nBits := diskindex.nBits
  nNonce := diskindex.nNonce

/-! ## The database -/

structure ChainRecords where
  tx : TxIndexTable
  blockindex : Table uint256 CDiskBlockIndex
  hashBestChain : Option uint256
  bnBestInvalidWork : Option ℕ
deriving DecidableEq

/-- The chain database with its active transaction, if there is one. -/
structure CTxDB where
  stored : ChainRecords
  activeTxn : Option ChainRecords
deriving DecidableEq

namespace CTxDB

def view (txdb : CTxDB) : ChainRecords := txdb.activeTxn.getD txdb.stored

/-- A write goes to the active transaction, or to the stored records when there is none. -/
def update (f : ChainRecords → ChainRecords) (txdb : CTxDB) : CTxDB :=
  match txdb.activeTxn with
  | some records => { txdb with activeTxn := some (f records) }
  | none => { txdb with stored := f txdb.stored }

@[simp]
theorem view_update (f : ChainRecords → ChainRecords) (txdb : CTxDB) :
    (txdb.update f).view = f txdb.view := by
  unfold update view
  cases txdb.activeTxn <;> rfl

variable (ok : Bool)

def readTxIndex (hash : uint256) (txdb : CTxDB) : Option CTxIndex :=
  if ok then txdb.view.tx.lookup hash else none

def updateTxIndex (hash : uint256) (txindex : CTxIndex) (txdb : CTxDB) :
    Option CTxDB :=
  if ok then some (txdb.update fun r => { r with tx := r.tx.insert hash txindex }) else none

def eraseTxIndex (hash : uint256) (txdb : CTxDB) : Option CTxDB :=
  if ok then some (txdb.update fun r => { r with tx := r.tx.erase hash }) else none

/-- `CTxDB::WriteBlockIndex`; `blockHash` is the hash of a block header. -/
def writeBlockIndex (blockHash : CBlockHeader → uint256) (ok : Bool)
    (diskindex : CDiskBlockIndex) (txdb : CTxDB) : Option CTxDB :=
  if ok then
    some (txdb.update fun r =>
      { r with blockindex := r.blockindex.insert (blockHash diskindex.header) diskindex })
  else none

def writeHashBestChain (hash : uint256) (txdb : CTxDB) : Option CTxDB :=
  if ok then some (txdb.update fun r => { r with hashBestChain := some hash }) else none

def writeBestInvalidWork (bnWork : ℕ) (txdb : CTxDB) : Option CTxDB :=
  if ok then some (txdb.update fun r => { r with bnBestInvalidWork := some bnWork }) else none

/-- `CTxDB::TxnBegin` refuses a second transaction. -/
def txnBegin (txdb : CTxDB) : Option CTxDB :=
  match txdb.activeTxn with
  | some _ => none
  | none => if ok then some { txdb with activeTxn := some txdb.stored } else none

/-- `CTxDB::TxnCommit`: the result and the database afterwards. A commit that fails ends the
transaction without effect. -/
def txnCommit (txdb : CTxDB) : Bool × CTxDB :=
  match txdb.activeTxn with
  | none => (false, txdb)
  | some records =>
    if ok then (true, ⟨records, none⟩) else (false, ⟨txdb.stored, none⟩)

def txnAbort (txdb : CTxDB) : CTxDB := { txdb with activeTxn := none }

end CTxDB

end Phoenixcoin.Program
