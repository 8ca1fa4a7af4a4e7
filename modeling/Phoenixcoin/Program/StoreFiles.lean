import Phoenixcoin.Lib.CrashLogic
import Phoenixcoin.Program.Cursors
import Phoenixcoin.Program.LmdbTransaction

/-!
# The files of an LMDB store

What `db.cpp` does to the files around an LMDB environment: its directory and the two
directories of a rewrite, the backend marker with its temporary file, and the Berkeley DB
file. Every operation can succeed, fail or be the last one before the process stops; an
operation that does not succeed may have been carried out in part.
-/

set_option autoImplicit false

namespace Phoenixcoin.Program

open Lib

/-- The directories: `wallet` (or `blkindex`), `wallet.rewrite` and `wallet.old`. -/
inductive EnvPath where
  | main
  | rewrite
  | old
deriving DecidableEq, Repr

/-- A `data.mdb`. A part of one has some pages, and a reader would find some records in it. -/
inductive DataFile where
  | whole (contents : DbContents)
  | part (nPages : ℕ) (contents : DbContents)
deriving DecidableEq

structure EnvDir where
  data : Option DataFile
  fLock : Bool
deriving DecidableEq

/-- The records that an environment opened on the directory shows. -/
def EnvDir.contents (dir : EnvDir) : DbContents :=
  match dir.data with
  | some (.whole contents) => contents
  | some (.part _ contents) => contents
  | none => ∅

/-- `InspectLMDBEnvironmentOnDisk`: `data.mdb` has room for the two meta pages. -/
def EnvDir.complete (dir : EnvDir) : Bool :=
  match dir.data with
  | some (.whole _) => true
  | some (.part nPages _) => 2 ≤ nPages
  | none => false

def EnvDir.isEmpty (dir : EnvDir) : Bool := dir.data.isNone && !dir.fLock

/-- What `ReadWalletBackendMarker` and `ReadChainBackendMarker` find in a marker. -/
inductive BackendMarker where
  | lmdb
  | bdb
  | unknown
deriving DecidableEq, Repr

/-- What a caller asks of `CLMDBEnv::Open`. -/
structure MapSizes where
  nMapSize : ℕ
  nMaxMapSize : ℕ
  fAutoGrow : Bool
deriving DecidableEq, Repr

structure StoreFiles where
  dirs : EnvPath → Option EnvDir
  marker : Option BackendMarker
  markerTmp : Option BackendMarker
  /-- `wallet.dat` or `blkindex.dat`. -/
  bdbFile : Option DbContents
  /-- The open environment: `g_lmdbWalletEnv` or `g_lmdbChainEnv`. -/
  env : Option MapSizes
  /-- `g_fLMDBWalletEnabled` or `g_fLMDBChainEnabled`, and the sizes kept with it. -/
  enabled : Option MapSizes

/-- The records in `wallet` or `blkindex`. -/
def StoreFiles.contents (files : StoreFiles) : DbContents :=
  (files.dirs .main).elim ∅ EnvDir.contents

def StoreFiles.setDir (files : StoreFiles) (path : EnvPath) (dir : Option EnvDir) : StoreFiles :=
  { files with dirs := Function.update files.dirs path dir }

inductive Ending where
  | success
  | failed
  | stops
deriving DecidableEq, Repr

/-- What becomes of one operation. The fields after the first say how far it got when it did
not succeed, what LMDB answers to the calls inside it, and the size of the file it asks for. -/
structure StepOutcome where
  ending : Ending
  fData : Bool
  fLock : Bool
  nPages : ℕ
  copied : DbContents
  mdb : ℕ → MdbOutcome
  nFileSize : ℕ

abbrev StoreProg (α : Type) : Type := Crash StepOutcome StoreFiles α

namespace StoreProg

open Crash

/-- An operation that only succeeds or fails. -/
def call : StoreProg Bool := act fun c files =>
  match c.ending with
  | .success => (some true, files)
  | .failed => (some false, files)
  | .stops => (none, files)

/-- An operation on the files. The system may refuse it; otherwise it leads to `after` when it
succeeds and to `left` when it does not. -/
def fileStep (after : StepOutcome → StoreFiles → Option StoreFiles)
    (left : StepOutcome → StoreFiles → StoreFiles) : StoreProg Bool := act fun c files =>
  match c.ending with
  | .success =>
    match after c files with
    | some files' => (some true, files')
    | none => (some false, files)
  | .failed => (some false, left c files)
  | .stops => (none, left c files)

variable (path : EnvPath)

/-- `exists(path, ec) && !ec`. -/
def pathExists : StoreProg Bool := act fun c files =>
  match c.ending with
  | .success => (some (files.dirs path).isSome, files)
  | .failed => (some false, files)
  | .stops => (none, files)

/-- `remove_all`. It may have removed some of the files when it does not succeed. -/
def removeAll : StoreProg Bool :=
  fileStep (fun _ files => some (files.setDir path none)) fun c files =>
    files.setDir path ((files.dirs path).map fun dir =>
      ⟨if c.fData then none else dir.data, dir.fLock && !c.fLock⟩)

/-- `rename` of a directory. Only an empty directory can be replaced. -/
def rename (pathFrom pathTo : EnvPath) : StoreProg Bool :=
  fileStep (fun _ files =>
      match files.dirs pathFrom with
      | none => none
      | some dir =>
        if (files.dirs pathTo).all EnvDir.isEmpty then
          some ((files.setDir pathFrom none).setDir pathTo (some dir))
        else none)
    fun _ files => files

/-- `create_directories`. -/
def createDirectories : StoreProg Bool :=
  fileStep (fun _ files =>
      match files.dirs path with
      | some _ => some files
      | none => some (files.setDir path (some ⟨none, false⟩)))
    fun _ files => files

/-- `mdb_env_copy2` of the open environment. It creates `data.mdb` and does not replace one. -/
def copyCompact : StoreProg Bool :=
  fileStep (fun _ files =>
      match files.dirs path with
      | some ⟨none, fLock⟩ => some (files.setDir path (some ⟨some (.whole files.contents), fLock⟩))
      | _ => none)
    fun c files =>
      match files.dirs path with
      | some ⟨none, fLock⟩ =>
        if c.fData then files.setDir path (some ⟨some (.part c.nPages c.copied), fLock⟩) else files
      | _ => files

/-- What `InspectLMDBEnvironmentOnDisk` reports of a directory. -/
structure LMDBOnDiskState where
  fDirectoryExists : Bool
  fComplete : Bool
deriving DecidableEq, Repr

/-- `InspectLMDBEnvironmentOnDisk` of `wallet` or `blkindex`. A query that fails counts as a
directory or a file that is missing. -/
def inspectOnDisk : StoreProg LMDBOnDiskState := act fun c files =>
  match c.ending with
  | .success =>
    (some ⟨(files.dirs .main).isSome, (files.dirs .main).any EnvDir.complete⟩, files)
  | .failed => (some ⟨(files.dirs .main).isSome && c.fData, false⟩, files)
  | .stops => (none, files)

def systemPageSize : ℕ := 4096

/-- The map sizes of an environment that is opened. -/
def openSizes (sizes : MapSizes) (nDataSize : ℕ) : MapSizes :=
  -- never a map smaller than the data file
  let nMapSize :=
    if nDataSize > 0 then max sizes.nMapSize (nDataSize + 16 * 1024 * 1024) else sizes.nMapSize
  let nMaxMapSize :=
    if sizes.fAutoGrow then
      max (CLMDBEnv.alignDown (max sizes.nMaxMapSize nMapSize) systemPageSize) nMapSize
    else nMapSize
  ⟨nMapSize, nMaxMapSize, sizes.fAutoGrow⟩

/-- What `mdb_env_open` makes of a data file; it refuses one that ends inside the meta pages
(`MDB_INVALID`). -/
def openedData : Option DataFile → Option DataFile
  | none => some (.whole ∅)
  | some (.part 0 _) => some (.whole ∅)
  | some (.part 1 _) => none
  | some data => some data

/-- What an open that does not succeed may leave: of a new environment, the directory and the
first pages of the data. -/
def begunDir (c : StepOutcome) : Option EnvDir → Option EnvDir
  | none => if c.fLock then some ⟨none, true⟩ else none
  | some ⟨none, fLock⟩ =>
    some ⟨if c.fData then some (.part c.nPages ∅) else none, fLock || c.fLock⟩
  | some ⟨some data, fLock⟩ => some ⟨some data, fLock || c.fLock⟩

/-- `CLMDBEnv::Open` on `wallet` or `blkindex`, which it creates if it is missing. -/
def openEnv (sizes : MapSizes) : StoreProg Bool := act fun c files =>
  if files.env.isSome then (some true, files)
  else
    let nDataSize := if (files.dirs .main).isSome then c.nFileSize else 0
    match c.ending with
    | .success =>
      match openedData ((files.dirs .main).bind (·.data)) with
      | some data =>
        (some true, { files.setDir .main (some ⟨some data, true⟩) with
          env := some (openSizes sizes nDataSize) })
      | none => (some false,
        files.setDir .main ((files.dirs .main).map fun dir => ⟨dir.data, true⟩))
    | .failed => (some false, files.setDir .main (begunDir c (begunDir c (files.dirs .main))))
    | .stops => (none, files.setDir .main (begunDir c (begunDir c (files.dirs .main))))

/-- `CLMDBDatabase::Close` and `CLMDBEnv::Close`. -/
def closeEnv : StoreProg Unit := change fun files => { files with env := none }

/-! ## The marker -/

/-- `WriteWalletBackendMarker` and `WriteChainBackendMarker`. -/
def writeBackendMarker (strBackend : BackendMarker) : StoreProg Bool := do
  let fWritten ← fileStep (fun _ files => some { files with markerTmp := some strBackend })
    fun c files => if c.fData then { files with markerTmp := some .unknown } else files
  if ¬ fWritten then return false
  let fRenamed ← renameTmp
  if fRenamed then return true
  -- Windows does not replace an existing file with rename()
  let _ ← fileStep (fun _ files => some { files with marker := none }) fun _ files => files
  let fRenamed ← renameTmp
  if fRenamed then return true
  let _ ← removeTmp
  return false
where
  renameTmp : StoreProg Bool :=
    fileStep (fun _ files => some { files with marker := files.markerTmp, markerTmp := none })
      fun _ files => files
  removeTmp : StoreProg Bool :=
    fileStep (fun _ files => some { files with markerTmp := none }) fun _ files => files

def readBackendMarker : StoreProg (Option BackendMarker) := look (·.marker)

/-- `CheckWalletBackendCompatibility` and `CheckChainBackendCompatibility` for a start that is
configured to use LMDB. -/
def checkBackendCompatibility : StoreProg Bool := do
  match ← readBackendMarker with
  | some .unknown => return false
  | some .bdb => return false
  | some .lmdb => return true
  | none =>
    let state ← inspectOnDisk
    return !(state.fDirectoryExists && !state.fComplete)

/-! ## Transactions -/

/-- The environment as `BeginTransaction` finds it. -/
def lmdbEnv (files : StoreFiles) (sizes : MapSizes) : CLMDBEnv where
  contents := files.contents
  fOpen := true
  fReadOnly := false
  fAutoGrow := sizes.fAutoGrow
  nMaxMapSize := sizes.nMaxMapSize
  nMapSize := sizes.nMapSize
  nPageSize := systemPageSize
  nCalls := 0
  nMapFullLogs := 0

def beginTransaction (fReadOnly : Bool) : StoreProg (Option CLMDBTransaction) := act fun c files =>
  match c.ending with
  | .success =>
    (some (files.env.map fun sizes => .beginTransaction (lmdbEnv files sizes) fReadOnly), files)
  | .failed => (some none, files)
  | .stops => (none, files)

def writeTxn (txn : CLMDBTransaction) (key : CDBKey) (value : CDBValue) (fOverwrite : Bool) :
    StoreProg (Bool × CLMDBTransaction) := act fun c files =>
  match c.ending with
  | .stops => (none, files)
  | _ => (some (txn.write c.mdb key value fOverwrite), files)

/-- `Commit`. What LMDB has committed is in the data file. -/
def commitTxn (txn : CLMDBTransaction) : StoreProg Bool := act fun c files =>
  match c.ending with
  | .stops => (none, files)
  | _ =>
    let (fCommitted, txn) := txn.commit c.mdb
    (some fCommitted, if txn.env.contents = files.contents then files
      else files.setDir .main ((files.dirs .main).map fun dir =>
        { dir with data := some (.whole txn.env.contents) }))

end StoreProg

end Phoenixcoin.Program
