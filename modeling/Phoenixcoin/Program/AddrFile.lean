import Phoenixcoin.Lib.SortedKeys
import Phoenixcoin.Program.AddrMan
import Phoenixcoin.Program.Serialize

/-!
# The file of the address manager

The serialisation of `CAddrMan` in `addrman.h`, and `Check_` on the tables that it leaves. The ids
are integers here: a file can hold negative ones. The reads depend on the counts of the file only,
so all of it is read before the tables are built. A stream has less than 4 GiB, so it reads as its
bytes do, and where the counts of a file overflow `nIdCount` its new entries end in zeros, which
are entries with one address.
-/

set_option autoImplicit false

namespace Phoenixcoin.Program

open Lib CAddrInfo

/-! ## Entries on disk -/

/-- `READWRITE(FLATDATA(ip))`. -/
def CNetAddr.codec : Codec CNetAddr :=
  .fixed 16 (by decide) (fun ip => (readBytes 16 ip).1) id (fun ip => ip.length = 16)
    (length_readBytes 16) fun ip h => by
      have hread := readBytes_append h []
      rw [List.append_nil] at hread
      rw [hread, id]

/-- `READWRITE(portN)`, with `portN = htons(port)`. -/
def portCodec : Codec ℕ :=
  .fixed 2 (by decide) (fun port => (toLittleEndian 2 port).reverse)
    (fun bytes => ofLittleEndian bytes.reverse) (· < 256 ^ 2)
    (fun port => by rw [List.length_reverse, length_toLittleEndian]) fun port h => by
      rw [List.reverse_reverse, ofLittleEndian_toLittleEndian h]

def CService.codec : Codec CService :=
  (CNetAddr.codec.pair portCodec).embed (fun ⟨ip, port⟩ => ⟨ip, port⟩)
    (fun service => (service.ip, service.port)) fun _ => rfl

theorem uint64_width : 0 < 8 := by decide

/-- The version in front of an address is the version byte of the file. -/
def addrFileVersion : StreamVersion := ⟨0, by
  show -256 ^ 4 ≤ 2 * _ ∧ 2 * _ < (256 : ℤ) ^ 4
  norm_num⟩

def CAddress.codec : Codec CAddress :=
  (versioned addrFileVersion (uintCodec32.pair ((uintCodec 8 uint64_width).pair
    CService.codec))).embed
    (fun ⟨nTime, nServices, service⟩ =>
      { toCService := service, nServices := nServices, nTime := nTime })
    (fun addr => (addr.nTime, addr.nServices, addr.toCService)) fun _ => rfl

/-- The fields that are in memory only are those of a new entry. -/
def CAddrInfo.codec : Codec CAddrInfo :=
  (CAddress.codec.pair (CNetAddr.codec.pair (int64Codec.pair intCodec32))).embed
    (fun ⟨addr, source, nLastSuccess, nAttempts⟩ =>
      { ofAddress addr source with nLastSuccess := nLastSuccess, nAttempts := nAttempts })
    (fun info => (info.toCAddress, info.source, info.nLastSuccess, info.nAttempts)) fun _ => rfl

/-- The constructor `CAddrInfo()`. -/
def CAddrInfo.empty : CAddrInfo :=
  .ofAddress ⟨⟨List.replicate 16 0, 0⟩, 1, 100000000⟩ (List.replicate 16 0)

/-! ## The file -/

/-- What the file holds after its version byte: the new entries, the tried entries, and the
indices in each bucket. -/
structure AddrFile where
  nKey : List UInt8
  nNew : ℤ
  nTried : ℤ
  nUBuckets : ℤ
  vNewInfo : List CAddrInfo
  vTriedInfo : List CAddrInfo
  vBuckets : List (List ℤ)

/-- `nSize` and as many indices. A loop up to a negative number does not start. -/
def readIndices : Decoder (List ℤ) :=
  intCodec32.decoder.bind fun nSize => intCodec32.decoder.many nSize.toNat

def writeIndices (vNew : List ℤ) : List UInt8 :=
  intCodec32.write vNew.length ++ (vNew.map intCodec32.write).flatten

def readAddrFile : Decoder AddrFile :=
  ucharCodec.decoder.bind fun _ =>
  ucharVector.decoder.bind fun nKey =>
  intCodec32.decoder.bind fun nNew =>
  intCodec32.decoder.bind fun nTried =>
  intCodec32.decoder.bind fun nUBuckets =>
  (codec.decoder.many nNew.toNat).bind fun vNewInfo =>
  (codec.decoder.many nTried.toNat).bind fun vTriedInfo =>
  (readIndices.many nUBuckets.toNat).map fun vBuckets =>
    ⟨nKey, nNew, nTried, nUBuckets, vNewInfo, vTriedInfo, vBuckets⟩

def writeAddrFile (file : AddrFile) : List UInt8 :=
  ucharCodec.write 0 ++ (ucharVector.write file.nKey ++ (intCodec32.write file.nNew ++
    (intCodec32.write file.nTried ++ (intCodec32.write file.nUBuckets ++
    ((file.vNewInfo.map codec.write).flatten ++
    ((file.vTriedInfo.map codec.write).flatten ++
    (file.vBuckets.map writeIndices).flatten))))))

/-! ## The tables -/

/-- The fields of `CAddrMan`. -/
structure AddrTables where
  nKey : List UInt8
  nIdCount : ℤ
  mapInfo : Table ℤ CAddrInfo
  mapAddr : Table CNetAddr ℤ
  vRandom : List ℤ
  nTried : ℤ
  vvTried : TriedBucket → List ℤ
  nNew : ℤ
  vvNew : NewBucket → Finset ℤ

namespace AddrTables

/-- The ids in a new bucket, in the order in which the loops visit them. -/
def idsIn (am : AddrTables) (nUBucket : NewBucket) : List ℤ := (am.vvNew nUBucket).sort (· ≤ ·)

/-! ### Writing -/

/-- The loop that writes the new entries: the entries, and `mapUnkIds`. -/
def writeNew (nNew : ℤ) : List (ℤ × CAddrInfo) → ℤ → Table ℤ ℤ → List CAddrInfo × Table ℤ ℤ
  | [], _, mapUnkIds => ([], mapUnkIds)
  | (nId, info) :: rest, nIds, mapUnkIds =>
    if nIds = nNew then ([], mapUnkIds)
    else if info.nRefCount ≠ 0 then
      let written := writeNew nNew rest (nIds + 1) (mapUnkIds.insert nId nIds)
      (info :: written.1, written.2)
    else writeNew nNew rest nIds (mapUnkIds.insert nId nIds)

/-- The loop that writes the tried entries. -/
def writeTried (nTried : ℤ) : List (ℤ × CAddrInfo) → ℤ → List CAddrInfo
  | [], _ => []
  | (_, info) :: rest, nIds =>
    if nIds = nTried then []
    else if info.fInTried then info :: writeTried nTried rest (nIds + 1)
    else writeTried nTried rest nIds

/-- What the writing branch puts into the file. -/
def toFile (am : AddrTables) : AddrFile :=
  let written := writeNew am.nNew am.mapInfo.sortedEntries 0 ∅
  { nKey := am.nKey
    nNew := am.nNew
    nTried := am.nTried
    nUBuckets := ADDRMAN_NEW_BUCKET_COUNT
    vNewInfo := written.1
    vTriedInfo := writeTried am.nTried am.mapInfo.sortedEntries 0
    vBuckets := (List.finRange ADDRMAN_NEW_BUCKET_COUNT).map fun b =>
      (am.idsIn b).map fun nId => (written.2.lookup nId).getD 0 }

def serialise (am : AddrTables) : List UInt8 := writeAddrFile am.toFile

/-! ### Reading -/

/-- `mapInfo[nId]`, which makes an entry where there is none. -/
def infoAt (nId : ℤ) (am : AddrTables) : CAddrInfo := (am.mapInfo.lookup nId).getD .empty

def setInfo (nId : ℤ) (info : CAddrInfo) (am : AddrTables) : AddrTables :=
  { am with mapInfo := am.mapInfo.insert nId info }

def insertNew (nUBucket : NewBucket) (nId : ℤ) (am : AddrTables) : AddrTables :=
  { am with vvNew := Function.update am.vvNew nUBucket (insert nId (am.vvNew nUBucket)) }

/-- `mapInfo[nId] = info`, `mapAddr[info] = nId` and `vRandom.push_back(nId)`, with the position
in `vRandom` noted in the entry. -/
def enter (nId : ℤ) (info : CAddrInfo) (am : AddrTables) : AddrTables :=
  { am with
    mapInfo := am.mapInfo.insert nId { info with nRandomPos := am.vRandom.length }
    mapAddr := am.mapAddr.insert info.ip nId
    vRandom := am.vRandom ++ [nId] }

/-- What the reading branch clears. -/
def cleared (file : AddrFile) : AddrTables where
  nKey := file.nKey
  nIdCount := 0
  mapInfo := ∅
  mapAddr := ∅
  vRandom := []
  nTried := file.nTried
  vvTried := fun _ => []
  nNew := file.nNew
  vvNew := fun _ => ∅

section Restore

variable (env : AddrEnv) (nUBuckets : ℤ)

/-- The loop over the new entries, from the id `n` on. -/
def restoreNew : ℤ → List CAddrInfo → AddrTables → AddrTables
  | _, [], am => am
  | n, info :: rest, am =>
    if nUBuckets ≠ ADDRMAN_NEW_BUCKET_COUNT then
      restoreNew (n + 1) rest ((am.enter n { info with nRefCount := info.nRefCount + 1 }).insertNew
          (env.getNewBucket info info.source) n)
    else restoreNew (n + 1) rest (am.enter n info)

/-- The body of the loop over the tried entries, with `nLost`. -/
def restoreTried (acc : AddrTables × ℤ) (info : CAddrInfo) : AddrTables × ℤ :=
  let am := acc.1
  let nKBucket := env.getTriedBucket info
  if (am.vvTried nKBucket).length < ADDRMAN_TRIED_BUCKET_SIZE then
    ({ am.enter am.nIdCount { info with fInTried := true } with
        vvTried := Function.update am.vvTried nKBucket (am.vvTried nKBucket ++ [am.nIdCount])
        nIdCount := am.nIdCount + 1 }, acc.2)
  else (am, acc.2 + 1)

/-- The body of the loop over the indices in the bucket `vNew`. -/
def restoreIndex (am : AddrTables) (reference : NewBucket × ℤ) : AddrTables :=
  let nIndex := reference.2
  let info := am.infoAt nIndex
  if nUBuckets = ADDRMAN_NEW_BUCKET_COUNT ∧ info.nRefCount < ADDRMAN_NEW_BUCKETS_PER_ADDRESS then
    (am.setInfo nIndex { info with nRefCount := info.nRefCount + 1 }).insertNew reference.1 nIndex
  else am.setInfo nIndex info

/-- The loop over the buckets, from `b` on; `none` is an access to a bucket that `vvNew` does not
have. -/
def restoreBuckets : ℕ → List (List ℤ) → AddrTables → Option AddrTables
  | _, [], am => some am
  | b, indices :: rest, am =>
    if h : b < ADDRMAN_NEW_BUCKET_COUNT then
      restoreBuckets (b + 1) rest
        ((indices.map fun nIndex => (⟨b, h⟩, nIndex)).foldl (restoreIndex nUBuckets) am)
    else none

end Restore

/-- The reading branch behind the reads. -/
def ofFile (env : AddrEnv) (file : AddrFile) : Option AddrTables :=
  let am := restoreNew env file.nUBuckets 0 file.vNewInfo (cleared file)
  let am := { am with nIdCount := am.nNew }
  let restored := file.vTriedInfo.foldl (restoreTried env) (am, 0)
  let am := { restored.1 with nTried := restored.1.nTried - restored.2 }
  restoreBuckets file.nUBuckets 0 file.vBuckets am

/-- How reading a file ends. -/
inductive LoadResult where
  | throws
  | outside
  | loaded (am : AddrTables)

/-- The reading branch. The hashes depend on the key in the file. -/
def unserialise (env : List UInt8 → AddrEnv) (bytes : List UInt8) : LoadResult :=
  match readAddrFile.eval bytes with
  | none => .throws
  | some (file, _) =>
    match ofFile (env file.nKey) file with
    | none => .outside
    | some am => .loaded am

/-! ### The check -/

variable (am : AddrTables)

/-- The body of the first loop of `Check_`. -/
def checkInfo (acc : Finset ℤ × Table ℤ ℤ) (it : ℤ × CAddrInfo) :
    Except ℤ (Finset ℤ × Table ℤ ℤ) :=
  let n := it.1
  let info := it.2
  if info.fInTried ∧ info.nLastSuccess = 0 then .error (-1)
  else if info.fInTried ∧ info.nRefCount ≠ 0 then .error (-2)
  else if ¬ info.fInTried ∧
      (info.nRefCount < 0 ∨ info.nRefCount > ADDRMAN_NEW_BUCKETS_PER_ADDRESS) then .error (-3)
  else if ¬ info.fInTried ∧ info.nRefCount = 0 then .error (-4)
  else if (am.mapAddr.lookup info.ip).getD 0 ≠ n then .error (-5)
  else if info.nRandomPos < 0 ∨ info.nRandomPos ≥ am.vRandom.length ∨
      am.vRandom[info.nRandomPos.toNat]? ≠ some n then .error (-14)
  else if info.nLastTry < 0 then .error (-6)
  else if info.nLastSuccess < 0 then .error (-8)
  else .ok (if info.fInTried then (insert n acc.1, acc.2)
    else (acc.1, acc.2.insert n info.nRefCount))

/-- The body of the loop over the tried buckets. -/
def checkTried (setTried : Finset ℤ) (n : ℤ) : Except ℤ (Finset ℤ) :=
  if n ∉ setTried then .error (-11) else .ok (setTried.erase n)

/-- The body of the loop over the new buckets. -/
def checkNew (mapNew : Table ℤ ℤ) (n : ℤ) : Except ℤ (Table ℤ ℤ) :=
  match mapNew.lookup n with
  | none => .error (-12)
  | some count => .ok (if count - 1 = 0 then mapNew.erase n else mapNew.insert n (count - 1))

/-- The ids in the tried buckets, in the order in which the loops visit them. -/
def triedIds : List ℤ :=
  (List.finRange ADDRMAN_TRIED_BUCKET_COUNT).flatMap am.vvTried

/-- The ids in the new buckets, once for each bucket that contains them. -/
def newIds : List ℤ :=
  (List.finRange ADDRMAN_NEW_BUCKET_COUNT).flatMap am.idsIn

/-- `Check_` up to its last return. -/
def checks : Except ℤ Unit :=
  if (am.vRandom.length : ℤ) ≠ am.nTried + am.nNew then .error (-7)
  else do
    let (setTried, mapNew) ← am.mapInfo.sortedEntries.foldlM am.checkInfo (∅, ∅)
    if (setTried.card : ℤ) ≠ am.nTried then .error (-9)
    else if (mapNew.keys.card : ℤ) ≠ am.nNew then .error (-10)
    else do
      let setTried ← am.triedIds.foldlM checkTried setTried
      let mapNew ← am.newIds.foldlM checkNew mapNew
      if setTried ≠ ∅ then .error (-13) else if mapNew ≠ ∅ then .error (-15) else .ok ()

/-- `Check_`. -/
def check : ℤ :=
  match am.checks with
  | .ok _ => 0
  | .error code => code

end AddrTables

end Phoenixcoin.Program
