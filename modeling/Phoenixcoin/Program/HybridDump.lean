import Mathlib.Data.Nat.Digits.Defs
import Phoenixcoin.Lib.Calendar
import Phoenixcoin.Lib.TextFields
import Phoenixcoin.Program.HybridWallet

/-!
# Dump files of hybrid keys

The line that `DumpHybridKeys` of `rpchybrid.cpp` prints for a key, and the parser of
`ImportHybridKeysFile` for one line, with the encodings and the time formats that they use. Text is
a list of bytes; what throws gives none.
-/

set_option autoImplicit false

namespace Phoenixcoin.Program

open Lib

abbrev Text : Type := List UInt8

/-! ## Encodings of bytes -/

def pszBase58 : Text := ascii "123456789ABCDEFGHJKLMNPQRSTUVWXYZabcdefghijkmnopqrstuvwxyz"

/-- `pszBase58[c]`. -/
def base58Char (c : ℕ) : UInt8 := pszBase58.getD c 49

def EncodeBase58 (vch : valtype) : Text :=
  let bn := ofLittleEndian vch.reverse
  let str := (Nat.digits 58 bn).map base58Char ++ (vch.takeWhile (· = 0)).map fun _ => base58Char 0
  str.reverse

variable (C : KeyCrypto)

def EncodeBase58Check (vchIn : valtype) : Text :=
  EncodeBase58 (vchIn ++ toLittleEndian 4 (C.Hash vchIn))

def pbase64 : Text := ascii "ABCDEFGHIJKLMNOPQRSTUVWXYZabcdefghijklmnopqrstuvwxyz0123456789+/"

/-- `pbase64[i]`. -/
def base64Char (i : ℕ) : UInt8 := pbase64.getD i 61

/-- One round of the loop of `EncodeBase64`: what was written, `mode` and `left`. -/
def base64Step : Text × ℕ × ℕ → UInt8 → Text × ℕ × ℕ
  | (strRet, 0, _), enc => (strRet ++ [base64Char (enc.toNat / 4)], 1, enc.toNat % 4 * 16)
  | (strRet, 1, left), enc =>
    (strRet ++ [base64Char (left ||| enc.toNat / 16)], 2, enc.toNat % 16 * 4)
  | (strRet, _, left), enc =>
    (strRet ++ [base64Char (left ||| enc.toNat / 64), base64Char (enc.toNat % 64)], 0, left)

def EncodeBase64 (pch : valtype) : Text :=
  let (strRet, mode, left) := pch.foldl base64Step ([], 0, 0)
  if mode = 0 then strRet
  else strRet ++ [base64Char left, 61] ++ if mode = 1 then [61] else []

/-- `CCoinSecret::ToString`. -/
def secretText (fTestNet : Bool) (key : CKey) : Text :=
  let nVersion := if fTestNet then 0x6F + 128 else 0x38 + 128
  EncodeBase58Check C (nVersion :: key.vchSecret ++ if key.fCompressedPubKey then [1] else [])

/-- `CCoinAddress::ToString` of a hybrid address. -/
def hybridAddressText (fTestNet : Bool) (hybridID : CHybridKeyID) : Text :=
  EncodeBase58Check C ((if fTestNet then 0x6A else 0x3A) :: toLittleEndian 20 hybridID)

def EncodeHybridPrivKey (fTestNet : Bool) (keystore : CKeyStore) (hk : CHybridKey) :
    Option (Text × Text) := do
  let key ← keystore.GetKey C (hk.GetKeyID C)
  let der ← hk.mldsaSigner
  if der = [] then none else some (secretText C fTestNet key, EncodeBase64 der)

/-! ## Labels -/

def hexmap : Text := ascii "0123456789abcdef"

def HexStr (vch : valtype) : Text :=
  vch.flatMap fun val => [hexmap.getD (val.toNat / 16) 0, hexmap.getD (val.toNat % 16) 0]

def EncodeDumpStringHybrid (str : Text) : Text :=
  str.flatMap fun c => if c ≤ 32 ∨ c ≥ 128 ∨ c = 37 then 37 :: HexStr [c] else [c]

/-- The arithmetic of `DecodeDumpStringHybrid` on one digit, a signed `char`. -/
def hexDigitValue (c : UInt8) : BitVec 32 :=
  let str := c.toBitVec.signExtend 32
  str.sshiftRight 6 * 9 + (str - 48 &&& 15)

def hexPair (high low : UInt8) : UInt8 :=
  UInt8.ofBitVec ((hexDigitValue high <<< 4 ||| hexDigitValue low).setWidth 8)

def DecodeDumpStringHybrid : Text → Text
  | [] => []
  | [c] => [c]
  | [c, d] => [c, d]
  | c :: high :: low :: rest =>
    if c = 37 then hexPair high low :: DecodeDumpStringHybrid rest
    else c :: DecodeDumpStringHybrid (high :: low :: rest)

/-! ## Times -/

inductive TimeField where
  | year
  | month
  | day
  | hour
  | min
  | sec
deriving DecidableEq, Repr

namespace TimeField

def get (tm : CivilTime) : TimeField → ℤ
  | year => tm.year
  | month => tm.month
  | day => tm.day
  | hour => tm.hour
  | min => tm.min
  | sec => tm.sec

def set (tm : CivilTime) (v : ℤ) : TimeField → CivilTime
  | year => { tm with year := v }
  | month => { tm with month := v }
  | day => { tm with day := v }
  | hour => { tm with hour := v }
  | min => { tm with min := v }
  | sec => { tm with sec := v }

/-- The width with which `strprintf` prints the field. -/
def width (field : TimeField) : ℕ := if field = year then 4 else 2

end TimeField

/-- The fields of a format, each with the text behind it. -/
abbrev TimeFormat : Type := List (TimeField × Text)

/-- The formats of `DecodeDumpTimeHybrid`, in the order in which it tries them. -/
def dumpTimeFormats : List TimeFormat := [
  [(.year, ascii "-"), (.month, ascii "-"), (.day, ascii "T"), (.hour, ascii ":"),
    (.min, ascii ":"), (.sec, ascii "Z")],
  [(.year, ascii "-"), (.month, ascii "-"), (.day, ascii "~"), (.hour, ascii ":"),
    (.min, ascii ":"), (.sec, [])],
  [(.year, ascii "-"), (.month, ascii "-"), (.day, ascii " "), (.hour, ascii ":"),
    (.min, ascii ":"), (.sec, [])],
  [(.year, ascii "/"), (.month, ascii "/"), (.day, ascii " "), (.hour, ascii ":"),
    (.min, ascii ":"), (.sec, [])],
  [(.day, ascii "."), (.month, ascii "."), (.year, ascii " "), (.hour, ascii ":"),
    (.min, ascii ":"), (.sec, [])],
  [(.year, ascii "-"), (.month, ascii "-"), (.day, [])]]

/-- `strprintf` of the fields with a format. -/
def printTime (format : TimeFormat) (tm : CivilTime) : Text :=
  format.flatMap fun field => printInt field.1.width (field.1.get tm) ++ field.2

/-- What `sscanf` matches between two conversions. -/
def scanLiteral : Text → Text → Option Text
  | [], s => some s
  | c :: literal, s =>
    if isBlank c then scanLiteral literal (s.dropWhile isBlank)
    else if s.head? = some c then scanLiteral literal s.tail
    else none

/-- What `%d` makes of the number that it read: `strtol`, and then an `int`. -/
def scannedInt (v : ℤ) : ℤ := toInt32 (max (-2 ^ 63) (min (2 ^ 63 - 1) v))

/-- `sscanf` with all conversions of a format; the text behind the last one is not looked at. -/
def scanTime : TimeFormat → Text → CivilTime → Option CivilTime
  | [], _, tm => some tm
  | (field, literal) :: format, s, tm => do
    let (v, s) ← readInt s
    let tm := field.set tm (scannedInt v)
    if format = [] then some tm else scanTime format (← scanLiteral literal s) tm

def IsValidDateTime (tm : CivilTime) : Bool :=
  if tm.month < 1 ∨ tm.month > 12 ∨ tm.day < 1 ∨ tm.day > 31 ∨ tm.hour < 0 ∨ tm.hour > 23 ∨
      tm.min < 0 ∨ tm.min > 59 ∨ tm.sec < 0 ∨ tm.sec > 59 then false
  else if tm.day = 31 ∧ (tm.month = 4 ∨ tm.month = 6 ∨ tm.month = 9 ∨ tm.month = 11) then false
  else if tm.month = 2 ∧ tm.day > (if isLeap tm.year then 29 else 28) then false
  else true

/-- `PortableGmtime`: none where the year since 1900 is no `int`. -/
def PortableGmtime (t : ℤ) : Option CivilTime :=
  let tm := civil t
  if -2 ^ 31 ≤ tm.year - 1900 ∧ tm.year - 1900 < 2 ^ 31 then some tm else none

/-- One block of `DecodeDumpTimeHybrid`. -/
def decodeTimeAs (s : Text) (format : TimeFormat) : Option ℤ := do
  let tm ← scanTime format s ⟨0, 0, 0, 0, 0, 0⟩
  if s ≠ printTime format tm then none
  else if ¬ IsValidDateTime tm then none
  else if tm.seconds = -1 then none
  else if PortableGmtime tm.seconds ≠ some tm then none
  else some tm.seconds

def DecodeDumpTimeHybrid (s : Text) : Option ℤ :=
  if s = [] then none else dumpTimeFormats.findSome? fun format => decodeTimeAs s format

/-- `EncodeDumpTimeHybrid`. The year that `strftime` prints is an `int`, the one of `gmtime` with
1900 added to it; there is no text where this overflows. -/
def EncodeDumpTimeHybrid (nTime : ℤ) : Option Text := do
  let tm ← PortableGmtime nTime
  if 2 ^ 31 ≤ tm.year then none
  else some (printInt 0 tm.year ++ ascii "-" ++ printInt 2 tm.month ++ ascii "-" ++
    printInt 2 tm.day ++ ascii "T" ++ printInt 2 tm.hour ++ ascii ":" ++ printInt 2 tm.min ++
    ascii ":" ++ printInt 2 tm.sec ++ ascii "Z")

/-! ## Lines -/

namespace HybridWallet

variable (w : HybridWallet)

/-- The label of a hybrid address, empty where it has none. -/
def hybridLabel (hybridID : CHybridKeyID) : Text :=
  ((w.mapHybridAddressBook.lookup hybridID).map CHybridAddressEntry.strLabel).getD []

def dumpFlags (hybridID : CHybridKeyID) : Text :=
  if w.hybridLabel hybridID ≠ [] then
    ascii "label=" ++ EncodeDumpStringHybrid (w.hybridLabel hybridID)
  else if hybridID ∈ w.setUnusedHybridKeys then ascii "reserve=1"
  else ascii "change=1"

/-- The line of `DumpHybridKeys` for a key. -/
def dumpLine (fTestNet : Bool) (hybridID : CHybridKeyID) (hk : CHybridKey) : Option Text := do
  let (wif, derB64) ← EncodeHybridPrivKey C fTestNet w.toCKeyStore hk
  let strTime ← EncodeDumpTimeHybrid hk.nCreateTime
  some (wif ++ ascii " " ++ derB64 ++ ascii " " ++ strTime ++ ascii " " ++
    w.dumpFlags hybridID ++ ascii " # addr=" ++ hybridAddressText C fTestNet hybridID ++
    ascii " # mldsa_alg=" ++ hk.mldsaAlg ++ ascii "\n")

end HybridWallet

/-- `std::getline`: a line without its end, and what is behind it. -/
def getline (file : Text) : Text × Text :=
  (file.takeWhile (· ≠ 10), (file.dropWhile (· ≠ 10)).tail)

/-- What `ImportHybridKeysFile` makes of a line. -/
inductive ImportLine where
  | skipped
  | malformed
  | key (wif der : Text) (nTime : ℤ) (strLabel : Text)
deriving DecidableEq, Repr

/-- One round of the loop over the flags: `strLabel` and `fLabel`. -/
def labelStep (found : Text × Bool) (word : Text) : Text × Bool :=
  let fLabel := if word = ascii "change=1" then false else found.2
  let fLabel := if word = ascii "reserve=1" then false else fLabel
  if (ascii "label=").isPrefixOf word then (DecodeDumpStringHybrid (word.drop 6), true)
  else (found.1, fLabel)

def readLabel (flags : List Text) : Text :=
  let found := (flags.takeWhile fun word => ¬ (ascii "#").isPrefixOf word).foldl labelStep
    ([], false)
  if found.2 then found.1 else []

def readImportLine (line : Text) : ImportLine :=
  if line = [] ∨ line.head? = some 35 then .skipped
  else
    match words line with
    | wif :: der :: time :: flags =>
      match DecodeDumpTimeHybrid time with
      | none => .malformed
      | some nTime => if nTime ≤ 0 then .malformed else .key wif der nTime (readLabel flags)
    | _ => .malformed

end Phoenixcoin.Program
