import Phoenixcoin.Program.AddrMan
import Phoenixcoin.Program.HybridDump

/-!
# Texts for bytes and the names of hidden services

`DecodeBase64`, `EncodeBase32` and `DecodeBase32` of `util.cpp`, `DecodeBase58` and
`DecodeBase58Check` of `base58.h`; the other encoders stand with the dump files. A text is what
stands before the terminating NUL, and what reads behind it gives none. With them, `SplitHostPort`,
`Lookup`, `SetSpecial`, `ToStringIP` and `ToStringIPPort` of `netbase.cpp`; what `getnameinfo`
prints for other addresses and what `getaddrinfo` finds are parameters.
-/

set_option autoImplicit false

namespace Phoenixcoin.Program

open Lib

def pbase32 : Text := ascii "abcdefghijklmnopqrstuvwxyz234567"

/-- `pbase32[i]`. -/
def base32Char (i : ℕ) : UInt8 := pbase32.getD i 61

/-- One round of the loop of `EncodeBase32`. -/
def base32Step : Text × ℕ × ℕ → UInt8 → Text × ℕ × ℕ
  | (strRet, 0, _), enc => (strRet ++ [base32Char (enc.toNat / 8)], 1, enc.toNat % 8 * 4)
  | (strRet, 1, left), enc =>
    (strRet ++ [base32Char (left ||| enc.toNat / 64), base32Char (enc.toNat / 2 % 32)], 2,
      enc.toNat % 2 * 16)
  | (strRet, 2, left), enc =>
    (strRet ++ [base32Char (left ||| enc.toNat / 16)], 3, enc.toNat % 16 * 2)
  | (strRet, 3, left), enc =>
    (strRet ++ [base32Char (left ||| enc.toNat / 128), base32Char (enc.toNat / 4 % 32)], 4,
      enc.toNat % 4 * 8)
  | (strRet, _, left), enc =>
    (strRet ++ [base32Char (left ||| enc.toNat / 32), base32Char (enc.toNat % 32)], 0, left)

/-- The padding of `EncodeBase32`. -/
def nPadding : ℕ → ℕ
  | 0 => 0
  | 1 => 6
  | 2 => 4
  | 3 => 3
  | _ => 1

def EncodeBase32 (pch : valtype) : Text :=
  let (strRet, mode, left) := pch.foldl base32Step ([], 0, 0)
  if mode = 0 then strRet else strRet ++ base32Char left :: List.replicate (nPadding mode) 61

/-! ## Decoders -/

/-- `decode64_table`; none stands for -1. -/
def decode64_table (c : UInt8) : Option ℕ :=
  if 65 ≤ c ∧ c ≤ 90 then some (c.toNat - 65)
  else if 97 ≤ c ∧ c ≤ 122 then some (c.toNat - 71)
  else if 48 ≤ c ∧ c ≤ 57 then some (c.toNat + 4)
  else if c = 43 then some 62
  else if c = 47 then some 63
  else none

/-- `decode32_table`; none stands for -1. -/
def decode32_table (c : UInt8) : Option ℕ :=
  if 65 ≤ c ∧ c ≤ 90 then some (c.toNat - 65)
  else if 97 ≤ c ∧ c ≤ 122 then some (c.toNat - 97)
  else if 50 ≤ c ∧ c ≤ 55 then some (c.toNat - 24)
  else none

/-- One round of the loop of `DecodeBase64`: what was pushed, `mode` and `left`. -/
def decode64Step : valtype × ℕ × ℕ → ℕ → valtype × ℕ × ℕ
  | (vchRet, 0, _), dec => (vchRet, 1, dec)
  | (vchRet, 1, left), dec => (vchRet ++ [UInt8.ofNat (left * 4 ||| dec / 16)], 2, dec % 16)
  | (vchRet, 2, left), dec => (vchRet ++ [UInt8.ofNat (left * 16 ||| dec / 4)], 3, dec % 4)
  | (vchRet, _, left), dec => (vchRet ++ [UInt8.ofNat (left * 64 ||| dec)], 0, left)

/-- One round of the loop of `DecodeBase32`. -/
def decode32Step : valtype × ℕ × ℕ → ℕ → valtype × ℕ × ℕ
  | (vchRet, 0, _), dec => (vchRet, 1, dec)
  | (vchRet, 1, left), dec => (vchRet ++ [UInt8.ofNat (left * 8 ||| dec / 4)], 2, dec % 4)
  | (vchRet, 2, left), dec => (vchRet, 3, left * 32 ||| dec)
  | (vchRet, 3, left), dec => (vchRet ++ [UInt8.ofNat (left * 2 ||| dec / 16)], 4, dec % 16)
  | (vchRet, 4, left), dec => (vchRet ++ [UInt8.ofNat (left * 16 ||| dec / 2)], 5, dec % 2)
  | (vchRet, 5, left), dec => (vchRet, 6, left * 32 ||| dec)
  | (vchRet, 6, left), dec => (vchRet ++ [UInt8.ofNat (left * 4 ||| dec / 8)], 7, dec % 8)
  | (vchRet, _, left), dec => (vchRet ++ [UInt8.ofNat (left * 32 ||| dec)], 0, left)

/-- How many `'='` the last `switch` of `DecodeBase64` asks for; none is impossible. -/
def padding64 : ℕ → Option ℕ
  | 0 | 1 => none
  | 2 => some 2
  | _ => some 1

/-- How many `'='` the last `switch` of `DecodeBase32` asks for. -/
def padding32 : ℕ → Option ℕ
  | 0 | 1 | 3 | 6 => none
  | 2 => some 6
  | 4 => some 4
  | 5 => some 3
  | _ => some 1

section Decode

variable (table : UInt8 → Option ℕ) (step : valtype × ℕ × ℕ → ℕ → valtype × ℕ × ℕ)
  (padding : ℕ → Option ℕ)

/-- The loop of a decoder; it ends where the table has -1, and looks up the NUL as well. -/
def decodeLoop : Text → valtype × ℕ × ℕ → Option ((valtype × ℕ × ℕ) × Text)
  | [], state => if (table 0).isSome then none else some (state, [])
  | c :: p, state =>
    match table c with
    | none => some (state, c :: p)
    | some dec => decodeLoop p (step state dec)

/-- From `p[i]` on, `n` characters are not all `'='`, or a character of the table follows. -/
def badPadding (p : Text) : ℕ → ℕ → Option Bool
  | 0, i => do some (table (← (p ++ [0])[i]?)).isSome
  | n + 1, i => do if (← (p ++ [0])[i]?) ≠ 61 then some true else badPadding p n (i + 1)

/-- A decoder: the bytes and `*pfInvalid`. -/
def decodeBase (p : Text) : Option (valtype × Bool) := do
  let ((vchRet, mode, left), p) ← decodeLoop table step p ([], 0, 0)
  let fInvalid ← (if mode = 0 then some false
    else match padding mode with
      | none => some true
      | some n => if left ≠ 0 then some true else badPadding table p n 0)
  some (vchRet, fInvalid)

end Decode

def DecodeBase64 (p : Text) : Option (valtype × Bool) :=
  decodeBase decode64_table decode64Step padding64 p

def DecodeBase32 (p : Text) : Option (valtype × Bool) :=
  decodeBase decode32_table decode32Step padding32 p

/-! ## Base 58 -/

/-- The loop of `DecodeBase58` over digits. What follows them is white space up to the end. -/
def decode58Loop (bn : ℕ) : Text → Option ℕ
  | [] => some bn
  | c :: p =>
    match pszBase58.idxOf? c with
    | none => if (c :: p).dropWhile isBlank = [] then some bn else none
    | some bnChar => decode58Loop (bn * 58 + bnChar) p

/-- `DecodeBase58` of a C string. The overload for a `std::string` passes `c_str()`, which is the
string up to its first NUL. -/
def DecodeBase58 (psz : Text) : Option valtype := do
  let psz := psz.dropWhile isBlank
  let bn ← decode58Loop 0 psz
  let nLeadingZeros := (psz.takeWhile (· = base58Char 0)).length
  some (List.replicate nLeadingZeros 0 ++ ((Nat.digits 256 bn).map UInt8.ofNat).reverse)

def DecodeBase58Check (C : KeyCrypto) (psz : Text) : Option valtype := do
  let vchRet ← DecodeBase58 psz
  if vchRet.length < 4 then none
  else
    let vch := vchRet.take (vchRet.length - 4)
    if toLittleEndian 4 (C.Hash vch) = vchRet.drop (vchRet.length - 4) then some vch else none

/-! ## Hidden services -/

def pchIPv4 : valtype := List.replicate 10 0 ++ [0xFF, 0xFF]
def pchOnionCat : valtype := [0xFD, 0x87, 0xD8, 0x7E, 0xEB, 0x43]
def pchGarliCat : valtype := [0xFD, 0x60, 0xDB, 0x4D, 0xDD, 0xB5]

def IsIPv4 (ip : CNetAddr) : Bool := ip.take 12 = pchIPv4
def IsTor (ip : CNetAddr) : Bool := ip.take 6 = pchOnionCat
def IsI2P (ip : CNetAddr) : Bool := ip.take 6 = pchGarliCat

/-- The name is longer than a suffix and ends with it. -/
def hasSuffix (strName suffix : Text) : Bool :=
  strName.length > suffix.length ∧ strName.drop (strName.length - suffix.length) = suffix

/-- The body of a branch of `SetSpecial`: ten bytes behind a prefix. -/
def setSpecialBytes (pch : valtype) (strName suffix : Text) : Option CNetAddr := do
  let (vchAddr, _) ← DecodeBase32
    ((strName.take (strName.length - suffix.length)).takeWhile (· ≠ 0))
  if vchAddr.length ≠ 10 then none else some (pch ++ vchAddr)

def SetSpecial (strName : Text) : Option CNetAddr :=
  if hasSuffix strName (ascii ".onion") then setSpecialBytes pchOnionCat strName (ascii ".onion")
  else if hasSuffix strName (ascii ".oc.b32.i2p") then
    -- the bytes behind are counted with the size of `pchGarliCat`, but these are copied
    setSpecialBytes pchOnionCat strName (ascii ".oc.b32.i2p")
  else none

section Print

variable (name : CNetAddr → Text)

def ToStringIP (ip : CNetAddr) : Text :=
  if IsTor ip then EncodeBase32 ((ip.drop 6).take 10) ++ ascii ".onion"
  else if IsI2P ip then EncodeBase32 ((ip.drop 6).take 10) ++ ascii ".oc.b32.i2p"
  else name ip

def ToStringIPPort (service : CService) : Text :=
  if IsIPv4 service.ip || IsTor service.ip || IsI2P service.ip then
    ToStringIP name service.ip ++ 58 :: numeral service.port
  else 91 :: ToStringIP name service.ip ++ 93 :: 58 :: numeral service.port

end Print

/-- `in.find_last_of(':')`. -/
def findLastColon (s : Text) : Option ℕ :=
  if 58 ∈ s then some (s.length - 1 - (s.reverse.takeWhile (· ≠ 58)).length) else none

/-- `strtol` as an `int`, and what is left of the text. -/
def strtol (s : Text) : ℤ × Text :=
  let s := s.takeWhile (· ≠ 0)
  match readInt s with
  | none => (0, s)
  | some (v, endp) => (toInt32 (max (-2 ^ 63) (min v (2 ^ 63 - 1))), endp)

/-- The port and the host. -/
def SplitHostPort (s : Text) (portOut : ℤ) : ℤ × Text :=
  let (portOut, s) := match findLastColon s with
    | none => (portOut, s)
    | some colon =>
      let fBracketed := s.head? = some 91 ∧ s[colon - 1]? = some 93
      let fMultiColon := colon = 0 ∨ 58 ∈ s.take colon
      if colon = 0 ∨ fBracketed ∨ ¬ fMultiColon then
        let (n, endp) := strtol (s.drop (colon + 1))
        if endp = [] ∧ n ≥ 0 then (if n > 0 ∧ n < 0x10000 then n else portOut, s.take colon)
        else (portOut, s)
      else (portOut, s)
  (portOut, if s.length > 0 ∧ s.head? = some 91 ∧ s.getLast? = some 93 then
    (s.drop 1).take (s.length - 2) else s)

/-- `Lookup` for one address. -/
def Lookup (getaddrinfo : Text → Option CNetAddr) (pszName : Text) (portDefault : ℤ) :
    Option CService :=
  if pszName = [] then none
  else
    let (port, hostname) := SplitHostPort pszName portDefault
    ((SetSpecial hostname).or (getaddrinfo hostname)).map fun ip =>
      ⟨ip, (port % 2 ^ 16).toNat⟩

end Phoenixcoin.Program
