import Phoenixcoin.Lib.TextFields
import Phoenixcoin.Program.CoinSelection
import Phoenixcoin.Program.Int64

/-!
# Amounts as text

`FormatMoney` and `ParseMoney` of `util.cpp`. Texts are lists of bytes in the C locale; a C string
ends at its first zero byte. A number that leaves the range of `int64` has no defined value in the
source, and the call no result.
-/

set_option autoImplicit false

namespace Phoenixcoin.Program

open Lib

/-! ## Printing -/

/-- The zeros taken off the end of `str`, which comes in reverse order: `str[i]` is the first and
`str[i-2]` the third. -/
def trimZeros : List UInt8 → List UInt8
  | c :: d :: e :: str =>
    if c = 48 ∧ isDigit e then trimZeros (d :: e :: str) else c :: d :: e :: str
  | str => str

def FormatMoney (n : ℤ) (fPlus : Bool) : Option (List UInt8) := do
  let n_abs ← (if n > 0 then some n else int64 (-n))
  let quotient := n_abs / COIN
  let remainder := n_abs % COIN
  let str := printInt 0 quotient ++ 46 :: printInt 8 remainder
  let str := (trimZeros str.reverse).reverse
  return if n < 0 then 45 :: str else if fPlus ∧ n > 0 then 43 :: str else str

/-! ## Reading -/

/-- The loop behind the point: `nUnits` and the rest of the text. -/
def parseFraction (nMult nUnits : ℤ) : List UInt8 → Option (ℤ × List UInt8)
  | [] => some (nUnits, [])
  | c :: p =>
    if isDigit c ∧ nMult > 0 then do
      let nUnits ← int64 (nUnits + nMult * (c.toNat - 48 : ℕ))
      parseFraction (nMult / 10) nUnits p
    else some (nUnits, c :: p)

/-- The loop up to the first blank: `strWhole`, `nUnits` and the rest of the text. -/
def parseWhole (strWhole : List UInt8) : List UInt8 → Option (List UInt8 × ℤ × List UInt8)
  | [] => some (strWhole, 0, [])
  | c :: p =>
    if c = 46 then (parseFraction (CENT * 10) 0 p).map (Prod.mk strWhole)
    else if isBlank c then some (strWhole, 0, c :: p)
    else if ¬ isDigit c then none
    else parseWhole (strWhole ++ [c]) p

def ParseMoney (str : List UInt8) : Option ℤ := do
  let p := (str.takeWhile (· ≠ 0)).dropWhile isBlank
  let (strWhole, nUnits, p) ← parseWhole [] p
  guard (p.all isBlank)
  guard (¬ strWhole.length > 10)
  guard (¬ (nUnits < 0 ∨ nUnits > COIN))
  let nWhole := atoi64 strWhole
  let nValue ← int64 (nWhole * COIN)
  int64 (nValue + nUnits)

end Phoenixcoin.Program
