import Phoenixcoin.Program.Script
import Mathlib.Data.Finset.Basic

/-!
# Alerts

`CAlert` of `alert.cpp`: the effect and the cancellation of an alert, and `ProcessAlert` on
the map of alerts. The digest, the signature check under the alert key and the decoding of
the signed message are parameters.
-/

set_option autoImplicit false

namespace Phoenixcoin.Program

/-- `std::numeric_limits<int>::max()`, the ID of the alert about a compromised key. -/
def maxInt : ℤ := 0x7FFFFFFF

structure CUnsignedAlert where
  nVersion : ℤ
  nRelayUntil : ℤ
  nExpiration : ℤ
  nID : ℤ
  nCancel : ℤ
  setCancel : Finset ℤ
  nMinVer : ℤ
  nMaxVer : ℤ
  setSubVer : Finset String
  nPriority : ℤ
  strComment : String
  strStatusBar : String
  strReserved : String

structure CAlert extends CUnsignedAlert where
  vchMsg : valtype
  vchSig : valtype

variable (alert : CUnsignedAlert)

def CUnsignedAlert.IsInEffect (adjustedTime : ℤ) : Bool :=
  adjustedTime < alert.nExpiration

/-- The two ways in which an alert names the IDs that it cancels. -/
def CUnsignedAlert.CancelsID (nID : ℤ) : Bool :=
  nID ≤ alert.nCancel || nID ∈ alert.setCancel

def CUnsignedAlert.Cancels (this : CUnsignedAlert) (adjustedTime : ℤ) (alert : CUnsignedAlert) :
    Bool :=
  this.IsInEffect adjustedTime && this.CancelsID alert.nID

/-- The fields that `ProcessAlert` requires of an alert with the largest ID. -/
def CUnsignedAlert.IsPreDefined : Bool :=
  alert.nExpiration = maxInt && alert.nCancel = maxInt - 1 && alert.nMinVer = 0
    && alert.nMaxVer = maxInt && alert.setSubVer = ∅ && alert.nPriority = maxInt
    && alert.strStatusBar = "URGENT: Alert key compromised, upgrade required"

/-- What `alert.cpp` calls. `nID` is a 32-bit `int`. -/
structure AlertEnv where
  Hash : valtype → uint256
  Verify : uint256 → valtype → Bool
  unserialize : valtype → Option CUnsignedAlert
  nID_le : ∀ vchMsg alert, unserialize vchMsg = some alert → alert.nID ≤ maxInt

/-- A call of `ProcessAlert`: the adjusted time and the two vectors that were received. -/
structure AlertCall where
  adjustedTime : ℤ
  vchMsg : valtype
  vchSig : valtype
deriving DecidableEq

namespace AlertEnv

variable (E : AlertEnv)

def GetHash (alert : CAlert) : uint256 := E.Hash alert.vchMsg

/-- `CheckSignature`, which also decodes the message; `none` is a failed check or an
exception of the decoder. -/
def CheckSignature (vchMsg vchSig : valtype) : Option CAlert :=
  if E.Verify (E.Hash vchMsg) vchSig then
    match E.unserialize vchMsg with
    | none => none
    | some alert => some ⟨alert, vchMsg, vchSig⟩
  else none

abbrev AlertMap : Type := Std.TreeMap uint256 CAlert

/-- The first loop of `ProcessAlert`: what the new alert leaves of the map. -/
def cancelPrevious (this : CAlert) (adjustedTime : ℤ) (mapAlerts : AlertMap) : AlertMap :=
  mapAlerts.filter fun _ alert =>
    ¬ this.Cancels adjustedTime alert.toCUnsignedAlert ∧ alert.IsInEffect adjustedTime

def ProcessAlert (mapAlerts : AlertMap) (call : AlertCall) : Bool × AlertMap :=
  match E.CheckSignature call.vchMsg call.vchSig with
  | none => (false, mapAlerts)
  | some this =>
    if ¬ this.IsInEffect call.adjustedTime then (false, mapAlerts)
    else if this.nID = maxInt ∧ ¬ this.IsPreDefined then (false, mapAlerts)
    else
      let mapAlerts := cancelPrevious this call.adjustedTime mapAlerts
      if mapAlerts.toList.any fun item =>
          item.2.Cancels call.adjustedTime this.toCUnsignedAlert then
        (false, mapAlerts)
      else (true, mapAlerts.insertIfNew (E.GetHash this) this)

/-- The map after a sequence of calls. -/
def processAlerts (mapAlerts : AlertMap) (calls : List AlertCall) : AlertMap :=
  calls.foldl (fun mapAlerts call => (E.ProcessAlert mapAlerts call).2) mapAlerts

end AlertEnv

end Phoenixcoin.Program
