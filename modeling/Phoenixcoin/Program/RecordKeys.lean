import Phoenixcoin.Program.Accounts
import Phoenixcoin.Program.HybridDump
import Phoenixcoin.Program.LmdbEnv

/-!
# The keys of the wallet's records

The keys under which `CWalletDB` writes, with the type of the record in front, and a write with
either of the two engines. Berkeley DB takes keys of any length.
-/

set_option autoImplicit false

namespace Phoenixcoin.Program

open Lib

/-- A public key of the wallet, compressed or not. -/
structure WalletPubKey where
  vchPubKey : valtype
  length_le : vchPubKey.length ≤ 65

/-- `CCoinAddress::ToString`. -/
def addressText (C : KeyCrypto) (fTestNet : Bool) : CTxDestination → Text
  | .key keyID =>
    EncodeBase58Check C ((if fTestNet then 0x6F else 0x38) :: toLittleEndian 20 keyID)
  | .script scriptID =>
    EncodeBase58Check C ((if fTestNet then 0x34 else 0x3F) :: toLittleEndian 20 scriptID)
  | .hybridKey hybridID => hybridAddressText C fTestNet hybridID

/-- What the wallet writes records under. -/
inductive WalletRecordKey where
  | name (address : CTxDestination)
  | tx (hash : uint256)
  | keymeta (vchPubKey : WalletPubKey)
  | key (vchPubKey : WalletPubKey)
  | ckey (vchPubKey : WalletPubKey)
  | mkey (nID : ℕ)
  | cscript (hash : uint160)
  | watch (dest : CScript)
  | bestblock
  | orderposnext
  | defaultkey
  | pool (nPool : ℤ)
  /-- The only setting that is still written. -/
  | addrIncoming
  | version
  | minversion
  | acc (strAccount : List UInt8)
  | acentry (strAccount : List UInt8) (nAccEntryNum : ℕ)
  | hyb (keyID : CHybridKeyID)
  | hybaddr (keyID : CHybridKeyID)
  | hybused

namespace WalletRecordKey

def strType : WalletRecordKey → String
  | name _ => "name"
  | tx _ => "tx"
  | keymeta _ => "keymeta"
  | key _ => "key"
  | ckey _ => "ckey"
  | mkey _ => "mkey"
  | cscript _ => "cscript"
  | watch _ => "watch"
  | bestblock => "bestblock"
  | orderposnext => "orderposnext"
  | defaultkey => "defaultkey"
  | pool _ => "pool"
  | addrIncoming => "setting"
  | version => "version"
  | minversion => "minversion"
  | acc _ => "acc"
  | acentry _ _ => "acentry"
  | hyb _ => "hyb"
  | hybaddr _ => "hybaddr"
  | hybused => "hybused"

/-- What follows the type. -/
def argument (C : KeyCrypto) (fTestNet : Bool) : WalletRecordKey → List UInt8
  | name address => stringCodec.write (addressText C fTestNet address)
  | tx hash => toLittleEndian 32 hash
  | keymeta vchPubKey => ucharVector.write vchPubKey.vchPubKey
  | key vchPubKey => ucharVector.write vchPubKey.vchPubKey
  | ckey vchPubKey => ucharVector.write vchPubKey.vchPubKey
  | mkey nID => toLittleEndian 4 nID
  | cscript hash => toLittleEndian 20 hash
  | watch dest => ucharVector.write dest
  | pool nPool => int64Codec.write nPool
  | addrIncoming => stringCodec.write (ascii "addrIncoming")
  | acc strAccount => stringCodec.write strAccount
  | acentry strAccount nAccEntryNum => stringCodec.write strAccount ++ toLittleEndian 8 nAccEntryNum
  | hyb keyID => toLittleEndian 20 keyID
  | hybaddr keyID => toLittleEndian 20 keyID
  | bestblock | orderposnext | defaultkey | version | minversion | hybused => []

/-- The key as it is serialised. -/
def bytes (C : KeyCrypto) (fTestNet : Bool) (key : WalletRecordKey) : CDBKey :=
  stringCodec.write key.strType.toUTF8.toList ++ key.argument C fTestNet

end WalletRecordKey

/-- `pdb->put` on the records that the transaction sees. -/
def bdbPut (key : CDBKey) (value : CDBValue) (fOverwrite : Bool) (contents : DbContents) :
    Option DbContents :=
  if ¬ fOverwrite ∧ key ∈ contents then none else some (contents.insert key value)

end Phoenixcoin.Program
