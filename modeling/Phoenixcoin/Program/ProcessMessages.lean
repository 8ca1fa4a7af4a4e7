import Phoenixcoin.Lib.Framing
import Phoenixcoin.Program.BlockRules
import Phoenixcoin.Program.Serialize

/-!
# Taking messages from a peer's bytes

`ProcessMessages` of `main.cpp` with `CMessageHeader` and the operations of `CDataStream` that it
uses. An iterator into a stream is a position in `vch`.
-/

set_option autoImplicit false

namespace Phoenixcoin.Program

open Lib

/-! ## Streams -/

namespace CDataStream

variable (s : CDataStream)

def size : ℕ := s.vch.length - s.nReadPos.toNat

def empty : Bool := s.vch.length = s.nReadPos.toNat

/-- New bytes behind the content. -/
def append (bytes : List UInt8) : CDataStream :=
  ⟨s.vch ++ bytes, s.nReadPos, by have := s.nReadPos_le; simp; omega⟩

/-- `insert(begin(), first, last)`. -/
def insertFront (bytes : List UInt8) : CDataStream :=
  if h : bytes.length ≤ s.nReadPos.toNat then
    -- special case for inserting at the front when there's room
    ⟨s.vch.take (s.nReadPos.toNat - bytes.length) ++ bytes ++ s.vch.drop s.nReadPos.toNat,
      UInt32.ofNat (s.nReadPos.toNat - bytes.length), by
        have := s.nReadPos_le
        have := Nat.mod_le (s.nReadPos.toNat - bytes.length) (2 ^ 32)
        simp
        omega⟩
  else
    ⟨s.vch.take s.nReadPos.toNat ++ bytes ++ s.vch.drop s.nReadPos.toNat, s.nReadPos, by
      have := s.nReadPos_le
      simp
      omega⟩

/-- `erase(begin(), last)`. -/
def eraseFront (last : ℕ) (h : last ≤ s.vch.length) : CDataStream :=
  if last = s.vch.length then ofBytes []
  else ⟨s.vch, UInt32.ofNat last, by
    have := Nat.mod_le last (2 ^ 32)
    simp
    omega⟩

/-- `ignore` moves as `read` does. -/
def ignore (nSize : ℕ) : CDataStream := (s.read nSize).2

def Compact : CDataStream := ofBytes s.remaining

end CDataStream

/-! ## Headers -/

structure CMessageHeader where
  pchMessageStart : List UInt8
  pchCommand : List UInt8
  nMessageSize : ℕ
  nChecksum : ℕ

def nHeaderSize : ℕ := 24

/-- `s >> hdr`. -/
def CDataStream.readHeader (s : CDataStream) : CMessageHeader × CDataStream :=
  let pchMessageStart := s.read 4
  let pchCommand := pchMessageStart.2.read 12
  let nMessageSize := pchCommand.2.read 4
  let nChecksum := nMessageSize.2.read 4
  (⟨pchMessageStart.1, pchCommand.1, ofLittleEndian nMessageSize.1, ofLittleEndian nChecksum.1⟩,
    nChecksum.2)

/-- `IsCommandValid`: letters from `a` to `z`, then zeros. -/
def CMessageHeader.IsCommandValid (hdr : CMessageHeader) : Bool :=
  let letters := hdr.pchCommand.takeWhile fun c => 0x61 ≤ c && c ≤ 0x7a
  letters ≠ [] && letters.length ≠ 12 && (hdr.pchCommand.drop letters.length).all fun c => c = 0

/-- `string(hdr.pchCommand)`. -/
def CMessageHeader.command (hdr : CMessageHeader) : List UInt8 :=
  hdr.pchCommand.takeWhile fun c => c ≠ 0

/-! ## Messages -/

/-- A command and its payload. -/
abbrev PeerMessage : Type := List UInt8 × List UInt8

/-- What `ProcessMessages` depends on elsewhere. The rest of the node may answer differently after
each message that `ProcessMessage` has been given: the send buffer may be full, a misbehaving peer
is disconnected by `CloseSocketDisconnect`, and the program may shut down. -/
structure MessageEnv where
  pchMessageStart : List UInt8
  length_pchMessageStart : pchMessageStart.length = 4
  Hash : List UInt8 → uint256
  sendBufferFull : List PeerMessage → Bool
  closesSocket : List PeerMessage → Bool
  fShutdown : List PeerMessage → Bool

/-- `CNode` as far as its receive buffer goes, with the messages that `ProcessMessage` has been
given. -/
structure CNode where
  vRecv : CDataStream
  fConnected : Bool
  handed : List PeerMessage

def CNode.new : CNode := ⟨.ofBytes [], true, []⟩

/-- How a round of the loop of `ProcessMessages` ends. -/
inductive RoundEnd where
  | again (pfrom : CNode)
  | leave (pfrom : CNode)
  | shutDown (pfrom : CNode)

namespace MessageEnv

variable (E : MessageEnv)

/-- `ProcessMessage`, which may call `CloseSocketDisconnect`. -/
def processMessage (msg : PeerMessage) (pfrom : CNode) : CNode :=
  let handed := pfrom.handed ++ [msg]
  if E.closesSocket handed ∧ pfrom.fConnected then ⟨.ofBytes [], false, handed⟩
  else { pfrom with handed }

variable (pfrom : CNode)

/-- A round, from the header on. -/
def processHeader : RoundEnd :=
  let vHeaderSave := pfrom.vRecv.remaining.take nHeaderSize
  let hdr := pfrom.vRecv.readHeader.1
  let vRecv := pfrom.vRecv.readHeader.2
  if ¬ hdr.IsCommandValid then .again { pfrom with vRecv }
  else if hdr.nMessageSize > MAX_SIZE then .again { pfrom with vRecv }
  else if hdr.nMessageSize > vRecv.size then
    -- rewind and wait for the rest of the message
    .leave { pfrom with vRecv := vRecv.insertFront vHeaderSave }
  else
    let vMsg := vRecv.remaining.take hdr.nMessageSize
    if E.Hash vMsg % 2 ^ 32 ≠ hdr.nChecksum then .again { pfrom with vRecv }
    else
      let pfrom := E.processMessage (hdr.command, vMsg)
        { pfrom with vRecv := vRecv.ignore hdr.nMessageSize }
      if E.fShutdown pfrom.handed then .shutDown pfrom else .again pfrom

theorem pstart_le (s : CDataStream) :
    s.nReadPos.toNat + search E.pchMessageStart s.remaining ≤ s.vch.length := by
  have hle := search_le_length E.pchMessageStart s.remaining
  have hpos := s.nReadPos_le
  rw [CDataStream.length_remaining] at hle
  omega

/-- One round of the loop. -/
def processRound : RoundEnd :=
  let vRecv := pfrom.vRecv
  if E.sendBufferFull pfrom.handed then .leave pfrom
  else
    let pstart := vRecv.nReadPos.toNat + search E.pchMessageStart vRecv.remaining
    if vRecv.vch.length - pstart < nHeaderSize then
      if toInt vRecv.size > nHeaderSize then
        .leave { pfrom with
          vRecv := vRecv.eraseFront (vRecv.vch.length - nHeaderSize) (Nat.sub_le _ _) }
      else .leave pfrom
    else E.processHeader { pfrom with vRecv := vRecv.eraseFront pstart (E.pstart_le vRecv) }

def processRounds : ℕ → CNode → CNode
  | 0, pfrom => pfrom
  | fuel + 1, pfrom =>
    match E.processRound pfrom with
    | .again pfrom => processRounds fuel pfrom
    | .leave pfrom => { pfrom with vRecv := pfrom.vRecv.Compact }
    | .shutDown pfrom => pfrom

/-- `ProcessMessages`. Every round but the last takes bytes from the stream. -/
def ProcessMessages : CNode :=
  if pfrom.vRecv.empty then pfrom else E.processRounds (pfrom.vRecv.size + 1) pfrom

/-- The arrival of bytes from a peer that is connected, and the call of `ProcessMessages` after
it. -/
def receive (bytes : List UInt8) : CNode :=
  E.ProcessMessages
    (if pfrom.fConnected then { pfrom with vRecv := pfrom.vRecv.append bytes } else pfrom)

end MessageEnv

end Phoenixcoin.Program
