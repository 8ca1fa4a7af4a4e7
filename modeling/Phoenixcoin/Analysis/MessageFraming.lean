import Phoenixcoin.Program.ProcessMessages

/-!
# Messages do not depend on packet boundaries

A round of `ProcessMessages` looks at the bytes from the first message start on. With enough of
them it decides in the same way whatever comes behind, and when it waits it keeps that message
start, or the last bytes, in which a message start may have begun. So the loop is a framer, and
the messages are the same however the stream is cut. The read position of the stream has 32 bits,
and all of this holds as long as the buffer does not outgrow it.
-/

set_option autoImplicit false

namespace Phoenixcoin.Analysis

open Lib Program List CDataStream MessageEnv

/-! ## Streams below 4 GiB -/

section Streams

variable {s : CDataStream}

theorem remaining_append (bytes : List UInt8) : (s.append bytes).remaining = s.remaining ++ bytes :=
  drop_append_of_le_length s.nReadPos_le

variable {n : ℕ}

section

variable (hs : s.vch.length < 2 ^ 32)
include hs

theorem toNat_ofNat_uint (hn : n ≤ s.vch.length) : (UInt32.ofNat n).toNat = n := by
  rw [UInt32.toNat_ofNat', Nat.mod_eq_of_lt (by omega)]

theorem remaining_insertFront (bytes : List UInt8) :
    (s.insertFront bytes).remaining = bytes ++ s.remaining := by
  have hle := s.nReadPos_le
  unfold insertFront remaining
  split
  · next hroom =>
    dsimp only
    rw [toNat_ofNat_uint hs (by omega), append_assoc,
      drop_append_of_le_length (by rw [length_take]; omega)]
    simp
  · dsimp only
    rw [append_assoc, drop_append_of_le_length (by rw [length_take]; omega)]
    simp

theorem remaining_eraseFront (h : s.nReadPos.toNat + n ≤ s.vch.length) :
    (s.eraseFront (s.nReadPos.toNat + n) h).remaining = s.remaining.drop n ∧
      (s.eraseFront (s.nReadPos.toNat + n) h).vch.length < 2 ^ 32 := by
  rw [eraseFront, remaining, remaining, drop_drop]
  split
  · next hend =>
    rw [hend, drop_length]
    exact ⟨rfl, by simp [ofBytes]⟩
  · rw [toNat_ofNat_uint hs h]
    exact ⟨rfl, hs⟩

theorem read_small (hn : n ≤ s.remaining.length) :
    (s.read n).1 = s.remaining.take n ∧ (s.read n).2.remaining = s.remaining.drop n ∧
      (s.read n).2.vch.length < 2 ^ 32 := by
  have hlength := s.length_remaining
  have hle := s.nReadPos_le
  obtain ⟨hbytes, hrest, hvch⟩ := @read_spec n s (Or.inl (by omega))
  rw [hbytes, hrest, readBytes, Nat.sub_eq_zero_of_le hn]
  exact ⟨by simp, rfl, by omega⟩

end

def headerOf (l : List UInt8) : CMessageHeader :=
  ⟨l.take 4, (l.drop 4).take 12, ofLittleEndian ((l.drop 16).take 4),
    ofLittleEndian ((l.drop 20).take 4)⟩

theorem readHeader_small (hs : s.vch.length < 2 ^ 32) (hn : nHeaderSize ≤ s.remaining.length) :
    s.readHeader.1 = headerOf s.remaining ∧
      s.readHeader.2.remaining = s.remaining.drop nHeaderSize ∧
      s.readHeader.2.vch.length < 2 ^ 32 := by
  unfold readHeader headerOf
  have hlength : 24 ≤ s.remaining.length := hn
  obtain ⟨hb₁, hr₁, hs₁⟩ := read_small hs (n := 4) (by omega)
  obtain ⟨hb₂, hr₂, hs₂⟩ := read_small hs₁ (n := 12) (by rw [hr₁, length_drop]; omega)
  rw [hr₁, drop_drop] at hr₂
  rw [hr₁] at hb₂
  obtain ⟨hb₃, hr₃, hs₃⟩ := read_small hs₂ (n := 4) (by rw [hr₂, length_drop]; omega)
  rw [hr₂, drop_drop] at hr₃
  rw [hr₂] at hb₃
  obtain ⟨hb₄, hr₄, hs₄⟩ := read_small hs₃ (n := 4) (by rw [hr₃, length_drop]; omega)
  rw [hr₃, drop_drop] at hr₄
  rw [hr₃] at hb₄
  dsimp only
  rw [hb₁, hb₂, hb₃, hb₄, hr₄]
  simp only [nHeaderSize, Nat.reduceAdd, hs₄, and_self]

end Streams

/-! ## The framer -/

variable (E : MessageEnv)

/-- What a round does with the bytes behind a header. -/
def frameOf (hdr : CMessageHeader) (body : List UInt8) : Option (Option PeerMessage × List UInt8) :=
  if ¬ hdr.IsCommandValid ∨ hdr.nMessageSize > MAX_SIZE then some (none, body)
  else if hdr.nMessageSize > body.length then none
  else if E.Hash (body.take hdr.nMessageSize) % 2 ^ 32 ≠ hdr.nChecksum then some (none, body)
  else some (some (hdr.command, body.take hdr.nMessageSize), body.drop hdr.nMessageSize)

def frameAt (l : List UInt8) : Option (Option PeerMessage × List UInt8) :=
  if l.length < nHeaderSize then none else frameOf E (headerOf l) (l.drop nHeaderSize)

def nextFrame (buf : List UInt8) : Option (Option PeerMessage × List UInt8) :=
  frameAt E (buf.drop (search E.pchMessageStart buf))

def keptBytes (buf : List UInt8) : List UInt8 :=
  let l := buf.drop (search E.pchMessageStart buf)
  if l.length < nHeaderSize then
    if toInt buf.length > nHeaderSize then buf.drop (buf.length - nHeaderSize) else buf
  else l

variable {E} {l buf rest : List UInt8} {frame : Option PeerMessage}

theorem le_of_frameAt (h : frameAt E l = some (frame, rest)) : nHeaderSize ≤ l.length := by
  unfold frameAt at h
  split at h
  · cases h
  · omega

variable {body : List UInt8} {hdr : CMessageHeader} {n k : ℕ} {pfrom : CNode} {s : CDataStream}

theorem suffix_of_frameOf (h : frameOf E hdr body = some (frame, rest)) : rest <:+ body := by
  unfold frameOf at h
  split at h
  · cases h
    exact suffix_refl _
  · split at h
    · cases h
    · split at h
      · cases h
        exact suffix_refl _
      · cases h
        exact drop_suffix _ _

theorem eq_of_skip (h : frameOf E hdr body = some (none, rest)) : rest = body := by
  unfold frameOf at h
  split at h
  · cases h
    rfl
  · split at h
    · cases h
    · split at h
      · cases h
        rfl
      · cases h

theorem suffix_of_frameAt (h : frameAt E l = some (frame, rest)) : rest <:+ l.drop nHeaderSize := by
  unfold frameAt at h
  split at h
  · cases h
  · exact suffix_of_frameOf h

theorem frameOf_append (h : frameOf E hdr body = some (frame, rest)) (more : List UInt8) :
    frameOf E hdr (body ++ more) = some (frame, rest ++ more) := by
  unfold frameOf at h ⊢
  by_cases hbad : ¬ hdr.IsCommandValid ∨ hdr.nMessageSize > MAX_SIZE
  · rw [if_pos hbad] at h ⊢
    cases h
    rfl
  rw [if_neg hbad] at h ⊢
  by_cases hsize : hdr.nMessageSize > body.length
  · rw [if_pos hsize] at h
    cases h
  have hle : hdr.nMessageSize ≤ body.length := by omega
  rw [if_neg hsize] at h
  rw [if_neg (by rw [length_append]; omega), take_append_of_le_length hle,
    drop_append_of_le_length hle]
  split at h
  · next hsum =>
    rw [if_pos hsum]
    cases h
    rfl
  · next hsum =>
    rw [if_neg hsum]
    cases h
    rfl

theorem headerOf_append (hl : nHeaderSize ≤ l.length) (more : List UInt8) :
    headerOf (l ++ more) = headerOf l := by
  unfold nHeaderSize at hl
  have hfield : ∀ {i n : ℕ}, i + n ≤ 24 → ((l ++ more).drop i).take n = (l.drop i).take n := by
    intro i n hin
    rw [drop_append_of_le_length (by omega), take_append_of_le_length (by rw [length_drop]; omega)]
  simp only [headerOf, hfield (i := 4) (n := 12) (by omega), hfield (i := 16) (n := 4) (by omega),
    hfield (i := 20) (n := 4) (by omega), take_append_of_le_length (show 4 ≤ l.length by omega)]

theorem frameAt_append (h : frameAt E l = some (frame, rest)) (more : List UInt8) :
    frameAt E (l ++ more) = some (frame, rest ++ more) := by
  have hl := le_of_frameAt h
  unfold frameAt at h ⊢
  rw [if_neg (by omega)] at h
  rw [if_neg (by rw [length_append]; omega), headerOf_append hl, drop_append_of_le_length hl]
  exact frameOf_append h more

theorem search_of_room (h : nHeaderSize ≤ (buf.drop (search E.pchMessageStart buf)).length)
    (more : List UInt8) :
    search E.pchMessageStart (buf ++ more) = search E.pchMessageStart buf ∧
      (buf ++ more).drop (search E.pchMessageStart buf) =
        buf.drop (search E.pchMessageStart buf) ++ more := by
  have hle := search_le_length E.pchMessageStart buf
  rw [length_drop, nHeaderSize] at h
  refine ⟨(search_append _ _ more).1 ?_, drop_append_of_le_length hle⟩
  rw [E.length_pchMessageStart]
  omega

theorem nextFrame_drop (hn : n ≤ search E.pchMessageStart buf) :
    nextFrame E (buf.drop n) = nextFrame E buf := by
  unfold nextFrame
  rw [search_drop hn, drop_drop, Nat.add_sub_cancel' hn]

theorem keptBytes_eq (buf : List UInt8) :
    ∃ n, keptBytes E buf = buf.drop n ∧ n ≤ buf.length ∧
      ∀ more, n ≤ search E.pchMessageStart (buf ++ more) := by
  have hle := search_le_length E.pchMessageStart buf
  unfold keptBytes
  simp only
  split
  · next hshort =>
    rw [length_drop, nHeaderSize] at hshort
    split
    · refine ⟨_, rfl, Nat.sub_le _ _, fun more => ?_⟩
      have hmin := (search_append E.pchMessageStart buf more).2
      rw [E.length_pchMessageStart] at hmin
      unfold nHeaderSize
      omega
    · exact ⟨0, rfl, Nat.zero_le _, fun more => Nat.zero_le _⟩
  · next hroom => exact ⟨_, rfl, hle, fun more => (search_of_room (by omega) more).1.ge⟩

variable (E) in
/-- The loop of `ProcessMessages` as a framer. -/
def messageFramer : Framer UInt8 PeerMessage where
  next := nextFrame E
  keep := keptBytes E
  next_suffix h :=
    (suffix_of_frameAt h).trans ((drop_suffix _ _).trans (drop_suffix _ _))
  next_shorter {buf frame rest} h := by
    have hsuffix := (suffix_of_frameAt h).length_le
    have hroom := le_of_frameAt h
    rw [length_drop] at hsuffix hroom
    rw [length_drop] at hsuffix
    unfold nHeaderSize at hsuffix hroom
    omega
  next_append {buf frame rest} h more := by
    obtain ⟨hsearch, hdrop⟩ := search_of_room (le_of_frameAt h) more
    rw [nextFrame, hsearch, hdrop]
    exact frameAt_append h more
  keep_suffix buf := by
    obtain ⟨n, hkeep, -⟩ := keptBytes_eq (E := E) buf
    rw [hkeep]
    exact drop_suffix n buf
  next_keep {buf} _ more := by
    obtain ⟨n, hkeep, hle, hn⟩ := keptBytes_eq (E := E) buf
    rw [hkeep, ← drop_append_of_le_length hle, nextFrame_drop (hn more)]

/-! ## ProcessMessages -/

structure ShowsStream (pfrom : CNode) (r : Receiver UInt8 PeerMessage) : Prop where
  small : pfrom.vRecv.vch.length < 2 ^ 32
  handed : pfrom.handed = r.handed
  remaining : pfrom.vRecv.remaining = r.buffer
  connected : pfrom.fConnected = !r.ended

variable {r : Receiver UInt8 PeerMessage} {j : ℕ}

theorem ShowsStream.replace (h : ShowsStream pfrom r) (hsmall : s.vch.length < 2 ^ 32)
    (hrest : s.remaining = rest) :
    ShowsStream { pfrom with vRecv := s } { r with buffer := rest } :=
  ⟨hsmall, h.handed, hrest, h.connected⟩

def afterFrame (E : MessageEnv) (handed : List PeerMessage) (rest : List UInt8) :
    Receiver UInt8 PeerMessage :=
  if E.closesSocket handed then ⟨handed, [], true⟩ else ⟨handed, rest, false⟩

section Rounds

variable {pfrom : CNode} {handed : List PeerMessage} {ended : Bool}

theorem length_size (s : CDataStream) : s.size = s.remaining.length := s.length_remaining.symm

section

variable (h : ShowsStream pfrom ⟨handed, l, ended⟩) (hroom : nHeaderSize ≤ l.length)
include h hroom

theorem processHeader_waits (hwait : frameOf E (headerOf l) (l.drop nHeaderSize) = none) :
    ∃ pfrom', E.processHeader pfrom = .leave pfrom' ∧
      ShowsStream { pfrom' with vRecv := pfrom'.vRecv.Compact } ⟨handed, l, ended⟩ := by
  obtain ⟨hsmall, hhanded, rfl, hconnected⟩ := h
  obtain ⟨hhdr, hrest, hsmall'⟩ := readHeader_small hsmall hroom
  unfold frameOf at hwait
  unfold processHeader
  dsimp only
  rw [hhdr, length_size, hrest]
  split at hwait
  · cases hwait
  · next hgood =>
    rw [not_or, not_not] at hgood
    rw [if_neg (not_not.mpr hgood.1), if_neg hgood.2]
    split at hwait
    · next hsize =>
      rw [if_pos hsize]
      refine ⟨{ pfrom with vRecv :=
        pfrom.vRecv.readHeader.2.insertFront (pfrom.vRecv.remaining.take nHeaderSize) }, rfl, ?_⟩
      have hall := remaining_insertFront hsmall' (pfrom.vRecv.remaining.take nHeaderSize)
      rw [hrest, take_append_drop] at hall
      have hlength := pfrom.vRecv.length_remaining
      refine ⟨?_, hhanded, ?_, hconnected⟩
      · show (remaining _).length < _
        rw [hall]
        omega
      · exact hall
    · split at hwait <;> cases hwait

theorem processHeader_skips
    (hskip : frameOf E (headerOf l) (l.drop nHeaderSize) = some (none, rest)) :
    ∃ pfrom', E.processHeader pfrom = .again pfrom' ∧ ShowsStream pfrom' ⟨handed, rest, ended⟩ := by
  obtain rfl := h.remaining
  obtain ⟨hhdr, hrest, hsmall'⟩ := readHeader_small h.small hroom
  obtain rfl := eq_of_skip hskip
  refine ⟨{ pfrom with vRecv := pfrom.vRecv.readHeader.2 }, ?_, h.replace hsmall' hrest⟩
  unfold frameOf at hskip
  unfold processHeader
  dsimp only
  rw [hhdr, length_size, hrest]
  by_cases hvalid : (headerOf pfrom.vRecv.remaining).IsCommandValid
  swap
  · rw [if_pos hvalid]
  rw [if_neg (not_not.mpr hvalid)]
  by_cases hlarge : (headerOf pfrom.vRecv.remaining).nMessageSize > MAX_SIZE
  · rw [if_pos hlarge]
  rw [if_neg (by simp [hvalid, hlarge])] at hskip
  rw [if_neg hlarge]
  split at hskip
  · cases hskip
  · next hsize =>
    rw [if_neg hsize]
    split at hskip
    · next hsum => rw [if_pos hsum]
    · cases hskip

end

variable {msg : PeerMessage}

theorem processMessage_shows (h : ShowsStream pfrom ⟨handed, l, false⟩) :
    ShowsStream (E.processMessage msg pfrom) (afterFrame E (handed ++ [msg]) l) := by
  obtain ⟨hsmall, rfl, rfl, hconnected⟩ := h
  unfold processMessage afterFrame
  by_cases hclose : E.closesSocket (pfrom.handed ++ [msg])
  · rw [if_pos hclose, if_pos ⟨hclose, hconnected⟩]
    exact ⟨by simp [ofBytes], rfl, rfl, rfl⟩
  · rw [if_neg hclose, if_neg (fun hboth => hclose hboth.1)]
    exact ⟨hsmall, rfl, rfl, hconnected⟩

theorem processHeader_hands (hshut : ∀ handed, E.fShutdown handed = false)
    (h : ShowsStream pfrom ⟨handed, l, false⟩) (hroom : nHeaderSize ≤ l.length)
    (hhand : frameOf E (headerOf l) (l.drop nHeaderSize) = some (some msg, rest)) :
    ∃ pfrom', E.processHeader pfrom = .again pfrom' ∧
      ShowsStream pfrom' (afterFrame E (handed ++ [msg]) rest) := by
  obtain ⟨hsmall, hhanded, rfl, hconnected⟩ := h
  obtain ⟨hhdr, hrest, hsmall'⟩ := readHeader_small hsmall hroom
  unfold frameOf at hhand
  unfold processHeader
  dsimp only
  rw [hhdr, length_size, hrest]
  split at hhand
  · cases hhand
  next hgood =>
  rw [not_or, not_not] at hgood
  rw [if_neg (not_not.mpr hgood.1), if_neg hgood.2]
  split at hhand
  · cases hhand
  next hsize =>
  rw [if_neg hsize]
  split at hhand
  · cases hhand
  next hsum =>
  rw [if_neg hsum, hshut]
  obtain ⟨-, hleft, hsmall''⟩ := read_small hsmall'
    (n := (headerOf pfrom.vRecv.remaining).nMessageSize) (by rw [hrest]; omega)
  rw [hrest] at hleft
  obtain ⟨rfl, rfl⟩ := hhand
  exact ⟨_, rfl, processMessage_shows ⟨hsmall'', hhanded, hleft, hconnected⟩⟩

theorem erased_shows (h : ShowsStream pfrom ⟨handed, buf, ended⟩) :
    ShowsStream { pfrom with vRecv := pfrom.vRecv.eraseFront _ (E.pstart_le pfrom.vRecv) }
      ⟨handed, buf.drop (search E.pchMessageStart buf), ended⟩ := by
  obtain ⟨hsmall, hhanded, rfl, hconnected⟩ := h
  obtain ⟨hrest, hsmall'⟩ := remaining_eraseFront hsmall (E.pstart_le pfrom.vRecv)
  exact ⟨hsmall', hhanded, hrest, hconnected⟩

theorem lt_of_lt_toInt (hk : k < 2 ^ 31) (h : (k : ℤ) < toInt n) : k < n := by
  unfold toInt at h
  by_contra hle
  rw [Int.bmod_eq_of_le (by omega) (by omega)] at h
  omega

section

variable (hfull : ∀ handed, E.sendBufferFull handed = false)
  (h : ShowsStream pfrom ⟨handed, buf, ended⟩)
include hfull h

theorem processRound_header
    (hroom : nHeaderSize ≤ (buf.drop (search E.pchMessageStart buf)).length) :
    E.processRound pfrom = E.processHeader
      { pfrom with vRecv := pfrom.vRecv.eraseFront _ (E.pstart_le pfrom.vRecv) } := by
  obtain ⟨-, -, rfl, -⟩ := h
  simp only [processRound, hfull, Bool.false_eq_true, if_false]
  rw [length_drop, length_remaining] at hroom
  rw [if_neg (by omega)]

theorem processRound_waits (hwait : nextFrame E buf = none) :
    ∃ pfrom', E.processRound pfrom = .leave pfrom' ∧
      ShowsStream { pfrom' with vRecv := pfrom'.vRecv.Compact }
        ⟨handed, keptBytes E buf, ended⟩ := by
  unfold nextFrame frameAt at hwait
  unfold keptBytes
  split at hwait
  · next hshort =>
    obtain ⟨hsmall, hhanded, rfl, hconnected⟩ := h
    have hlength := pfrom.vRecv.length_remaining
    rw [if_pos hshort]
    rw [length_drop] at hshort
    simp only [processRound, hfull, Bool.false_eq_true, if_false]
    rw [if_pos (by omega), length_size]
    split
    · next hlong =>
      have hgt := lt_of_lt_toInt (by simp [nHeaderSize]) hlong
      have hpos : pfrom.vRecv.vch.length - nHeaderSize =
          pfrom.vRecv.nReadPos.toNat + (pfrom.vRecv.remaining.length - nHeaderSize) := by omega
      have herase := remaining_eraseFront hsmall
        (n := pfrom.vRecv.remaining.length - nHeaderSize) (by omega)
      refine ⟨_, rfl, ?_, hhanded, ?_, hconnected⟩
      · show (remaining _).length < _
        simp only [hpos]
        rw [herase.1, length_drop]
        omega
      · simp only [hpos]
        exact herase.1
    · refine ⟨_, rfl, ?_, hhanded, rfl, hconnected⟩
      show (remaining _).length < _
      omega
  · next hroom =>
    rw [if_neg hroom, processRound_header hfull h (by omega)]
    exact processHeader_waits (erased_shows h) (by omega) hwait

theorem processRound_skips (hskip : nextFrame E buf = some (none, rest)) :
    ∃ pfrom', E.processRound pfrom = .again pfrom' ∧ ShowsStream pfrom' ⟨handed, rest, ended⟩ := by
  have hroom := le_of_frameAt hskip
  rw [processRound_header hfull h hroom]
  rw [nextFrame, frameAt, if_neg (by omega)] at hskip
  exact processHeader_skips (erased_shows h) hroom hskip

end

theorem processRound_hands (hfull : ∀ handed, E.sendBufferFull handed = false)
    (hshut : ∀ handed, E.fShutdown handed = false) (h : ShowsStream pfrom ⟨handed, buf, false⟩)
    (hhand : nextFrame E buf = some (some msg, rest)) :
    ∃ pfrom', E.processRound pfrom = .again pfrom' ∧
      ShowsStream pfrom' (afterFrame E (handed ++ [msg]) rest) := by
  have hroom := le_of_frameAt hhand
  rw [processRound_header hfull h hroom]
  rw [nextFrame, frameAt, if_neg (by omega)] at hhand
  exact processHeader_hands hshut (erased_shows h) hroom hhand

end Rounds

/-! ## Calls -/

/-- A node between two calls of `ProcessMessages`. -/
structure Rests (pfrom : CNode) (r : Receiver UInt8 PeerMessage) : Prop
    extends ShowsStream pfrom r where
  start : pfrom.vRecv.nReadPos = 0
  closed : r.ended → r.buffer = []

theorem Rests.length_vch (h : Rests pfrom r) : pfrom.vRecv.vch.length = r.buffer.length := by
  rw [← h.remaining, length_remaining, h.start]
  simp

theorem rests_new : Rests .new ⟨[], [], false⟩ :=
  ⟨⟨by simp [CNode.new, ofBytes], rfl, rfl, rfl⟩, rfl, fun h => by cases h⟩

section Calls

variable (hfull : ∀ handed, E.sendBufferFull handed = false)
  (hshut : ∀ handed, E.fShutdown handed = false)
include hfull hshut

variable {pfrom : CNode}

variable {handed : List PeerMessage}

/-- With a round to spare for every byte, the loop comes to its end. -/
theorem processRounds_shows {fuel : ℕ} (hfuel : buf.length < fuel)
    (h : ShowsStream pfrom ⟨handed, buf, false⟩) :
    ShowsStream (E.processRounds fuel pfrom)
        ((messageFramer E).drain E.closesSocket handed buf) ∧
      (E.processRounds fuel pfrom).vRecv.nReadPos = 0 := by
  induction fuel generalizing pfrom handed buf with
  | zero => exact absurd hfuel (Nat.not_lt_zero _)
  | succ fuel ih =>
    rw [processRounds]
    cases hnext : (messageFramer E).next buf with
    | none =>
      obtain ⟨pfrom', hround, hshows⟩ := processRound_waits hfull h hnext
      rw [hround, Framer.drain_none hnext]
      exact ⟨hshows, rfl⟩
    | some result =>
      obtain ⟨frame, rest⟩ := result
      have hshort := (messageFramer E).next_shorter hnext
      cases frame with
      | none =>
        obtain ⟨pfrom', hround, hshows⟩ := processRound_skips hfull h hnext
        rw [hround, Framer.drain_skip hnext]
        exact ih (by omega) hshows
      | some msg =>
        obtain ⟨pfrom', hround, hshows⟩ := processRound_hands hfull hshut h hnext
        rw [hround, Framer.drain_frame hnext]
        unfold afterFrame at hshows
        split at hshows
        · next hclose =>
          rw [if_pos hclose]
          -- the stream of a closed socket is empty, so the next round is the last one
          obtain ⟨fuel, rfl⟩ : ∃ n, fuel = n + 1 := ⟨fuel - 1, by omega⟩
          obtain ⟨pfrom'', hround', hshows'⟩ := processRound_waits hfull hshows
            (Framer.next_nil (F := messageFramer E))
          dsimp only
          rw [processRounds, hround']
          exact ⟨by simpa [keptBytes, nHeaderSize] using hshows', rfl⟩
        · next hopen =>
          rw [if_neg hopen]
          exact ih (by omega) hshows

theorem ProcessMessages_rests (h : ShowsStream pfrom ⟨handed, buf, false⟩)
    (hstart : pfrom.vRecv.nReadPos = 0) :
    Rests (E.ProcessMessages pfrom) ((messageFramer E).drain E.closesSocket handed buf) := by
  have hbuf : pfrom.vRecv.remaining = buf := h.remaining
  have hlength := pfrom.vRecv.length_remaining
  rw [hbuf] at hlength
  unfold ProcessMessages
  split
  · next hempty =>
    have hnil : buf = [] := by
      rw [empty, decide_eq_true_iff] at hempty
      exact eq_nil_of_length_eq_zero (by omega)
    subst hnil
    rw [Framer.drain_none Framer.next_nil]
    exact ⟨h, hstart, fun hend => by cases hend⟩
  · obtain ⟨hshows, hstart'⟩ := processRounds_shows hfull hshut
      (show buf.length < pfrom.vRecv.size + 1 by rw [length_size, hbuf]; omega) h
    exact ⟨hshows, hstart', Framer.drain_ended⟩

theorem receive_rests {r : Receiver UInt8 PeerMessage} (h : Rests pfrom r) {bytes : List UInt8}
    (hfits : pfrom.fConnected → (pfrom.vRecv.append bytes).vch.length < 2 ^ 32) :
    Rests (E.receive pfrom bytes) ((messageFramer E).receive E.closesSocket r bytes) := by
  unfold receive Framer.receive
  obtain ⟨handed, buf, ended⟩ := r
  cases ended with
  | true =>
    have hclosed : pfrom.fConnected = false := h.connected
    have hempty : pfrom.vRecv.empty := by
      have hvch := h.length_vch
      rw [h.closed rfl] at hvch
      simpa [empty, h.start] using hvch
    simp [hclosed, ProcessMessages, hempty, h]
  | false =>
    have hopen : pfrom.fConnected = true := h.connected
    rw [if_pos hopen]
    apply ProcessMessages_rests hfull hshut
    · refine ⟨hfits hopen, h.handed, ?_, h.connected⟩
      rw [remaining_append, h.remaining]
    · exact h.start

end Calls

/-! ## Runs -/

/-- No call of a run meets a buffer of 4 GiB or more. -/
def BuffersFit (E : MessageEnv) : CNode → List (List UInt8) → Prop
  | _, [] => True
  | pfrom, bytes :: chunks =>
    (pfrom.fConnected → (pfrom.vRecv.append bytes).vch.length < 2 ^ 32) ∧
      BuffersFit E (E.receive pfrom bytes) chunks

theorem BuffersFit.take {chunks : List (List UInt8)} (h : BuffersFit E pfrom chunks) (n : ℕ) :
    BuffersFit E pfrom (chunks.take n) := by
  induction chunks generalizing pfrom n with
  | nil => simp [BuffersFit]
  | cons bytes chunks ih =>
    cases n with
    | zero => trivial
    | succ n => exact ⟨h.1, ih h.2 n⟩

section Runs

variable (hfull : ∀ handed, E.sendBufferFull handed = false)
  (hshut : ∀ handed, E.fShutdown handed = false)
include hfull hshut

variable {chunks : List (List UInt8)} {r : Receiver UInt8 PeerMessage}

theorem run_rests (h : Rests pfrom r) (hfits : BuffersFit E pfrom chunks) :
    Rests (chunks.foldl E.receive pfrom)
      (chunks.foldl ((messageFramer E).receive E.closesSocket) r) := by
  induction chunks generalizing pfrom r with
  | nil => exact h
  | cons bytes chunks ih => exact ih (receive_rests hfull hshut h hfits.1) hfits.2

/-- A stream below 4 GiB fits however it is cut. -/
theorem buffersFit_of_length (h : Rests pfrom r)
    (hlength : r.buffer.length + chunks.flatten.length < 2 ^ 32) :
    BuffersFit E pfrom chunks := by
  induction chunks generalizing pfrom r with
  | nil => trivial
  | cons bytes chunks ih =>
    rw [flatten_cons, length_append] at hlength
    have hfits : pfrom.fConnected → (pfrom.vRecv.append bytes).vch.length < 2 ^ 32 := by
      rw [append, length_append, h.length_vch]
      omega
    refine ⟨hfits, ih (receive_rests hfull hshut h hfits) ?_⟩
    have hsuffix : ([bytes].foldl ((messageFramer E).receive E.closesSocket) r).buffer <:+
        r.buffer ++ [bytes].flatten :=
      Framer.buffer_foldl_receive [bytes] (suffix_refl r.buffer) h.closed
    have hsuffix := hsuffix.length_le
    simp only [foldl_cons, foldl_nil, flatten_cons, flatten_nil,
      append_nil, length_append] at hsuffix
    omega

/-- Two ways of cutting a stream hand on the same messages, a part of the chunks hands on the
first of them, and what is retained is the end of what has come. -/
theorem messages_of_chunks {chunks chunks' : List (List UInt8)}
    (hstream : chunks.flatten = chunks'.flatten) (hfits : BuffersFit E .new chunks)
    (hfits' : BuffersFit E .new chunks') :
    (chunks.foldl E.receive .new).handed = (chunks'.foldl E.receive .new).handed ∧
      ∀ n, ((chunks.take n).foldl E.receive .new).handed <+:
          (chunks'.foldl E.receive .new).handed ∧
        ((chunks.take n).foldl E.receive .new).vRecv.remaining <:+ (chunks.take n).flatten := by
  have hrun : ∀ {l : List (List UInt8)}, BuffersFit E .new l →
      Rests (l.foldl E.receive .new) _ := fun hl => run_rests hfull hshut rests_new hl
  have hsame : (chunks.foldl E.receive .new).handed = (chunks'.foldl E.receive .new).handed := by
    rw [(hrun hfits).handed, (hrun hfits').handed, (Framer.foldl_receive rfl chunks).handed,
      (Framer.foldl_receive rfl chunks').handed, hstream]
  refine ⟨hsame, fun n => ⟨?_, ?_⟩⟩
  · rw [← hsame, (hrun hfits).handed, (hrun (hfits.take n)).handed]
    conv_rhs => rw [← take_append_drop n chunks, foldl_append]
    exact Framer.handed_foldl_receive _ _
  · rw [(hrun (hfits.take n)).remaining]
    exact Framer.buffer_foldl_receive _ (r := ⟨[], [], false⟩) (suffix_refl []) fun _ => rfl

end Runs

/-- The main network. The messages here carry no payload, and the checksum is that of the empty
one. -/
def emptyPayloads : MessageEnv where
  pchMessageStart := [0xfe, 0xd0, 0xd8, 0xc3]
  length_pchMessageStart := rfl
  Hash := fun _ => 0xe2e0f65d
  sendBufferFull := fun _ => false
  closesSocket := fun _ => false
  fShutdown := fun _ => false

/-- `verack`, as the command of a message. -/
def verackCommand : List UInt8 := [0x76, 0x65, 0x72, 0x61, 0x63, 0x6b]

def verackBytes : List UInt8 :=
  [0xfe, 0xd0, 0xd8, 0xc3] ++ verackCommand ++
    [0, 0, 0, 0, 0, 0, 0, 0, 0, 0, 0x5d, 0xf6, 0xe0, 0xe2]

/-- A message that is cut in its header. -/
theorem messages_of_chunks_verack :
    ([verackBytes.take 10, verackBytes.drop 10].foldl emptyPayloads.receive .new).handed =
        ([verackBytes].foldl emptyPayloads.receive .new).handed ∧
      ∀ n, (([verackBytes.take 10, verackBytes.drop 10].take n).foldl
            emptyPayloads.receive .new).handed <+:
          ([verackBytes].foldl emptyPayloads.receive .new).handed ∧
        (([verackBytes.take 10, verackBytes.drop 10].take n).foldl
            emptyPayloads.receive .new).vRecv.remaining <:+
          ([verackBytes.take 10, verackBytes.drop 10].take n).flatten := by
  have hfull : ∀ handed, emptyPayloads.sendBufferFull handed = false := fun _ => rfl
  have hshut : ∀ handed, emptyPayloads.fShutdown handed = false := fun _ => rfl
  exact messages_of_chunks hfull hshut (by simp)
    (buffersFit_of_length hfull hshut rests_new (by decide))
    (buffersFit_of_length hfull hshut rests_new (by decide))

/-! ## A buffer of 4 GiB -/

theorem length_verackBytes : verackBytes.length = nHeaderSize := rfl

theorem search_zeros (n : ℕ) (more : List UInt8) :
    search emptyPayloads.pchMessageStart (replicate n 0 ++ more) =
      n + search emptyPayloads.pchMessageStart more := by
  have h := search_of_forall_ne (l := replicate n (0 : UInt8)) (a := 0xfe) (by simp)
    [0xd0, 0xd8, 0xc3] more
  rwa [length_replicate] at h

section Zeros

variable {n : ℕ}

theorem nextFrame_zeros : nextFrame emptyPayloads (replicate n 0) = none := by
  have h := search_zeros n []
  rw [append_nil] at h
  simp [nextFrame, h, frameAt, search, nHeaderSize]

theorem keptBytes_zeros (hlow : nHeaderSize < n) (hhigh : n < 2 ^ 31) :
    keptBytes emptyPayloads (replicate n 0) = replicate nHeaderSize 0 := by
  have h := search_zeros n []
  rw [append_nil] at h
  have hint : toInt n = n := Int.bmod_eq_of_le (by omega) (by omega)
  have hlong : toInt n > nHeaderSize := by
    rw [hint]
    exact_mod_cast hlow
  unfold keptBytes
  simp only [h, length_replicate, drop_replicate]
  rw [if_pos (by simp [search, nHeaderSize]), if_pos hlong, Nat.sub_sub_self hlow.le]

theorem nextFrame_verack :
    nextFrame emptyPayloads (replicate n 0 ++ verackBytes) =
      some (some (verackCommand, []), []) := by
  have hsearch : search emptyPayloads.pchMessageStart verackBytes = 0 := by decide
  have hdrop : (replicate n 0 ++ verackBytes).drop n = verackBytes :=
    drop_left' length_replicate
  rw [nextFrame, search_zeros, hsearch, Nat.add_zero, hdrop]
  decide

end Zeros

theorem read_within (h : s.nReadPos.toNat + n < 2 ^ 32) (hend : s.nReadPos.toNat + n < s.vch.length)
    :
    (s.read n).1 = s.remaining.take n ∧ (s.read n).2.vch = s.vch ∧
      (s.read n).2.nReadPos.toNat = s.nReadPos.toNat + n := by
  have hpos : (s.nReadPos + UInt32.ofNat n).toNat = s.nReadPos.toNat + n := by
    rw [UInt32.toNat_add, UInt32.toNat_ofNat', Nat.mod_eq_of_lt (by omega : n < 2 ^ 32),
      Nat.mod_eq_of_lt h]
  rw [CDataStream.read, if_pos (by omega), dif_pos (by omega)]
  exact ⟨rfl, rfl, hpos⟩

theorem readHeader_within (h : s.nReadPos.toNat = 0) (hend : nHeaderSize < s.vch.length) :
    s.readHeader.1.pchCommand = (s.vch.drop 4).take 12 ∧ s.readHeader.2.vch = s.vch ∧
      s.readHeader.2.nReadPos.toNat = nHeaderSize := by
  unfold readHeader
  unfold nHeaderSize at hend ⊢
  obtain ⟨-, hv₁, hp₁⟩ := read_within (s := s) (n := 4) (by omega) (by omega)
  obtain ⟨hb₂, hv₂, hp₂⟩ := read_within (s := (s.read 4).2) (n := 12) (by omega)
    (by rw [hv₁]; omega)
  obtain ⟨-, hv₃, hp₃⟩ := read_within (s := ((s.read 4).2.read 12).2) (n := 4) (by omega)
    (by rw [hv₂, hv₁]; omega)
  obtain ⟨-, hv₄, hp₄⟩ := read_within (s := (((s.read 4).2.read 12).2.read 4).2) (n := 4)
    (by omega) (by rw [hv₃, hv₂, hv₁]; omega)
  dsimp only
  refine ⟨?_, by rw [hv₄, hv₃, hv₂, hv₁], by omega⟩
  rw [hb₂, remaining, hv₁, hp₁, h]

structure Stalled (n : ℕ) (pfrom : CNode) : Prop where
  vch : pfrom.vRecv.vch = replicate n 0 ++ verackBytes
  front : pfrom.vRecv.nReadPos.toNat ≤ nHeaderSize
  handed : pfrom.handed = []

/-- With 4 GiB of zeros, the position of the message is the one that overflows, and the round is
back at the front. -/
theorem Stalled.processRound (hn : n = 2 ^ 32) (h : Stalled n pfrom) :
    ∃ pfrom', emptyPayloads.processRound pfrom = .again pfrom' ∧ Stalled n pfrom' := by
  obtain ⟨hvch, hfront, hhanded⟩ := h
  have hlength : pfrom.vRecv.vch.length = n + nHeaderSize := by
    rw [hvch, length_append, length_replicate, length_verackBytes]
  unfold nHeaderSize at hfront hlength
  have hremaining : pfrom.vRecv.remaining =
      replicate (n - pfrom.vRecv.nReadPos.toNat) 0 ++ verackBytes := by
    rw [remaining, hvch, drop_append_of_le_length
      (by rw [length_replicate]; omega), drop_replicate]
  have hsearch : search emptyPayloads.pchMessageStart verackBytes = 0 := by decide
  have hpstart : pfrom.vRecv.nReadPos.toNat +
      search emptyPayloads.pchMessageStart pfrom.vRecv.remaining = n := by
    rw [hremaining, search_zeros]
    omega
  obtain ⟨s, hs⟩ : ∃ s, s = pfrom.vRecv.eraseFront _ (emptyPayloads.pstart_le pfrom.vRecv) :=
    ⟨_, rfl⟩
  have herased : s.vch = pfrom.vRecv.vch ∧ s.nReadPos.toNat = 0 := by
    rw [hs, eraseFront, if_neg (by omega)]
    refine ⟨rfl, ?_⟩
    dsimp only
    rw [hpstart, UInt32.toNat_ofNat', hn, Nat.mod_self]
  obtain ⟨hcommand, hvch', hpos'⟩ := readHeader_within herased.2
    (by rw [herased.1, nHeaderSize]; omega)
  have hinvalid : ¬ s.readHeader.1.IsCommandValid := by
    rw [CMessageHeader.IsCommandValid, hcommand, herased.1, hvch,
      drop_append_of_le_length (by rw [length_replicate]; omega), drop_replicate,
      take_append_of_le_length (by rw [length_replicate]; omega), take_replicate,
      Nat.min_eq_left (by omega)]
    decide
  have hround : emptyPayloads.processRound pfrom =
      .again { pfrom with vRecv := s.readHeader.2 } := by
    rw [MessageEnv.processRound]
    rw [if_neg (by simp [emptyPayloads]), if_neg (by rw [nHeaderSize]; omega), ← hs,
      MessageEnv.processHeader]
    rw [if_pos hinvalid]
  generalize s.readHeader.2 = s' at hround hvch' hpos'
  exact ⟨_, hround, hvch'.trans (herased.1.trans hvch), hpos'.le, hhanded⟩

theorem Stalled.processRounds (hn : n = 2 ^ 32) (h : Stalled n pfrom) (fuel : ℕ) :
    (emptyPayloads.processRounds fuel pfrom).handed = [] := by
  induction fuel generalizing pfrom with
  | zero => exact h.handed
  | succ fuel ih =>
    obtain ⟨pfrom', hround, h'⟩ := h.processRound hn
    rw [processRounds, hround]
    exact ih h'

theorem receive_zeros (hlow : nHeaderSize < k) (hhigh : j + k < 2 ^ 31) :
    (messageFramer emptyPayloads).receive emptyPayloads.closesSocket
        ⟨[], replicate j 0, false⟩ (replicate k 0) =
      ⟨[], replicate nHeaderSize 0, false⟩ := by
  rw [Framer.receive, replicate_append_replicate]
  rw [Framer.drain_none nextFrame_zeros]
  show (⟨[], keptBytes emptyPayloads _, false⟩ : Receiver UInt8 PeerMessage) = _
  rw [keptBytes_zeros (by omega) hhigh]

theorem receive_verack : ((messageFramer emptyPayloads).receive emptyPayloads.closesSocket
      ⟨[], replicate j 0, false⟩ verackBytes).handed = [(verackCommand, [])] := by
  rw [Framer.receive, Framer.drain_frame nextFrame_verack, Framer.drain_none Framer.next_nil]
  rfl

/-- Four chunks of zeros, and a message. -/
def zerosAndVerack (k : ℕ) : List (List UInt8) :=
  [.replicate k 0, .replicate k 0, .replicate k 0, .replicate k 0, verackBytes]

theorem flatten_zerosAndVerack (k : ℕ) :
    (zerosAndVerack k).flatten = replicate (4 * k) 0 ++ verackBytes := by
  have hfour : 4 * k = k + (k + (k + k)) := by omega
  rw [hfour, replicate_add, replicate_add, replicate_add]
  simp only [zerosAndVerack, flatten_cons, flatten_nil, append_assoc, append_nil]

theorem handed_zerosAndVerack (hlow : nHeaderSize < k) (hhigh : k + nHeaderSize < 2 ^ 31) :
    ((zerosAndVerack k).foldl emptyPayloads.receive .new).handed = [(verackCommand, [])] := by
  have hfull : ∀ handed, emptyPayloads.sendBufferFull handed = false := fun _ => rfl
  have hshut : ∀ handed, emptyPayloads.fShutdown handed = false := fun _ => rfl
  have hzeros : ∀ {j : ℕ} {pfrom : CNode}, j ≤ nHeaderSize →
      Rests pfrom ⟨[], replicate j 0, false⟩ →
      Rests (emptyPayloads.receive pfrom (replicate k 0))
        ⟨[], replicate nHeaderSize 0, false⟩ := by
    intro j pfrom hj h
    rw [← receive_zeros (j := j) hlow (by omega)]
    refine receive_rests hfull hshut h fun _ => ?_
    rw [append, length_append, h.length_vch, length_replicate, length_replicate]
    omega
  have hrest := hzeros le_rfl (hzeros le_rfl (hzeros le_rfl (hzeros (Nat.zero_le _) rests_new)))
  have hlast : Rests (emptyPayloads.receive _ verackBytes) _ :=
    receive_rests hfull hshut hrest fun _ => by
      rw [append, length_append, hrest.length_vch]
      decide
  have hlast := hlast.handed
  rw [receive_verack] at hlast
  simpa only [zerosAndVerack, foldl_cons, foldl_nil] using hlast

theorem stalled_of_oneChunk (hn : n = 2 ^ 32) {bytes : List UInt8}
    (hbytes : bytes = replicate n 0 ++ verackBytes) (fuel : ℕ) :
    (emptyPayloads.processRounds fuel ⟨.ofBytes bytes, true, []⟩).handed = [] := by
  refine Stalled.processRounds hn ⟨hbytes, ?_, rfl⟩ fuel
  simp [ofBytes]

theorem hangs_of_length (hk : 4 * k = 2 ^ 32) :
    ((zerosAndVerack k).foldl emptyPayloads.receive .new).handed = [(verackCommand, [])] ∧
      (∀ fuel, (emptyPayloads.processRounds fuel
        ⟨.ofBytes (zerosAndVerack k).flatten, true, []⟩).handed = []) ∧
      (emptyPayloads.receive .new (zerosAndVerack k).flatten).handed = [] := by
  have hstall := stalled_of_oneChunk hk (flatten_zerosAndVerack k)
  refine ⟨handed_zerosAndVerack (by rw [nHeaderSize]; omega) (by rw [nHeaderSize]; omega),
    hstall, ?_⟩
  have hopen : CNode.new.fConnected = true := rfl
  rw [receive, if_pos hopen, ProcessMessages]
  split
  · rfl
  · exact hstall _

/-- A stream of more than 4 GiB hands on its message or hangs, by how it is cut. -/
theorem fourGiB_hangs :
    ((zerosAndVerack (2 ^ 30)).foldl emptyPayloads.receive .new).handed = [(verackCommand, [])] ∧
      (∀ fuel, (emptyPayloads.processRounds fuel
        ⟨.ofBytes (zerosAndVerack (2 ^ 30)).flatten, true, []⟩).handed = []) ∧
      (emptyPayloads.receive .new (zerosAndVerack (2 ^ 30)).flatten).handed = [] :=
  hangs_of_length (by norm_num)

end Phoenixcoin.Analysis
