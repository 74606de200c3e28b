import RtcCore.Core.Bytes
import RtcCore.Core.Framing
import RtcCore.Core.LTS

/-!
# STUN and ChannelData messages over TCP

`AsyncStunTCPSocket` over `AsyncTCPSocketBase`, connected. `Send` takes a
message only while the output buffer is empty and drops it again when the socket
takes nothing; what the socket does not take at once goes out in write events.
The reader cuts its input buffer at the lengths the headers give, padding
included. The result of a socket call (how many octets it took, which chunk of
the stream it returned, or an error) is an argument.

`failed` records that the `ASSERT` of `AppendToOutBuffer`, the one of `FlushOutBuffer`
or the one in the overflow branch of `OnReadEvent` did not hold. The two buffers
are what is in them: `outpos_` and `inpos_` are their lengths.

Results:
- `framing_correct`: two ends and the streams between them: what is signalled
  is a prefix of what was sent, message by message, and no assertion fails.
- `drained`: when nothing is on its way any more, all of it was signalled.
-/
namespace RtcCore.L2

open Bytes

namespace AsyncStunTcpSocket

/-! ## The socket -/

/-- mirrors webrtc/p2p/base/asyncstuntcpsocket.cc:21-27 -/
def kMaxPacketSize : Nat := 64 * 1024
def kPacketLenSize : Nat := 2
def kPacketLenOffset : Nat := 2
def kStunHeaderSize : Nat := 20
def kBufSize : Nat := kMaxPacketSize + kStunHeaderSize
def kTurnChannelDataHdrSize : Nat := 4

structure Socket where
  outbuf : Bytes := []
  inbuf : Bytes := []
  failed : Bool := false
  deriving DecidableEq, Repr

/-- mirrors webrtc/p2p/base/asyncstuntcpsocket.cc:29-32 -/
def isStunMessage (msgType : Nat) : Bool := msgType &&& 0xC000 == 0

/-- The length of the message that starts the data, and the octets of padding behind it.
mirrors webrtc/p2p/base/asyncstuntcpsocket.cc:125-149 -/
def getExpectedLength (data : Bytes) : Nat × Nat :=
  let pktLen := rd16 data kPacketLenOffset
  if isStunMessage (rd16 data 0) then (kStunHeaderSize + pktLen, 0)
  else
    let expected := kTurnChannelDataHdrSize + pktLen
    (expected, if expected % 4 ≠ 0 then 4 - expected % 4 else 0)

/-- mirrors webrtc/base/asynctcpsocket.cc:167-171 -/
def appendToOutBuffer (s : Socket) (data : Bytes) : Socket :=
  { s with
    outbuf := s.outbuf ++ data
    failed := s.failed || !decide (s.outbuf.length + data.length < kBufSize) }

/-- `res`: what `socket_->Send` returned. The result, and the octets that went out.
mirrors webrtc/base/asynctcpsocket.cc:150-165 -/
def flushOutBuffer (s : Socket) (res : Int) : Int × Bytes × Socket :=
  if res ≤ 0 then (res, [], s)
  else if res ≤ s.outbuf.length then
    (res, s.outbuf.take res.toNat, { s with outbuf := s.outbuf.drop res.toNat })
  else (-1, [], { s with failed := true })

/-- mirrors webrtc/p2p/base/asyncstuntcpsocket.cc:51-84 -/
def send (s : Socket) (pv : Bytes) (res : Int) : Int × Bytes × Socket :=
  if pv.length > kBufSize ∨ pv.length < kPacketLenSize + kPacketLenOffset then (-1, [], s)
  else if s.outbuf ≠ [] then (pv.length, [], s)
  else
    let (expected, padBytes) := getExpectedLength pv
    if pv.length ≠ expected then (-1, [], s)
    else
      let s := appendToOutBuffer s pv
      let s := appendToOutBuffer s (List.replicate padBytes 0)
      let (res, out, s) := flushOutBuffer s res
      if res ≤ 0 then (res, out, { s with outbuf := [] })
      else (pv.length, out, s)

/-- mirrors webrtc/base/asynctcpsocket.cc:216-226 -/
def onWriteEvent (s : Socket) (res : Int) : Bytes × Socket :=
  if 0 < s.outbuf.length then (flushOutBuffer s res).2 else ([], s)

/-- The packets signalled, and what is left in the buffer. Every pass takes a message off, so as
many passes as there are octets are enough.
mirrors webrtc/p2p/base/asyncstuntcpsocket.cc:86-119 -/
def processInput : Nat → Bytes → List Bytes × Bytes
  | 0, data => ([], data)
  | fuel + 1, data =>
    if data.length < kPacketLenOffset + kPacketLenSize then ([], data)
    else
      let (expected, padBytes) := getExpectedLength data
      if data.length < expected + padBytes then ([], data)
      else
        let r := processInput fuel (data.drop (expected + padBytes))
        (data.take expected :: r.1, r.2)

/-- `chunk`: what `socket_->Recv` stored, no value for an error.
mirrors webrtc/base/asynctcpsocket.cc:177-214 -/
def onReadEvent (s : Socket) : Option Bytes → List Bytes × Socket
  | none => ([], s)
  | some chunk =>
    let data := s.inbuf ++ chunk
    let r := processInput data.length data
    if r.2.length ≥ kBufSize then (r.1, { s with inbuf := [], failed := true })
    else (r.1, { s with inbuf := r.2 })

/-! ## Two ends -/

/-- The ends, by a bit. `wire e` is what `e` has written and the other end not yet read, `sent e`
are the messages whose `Send` put octets on the wire, `got e` the packets signalled at `e`. -/
structure Link where
  sock : Bool → Socket := fun _ => {}
  wire : Bool → Bytes := fun _ => []
  sent : Bool → List Bytes := fun _ => []
  got : Bool → List Bytes := fun _ => []

inductive Event where
  | send (e : Bool) (pv : Bytes) (res : Int)
  | writeEvent (e : Bool) (res : Int)
  | readEvent (e : Bool) (len : Nat)
  | readError (e : Bool)

/-- The octets of `socket_->Send` are taken in order, `socket_->Recv` returns the next ones and at
most as many as there is room for. -/
def step (l : Link) : Event → Link → Prop
  | .send e pv res, l' =>
    let r := send (l.sock e) pv res
    res ≤ (l.sock e).outbuf.length + pv.length + (getExpectedLength pv).2 ∧
    l' = { l with
      sock := update l.sock e r.2.2
      wire := update l.wire e (l.wire e ++ r.2.1)
      sent := if r.2.1 = [] then l.sent else update l.sent e (l.sent e ++ [pv]) }
  | .writeEvent e res, l' =>
    let r := onWriteEvent (l.sock e) res
    res ≤ (l.sock e).outbuf.length ∧
    l' = { l with
      sock := update l.sock e r.2
      wire := update l.wire e (l.wire e ++ r.1) }
  | .readEvent e len, l' =>
    let r := onReadEvent (l.sock e) (some ((l.wire !e).take len))
    len ≤ kBufSize - (l.sock e).inbuf.length ∧
    l' = { l with
      sock := update l.sock e r.2
      wire := update l.wire (!e) ((l.wire !e).drop len)
      got := update l.got e (l.got e ++ r.1) }
  | .readError e, l' =>
    l' = { l with sock := update l.sock e (onReadEvent (l.sock e) none).2 }

def link : LTS Link Event where
  init l := l = {}
  step := step

/-! ## Messages and their frames -/

/-- A whole message: its length is the one its header gives. -/
structure Complete (m : Bytes) : Prop where
  header : kPacketLenSize + kPacketLenOffset ≤ m.length
  length : m.length = (getExpectedLength m).1

/-- The message with its padding. -/
def frame (m : Bytes) : Bytes := m ++ List.replicate (getExpectedLength m).2 0

variable {m data rest : Bytes} {ms : List Bytes} {s : Socket}

theorem rd16_lt (b : Bytes) (i : Nat) : rd16 b i < 65536 := by
  have h1 := (getByte b i).toNat_lt
  have h2 := (getByte b (i + 1)).toNat_lt
  unfold rd16
  omega

/-- Only the first four octets are read. -/
theorem getExpectedLength_append (h : 4 ≤ data.length) :
    getExpectedLength (data ++ rest) = getExpectedLength data := by
  have hget : ∀ i < 4, getByte (data ++ rest) i = getByte data i := fun i hi =>
    getByte_append_left rest (by omega)
  have h0 : rd16 (data ++ rest) 0 = rd16 data 0 := by
    rw [rd16, rd16, hget 0 (by omega), hget (0 + 1) (by omega)]
  have h2 : rd16 (data ++ rest) kPacketLenOffset = rd16 data kPacketLenOffset := by
    rw [rd16, rd16, hget kPacketLenOffset (by decide), hget (kPacketLenOffset + 1) (by decide)]
  rw [getExpectedLength, getExpectedLength, h0, h2]

/-- Every message fits the buffers with its padding. -/
theorem expected_lt (data : Bytes) :
    4 ≤ (getExpectedLength data).1 ∧
      (getExpectedLength data).1 + (getExpectedLength data).2 < kBufSize := by
  have hlt := rd16_lt data kPacketLenOffset
  have hbuf : kBufSize = 65556 := rfl
  rw [getExpectedLength]
  split
  · simp only [kStunHeaderSize]
    omega
  · have hhdr : kTurnChannelDataHdrSize = 4 := rfl
    dsimp only
    by_cases hpad : (kTurnChannelDataHdrSize + rd16 data kPacketLenOffset) % 4 ≠ 0
    · rw [if_pos hpad]
      omega
    · rw [if_neg hpad]
      omega

theorem frame_length (h : Complete m) :
    (frame m).length = (getExpectedLength m).1 + (getExpectedLength m).2 := by
  rw [frame, List.length_append, List.length_replicate, ← h.length]

/-- The header at the front of the buffer is the one of the next message. -/
theorem header_of_frame (hm : Complete m) (h : data ++ rest = frame m) (hlen : 4 ≤ data.length) :
    getExpectedLength data = getExpectedLength m := by
  have hh : 4 ≤ m.length := hm.header
  rw [← getExpectedLength_append hlen, h, frame, getExpectedLength_append hh]

/-! ## The reader -/

/-- One pass of `processInput`. -/
def readMessage (data : Bytes) : Option (Bytes × Nat) :=
  if data.length < kPacketLenOffset + kPacketLenSize then none
  else if data.length < (getExpectedLength data).1 + (getExpectedLength data).2 then none
  else some (data.take (getExpectedLength data).1,
    (getExpectedLength data).1 + (getExpectedLength data).2)

/-- Whole messages with their padding. -/
def framing : Framing UInt8 Bytes where
  Ok := Complete
  frame := frame
  next := readMessage
  empty := rfl
  pos {m} h := by
    have := (expected_lt m).1
    rw [frame_length h]
    omega
  whole {m} rest h := by
    have hh : 4 ≤ m.length := h.header
    have hlen := frame_length h
    have hmin := (expected_lt m).1
    have h4 : kPacketLenOffset + kPacketLenSize = 4 := rfl
    have hhead : getExpectedLength (frame m ++ rest) = getExpectedLength m := by
      rw [frame, List.append_assoc, getExpectedLength_append hh]
    have htake : (frame m ++ rest).take (getExpectedLength m).1 = m := by
      rw [← h.length, frame, List.append_assoc, List.take_left]
    rw [readMessage, hhead, List.length_append, if_neg (by omega), if_neg (by omega), htake, hlen]
  short {m data tail} h hd ht := by
    have hlen := congrArg List.length hd
    have hpos := List.length_pos_iff.2 ht
    have h4 : kPacketLenOffset + kPacketLenSize = 4 := rfl
    rw [List.length_append, frame_length h] at hlen
    rw [readMessage]
    by_cases hshort : data.length < kPacketLenOffset + kPacketLenSize
    · rw [if_pos hshort]
    · rw [if_neg hshort, header_of_frame h hd (by omega), if_pos (by omega)]

theorem processInput_eq (fuel : Nat) (data : Bytes) :
    processInput fuel data = framing.cut fuel data := by
  induction fuel generalizing data with
  | zero => rfl
  | succ fuel ih =>
    rw [processInput]
    by_cases hshort : data.length < kPacketLenOffset + kPacketLenSize
    · rw [if_pos hshort, framing.cut_none (if_pos hshort)]
    · rw [if_neg hshort]
      dsimp only
      by_cases hpart : data.length < (getExpectedLength data).1 + (getExpectedLength data).2
      · rw [if_pos hpart, framing.cut_none ((if_neg hshort).trans (if_pos hpart))]
      · rw [if_neg hpart, ih, framing.cut_some ((if_neg hshort).trans (if_neg hpart))]

/-! ## The writer -/

/-- `Send` puts octets on the wire only for a whole message and with an empty buffer; it is then
the message with its padding that is on its way. -/
theorem send_cases (s : Socket) (pv : Bytes) (res : Int)
    (hres : res ≤ s.outbuf.length + pv.length + (getExpectedLength pv).2) :
    ((send s pv res).2.1 = [] ∧ (send s pv res).2.2.outbuf = s.outbuf) ∧
        (send s pv res).2.2.inbuf = s.inbuf ∧ (send s pv res).2.2.failed = s.failed ∨
      (s.outbuf = [] ∧ Complete pv ∧ (send s pv res).2.1 ≠ [] ∧
          (send s pv res).2.1 ++ (send s pv res).2.2.outbuf = frame pv) ∧
        (send s pv res).2.2.inbuf = s.inbuf ∧ (send s pv res).2.2.failed = s.failed := by
  unfold send
  by_cases hsize : pv.length > kBufSize ∨ pv.length < kPacketLenSize + kPacketLenOffset
  · rw [if_pos hsize]
    exact .inl ⟨⟨rfl, rfl⟩, rfl, rfl⟩
  · rw [if_neg hsize]
    by_cases hempty : s.outbuf ≠ []
    · rw [if_pos hempty]
      exact .inl ⟨⟨rfl, rfl⟩, rfl, rfl⟩
    · have hempty : s.outbuf = [] := Decidable.not_not.1 hempty
      rw [if_neg (fun hc => hc hempty)]
      dsimp only
      by_cases hlen : pv.length ≠ (getExpectedLength pv).1
      · rw [if_pos hlen]
        exact .inl ⟨⟨rfl, rfl⟩, rfl, rfl⟩
      · rw [if_neg hlen]
        have hlen : pv.length = (getExpectedLength pv).1 := Decidable.not_not.1 hlen
        have hpv : Complete pv := ⟨by omega, hlen⟩
        have hfit := (expected_lt pv).2
        have hbuf : appendToOutBuffer (appendToOutBuffer s pv)
            (List.replicate (getExpectedLength pv).2 0) = { s with outbuf := frame pv } := by
          simp only [appendToOutBuffer, hempty, List.nil_append, List.length_nil, Nat.zero_add,
            List.length_replicate]
          rw [decide_eq_true (by omega), decide_eq_true (by omega)]
          simp [frame]
        rw [hbuf, flushOutBuffer]
        rw [hempty, List.length_nil] at hres
        by_cases hneg : res ≤ 0
        · rw [if_pos hneg]
          dsimp only
          rw [if_pos hneg]
          exact .inl ⟨⟨rfl, hempty.symm⟩, rfl, rfl⟩
        · have hle : res ≤ ((frame pv).length : Int) := by
            rw [frame_length hpv, ← hlen]
            omega
          rw [if_neg hneg, if_pos hle]
          dsimp only
          rw [if_neg hneg]
          refine .inr ⟨⟨hempty, hpv, fun hc => ?_, List.take_append_drop _ _⟩, rfl, rfl⟩
          have := congrArg List.length hc
          rw [List.length_take, List.length_nil] at this
          omega

theorem onWriteEvent_spec (s : Socket) (res : Int) (hres : res ≤ s.outbuf.length) :
    (onWriteEvent s res).1 ++ (onWriteEvent s res).2.outbuf = s.outbuf ∧
      (onWriteEvent s res).2.inbuf = s.inbuf ∧ (onWriteEvent s res).2.failed = s.failed := by
  unfold onWriteEvent
  split
  · unfold flushOutBuffer
    by_cases hneg : res ≤ 0
    · rw [if_pos hneg]
      exact ⟨rfl, rfl, rfl⟩
    · rw [if_neg hneg, if_pos hres]
      exact ⟨List.take_append_drop _ _, rfl, rfl⟩
  · exact ⟨rfl, rfl, rfl⟩

/-! ## Runs -/

/-- Both directions are streams of messages. -/
structure Inv (l : Link) : Prop where
  flow : ∀ e, ∃ left,
    framing.Flow (l.sent e) (l.got !e) (l.sock !e).inbuf (l.wire e) (l.sock e).outbuf left
  failed : ∀ e, (l.sock e).failed = false

theorem inv_send {l l' : Link} {e : Bool} {pv : Bytes} {res : Int} (h : Inv l)
    (hs : step l (.send e pv res) l') : Inv l' := by
  obtain ⟨hres, rfl⟩ := hs
  obtain ⟨left, hf⟩ := h.flow e
  obtain ⟨left', hf'⟩ := h.flow !e
  rw [Bool.not_not] at hf'
  rcases send_cases (l.sock e) pv res hres with ⟨⟨hout, hbuf⟩, hin, hfail⟩ |
    ⟨⟨hempty, hpv, hout, hframe⟩, hin, hfail⟩
  · refine ⟨forall_both e ⟨left, ?_⟩ ⟨left', ?_⟩, forall_both e ?_ ?_⟩
    · simp only [hout, if_true, update_same, update_other, hbuf, List.append_nil]
      exact hf
    · simp only [hout, if_true, update_same, update_other, Bool.not_not, hin]
      exact hf'
    · simp only [update_same, hfail]
      exact h.failed e
    · simp only [update_other]
      exact h.failed !e
  · rw [hempty] at hf
    refine ⟨forall_both e ⟨left ++ [pv], ?_⟩ ⟨left', ?_⟩, forall_both e ?_ ?_⟩
    · simp only [hout, if_false, update_same, update_other]
      exact hf.accept hpv hframe
    · simp only [hout, if_false, update_same, update_other, Bool.not_not, hin]
      exact hf'
    · simp only [update_same, hfail]
      exact h.failed e
    · simp only [update_other]
      exact h.failed !e

theorem inv_writeEvent {l l' : Link} {e : Bool} {res : Int} (h : Inv l)
    (hs : step l (.writeEvent e res) l') : Inv l' := by
  obtain ⟨hres, rfl⟩ := hs
  obtain ⟨left, hf⟩ := h.flow e
  obtain ⟨left', hf'⟩ := h.flow !e
  rw [Bool.not_not] at hf'
  obtain ⟨hout, hin, hfail⟩ := onWriteEvent_spec (l.sock e) res hres
  refine ⟨forall_both e ⟨left, ?_⟩ ⟨left', ?_⟩, forall_both e ?_ ?_⟩
  · simp only [update_same, update_other]
    exact hf.write hout
  · simp only [update_same, update_other, Bool.not_not, hin]
    exact hf'
  · simp only [update_same, hfail]
    exact h.failed e
  · simp only [update_other]
    exact h.failed !e

/-- A message fits the input buffer, so what is left of one leaves room for more. -/
theorem onReadEvent_flow {sent got left : List Bytes} {under out chunk : Bytes} {n : Nat}
    (h : framing.Flow sent got s.inbuf under out left) (hc : chunk = under.take n) :
    ∃ left', framing.Flow sent (got ++ (onReadEvent s (some chunk)).1)
        (onReadEvent s (some chunk)).2.inbuf (under.drop n) out left' ∧
      (onReadEvent s (some chunk)).2 =
        { s with inbuf := (onReadEvent s (some chunk)).2.inbuf } := by
  obtain ⟨left', hread⟩ := h.read n rfl
  have hfit : ∀ m, framing.Ok m → (framing.frame m).length ≤ kBufSize := by
    intro m hm
    change (frame m).length ≤ _
    rw [frame_length hm]
    exact Nat.le_of_lt (expected_lt m).2
  have hroom := hread.room (by decide) hfit
  rw [← processInput_eq, ← hc] at hread hroom
  have hevent : onReadEvent s (some chunk) =
      ((processInput (s.inbuf ++ chunk).length (s.inbuf ++ chunk)).1,
        { s with inbuf := (processInput (s.inbuf ++ chunk).length (s.inbuf ++ chunk)).2 }) := by
    rw [onReadEvent]
    exact if_neg (Nat.not_le.2 hroom)
  rw [hevent]
  exact ⟨left', hread, rfl⟩

theorem inv_readEvent {l l' : Link} {e : Bool} {len : Nat} (h : Inv l)
    (hs : step l (.readEvent e len) l') : Inv l' := by
  obtain ⟨-, rfl⟩ := hs
  obtain ⟨left, hf⟩ := h.flow e
  obtain ⟨left', hf'⟩ := h.flow !e
  rw [Bool.not_not] at hf'
  obtain ⟨left'', hread, hsock⟩ := onReadEvent_flow (n := len) hf' rfl
  refine ⟨forall_both e ⟨left, ?_⟩ ⟨left'', ?_⟩, forall_both e ?_ ?_⟩
  · rw [hsock]
    simpa only [update_same, update_other, update_not] using hf
  · simpa only [update_same, update_other, Bool.not_not] using hread
  · rw [hsock]
    simpa only [update_same] using h.failed e
  · simpa only [update_other] using h.failed !e

theorem link_inductive : link.Inductive Inv where
  init l h := by
    cases h
    exact ⟨fun _ => ⟨[], .start⟩, fun _ => rfl⟩
  step l ev l' h hs := by
    cases ev with
    | send e pv res => exact inv_send h hs
    | writeEvent e res => exact inv_writeEvent h hs
    | readEvent e len => exact inv_readEvent h hs
    | readError e =>
      have hs : l' = { l with sock := update l.sock e (l.sock e) } := hs
      rw [update_self] at hs
      rw [hs]
      exact h

theorem framing_correct {l : Link} (hr : link.Reachable l) (e : Bool) :
    l.got (!e) <+: l.sent e ∧ (∀ m ∈ l.sent e, Complete m) ∧ (l.sock e).failed = false := by
  have h := link_inductive.reachable l hr
  obtain ⟨left, hf⟩ := h.flow e
  exact ⟨⟨left, hf.split.symm⟩, hf.ok, h.failed e⟩

/-- One octet of channel data, written and read in pieces; what is sent in between is dropped. -/
theorem channelData_delivered : ∃ l : Link, l.got true = [[0x40, 0, 0, 1, 7]] ∧
    l.sent false = [[0x40, 0, 0, 1, 7]] ∧ l.got true <+: l.sent false ∧
    (∀ m ∈ l.sent false, Complete m) ∧ (l.sock false).failed = false := by
  have hr := show link.Reachable _ from ⟨{}, [.send false [0x40, 0, 0, 1, 7] 3,
      .send false [0x41, 0, 0, 0] 4, .readEvent true 2, .writeEvent false 5, .readEvent true 6], rfl,
    .cons ⟨by decide, rfl⟩ <| .cons ⟨by decide, rfl⟩ <| .cons ⟨by decide, rfl⟩ <|
      .cons ⟨by decide, rfl⟩ <| .cons ⟨by decide, rfl⟩ <| .nil _⟩
  exact ⟨_, rfl, rfl, framing_correct hr false⟩

/-- Nothing stays behind in the input buffer. -/
theorem drained {l : Link} (hr : link.Reachable l) (e : Bool) (hw : l.wire e = [])
    (ho : (l.sock e).outbuf = []) : l.got (!e) = l.sent e := by
  obtain ⟨left, hf⟩ := (link_inductive.reachable l hr).flow e
  rw [hw, ho] at hf
  exact hf.drained

end AsyncStunTcpSocket

end RtcCore.L2
