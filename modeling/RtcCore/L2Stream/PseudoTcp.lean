import RtcCore.Core.LTS
import RtcCore.L2Stream.FifoBuffer

/-!
# `PseudoTcp`

TCP over datagrams, as a state with its calls: `Connect`, `Send`, `Recv`,
`Close`, `SetOption`, `NotifyMTU`, `NotifyClock` and `NotifyPacket`, down to
`queue`, `packet`, `parse`, `process`, `transmit` and `attemptSend`. `uint32`
values are naturals, each result of arithmetic reduced by `u32`. What handles a
packet has no value when it reads behind the end of the packet.

What is not the program's is asked of an environment: the time, whether a
packet could be written, and what stands in fresh memory. Four fields only
observe: the packets written, the octets ever put into the send buffer, and
which assertions have failed (with those of the receive side and of the round
trip time on their own). After a failed assertion the code goes on, as in a
release build.
-/
namespace RtcCore.L2

open Bytes

/-- The value in 32 bits. -/
def u32 (n : Int) : Nat := (n % 4294967296).toNat

theorem u32_ofNat {n : Nat} (h : n < 4294967296) : u32 n = n := by
  rw [u32]
  omega

theorem u32_sub {m n : Nat} (h : n ≤ m) (hm : m < 4294967296) : u32 ((m : Int) - n) = m - n := by
  rw [u32]
  omega

theorem u32_add {m n : Nat} (h : m + n < 4294967296) : u32 ((m : Int) + n) = m + n := by
  rw [u32]
  omega

theorem u32_lt (n : Int) : u32 n < 4294967296 := by
  rw [u32]
  omega

/-- mirrors webrtc/p2p/base/pseudotcp.h:37-39 -/
inductive WriteResult where
  | success
  | tooLarge
  | fail
  deriving DecidableEq, Repr

/-- The answers to the questions the code asks, in their order. -/
structure Env where
  now : Nat → Nat
  write : Nat → WriteResult
  heap : Nat → Nat → UInt8

inductive TcpState where
  | listen
  | synSent
  | synReceived
  | established
  | closed
  deriving DecidableEq, Repr

/-- mirrors webrtc/p2p/base/pseudotcp.h:111 -/
inductive SendFlags where
  | none
  | delayedAck
  | immediateAck
  deriving DecidableEq, Repr

/-- mirrors webrtc/p2p/base/pseudotcp.h:87-92 -/
inductive TcpOption where
  | nodelay
  | ackdelay
  | sndbuf
  | rcvbuf
  deriving DecidableEq, Repr

inductive TcpError where
  | einval
  | enotconn
  | ewouldblock
  deriving DecidableEq, Repr

/-- `data` is what follows the header in the packet, `len` how much of it is the segment's.
mirrors webrtc/p2p/base/pseudotcp.h:113-120 -/
structure Segment where
  conv : Nat
  seq : Nat
  ack : Nat
  flags : UInt8
  wnd : Nat
  data : Bytes
  len : Nat
  tsval : Nat
  tsecr : Nat
  deriving DecidableEq, Repr

/-- mirrors webrtc/p2p/base/pseudotcp.h:122-135 -/
structure SSegment where
  seq : Nat
  len : Nat
  xmit : Nat
  bCtrl : Bool
  deriving DecidableEq, Repr

structure RSegment where
  seq : Nat
  len : Nat
  deriving DecidableEq, Repr

def packetMaximums : List Nat := [65535, 32000, 17914, 8166, 4352, 2002, 1492, 1006, 508, 296, 0]

def maxPacket : Nat := 65535

def headerSize : Nat := 24

/-- The header with those of UDP, IP and the relay. -/
def packetOverhead : Nat := 24 + 8 + 20 + 64

def minRto : Nat := 250
def defRto : Nat := 3000
def maxRto : Nat := 60000

def flagCtl : UInt8 := 0x02
def flagRst : UInt8 := 0x04

def defaultRcvBufSize : Nat := 60 * 1024
def defaultSndBufSize : Nat := 90 * 1024

/-- mirrors webrtc/p2p/base/pseudotcp.h:178-234 -/
structure PseudoTcp where
  conv : Nat
  state : TcpState := .listen
  shutdown : Bool := false
  error : Option TcpError := .none
  rlist : List RSegment := []
  rbufLen : Nat := defaultRcvBufSize
  rcvNxt : Nat := 0
  rcvWnd : Nat := defaultRcvBufSize
  lastrecv : Nat
  rwndScale : Nat := 0
  rbuf : FifoBuffer
  slist : List SSegment := []
  sndNxt : Nat := 0
  sndWnd : Nat := 1
  lastsend : Nat
  sndUna : Nat := 0
  swndScale : Nat := 0
  sbuf : FifoBuffer
  mss : Nat := 296 - packetOverhead
  msslevel : Nat := 0
  mtuAdvise : Nat := maxPacket
  rtoBase : Nat := 0
  tsRecent : Nat := 0
  tsLastack : Nat := 0
  rxRttvar : Nat := 0
  rxSrtt : Nat := 0
  rxRto : Nat := defRto
  ssthresh : Nat := defaultRcvBufSize
  cwnd : Nat := 2 * (296 - packetOverhead)
  dupAcks : Nat := 0
  recover : Nat := 0
  tAck : Nat := 0
  useNagling : Bool := true
  ackDelay : Nat := 100
  supportWndScale : Bool := true
  asked : Nat := 0
  out : List Bytes := []
  queued : Bytes := []
  sendOk : Bool := true
  rttOk : Bool := true
  receiveOk : Bool := true

namespace PseudoTcp

/-- The constructor; the memory of the buffers is not initialised.
mirrors webrtc/p2p/base/pseudotcp.cc:207-256 -/
def create (conv now : Nat) (rmem smem : Nat → UInt8) : PseudoTcp where
  conv := conv
  lastrecv := now
  lastsend := now
  rbuf := { buffer := rmem, bufferLength := defaultRcvBufSize }
  sbuf := { buffer := smem, bufferLength := defaultSndBufSize }

variable (env : Env) (s : PseudoTcp)

/-- An `ASSERT` of the send side. -/
def check (condition : Bool) : PseudoTcp := { s with sendOk := s.sendOk && condition }

def now : Nat × PseudoTcp := (u32 (env.now s.asked), { s with asked := s.asked + 1 })

/-- mirrors webrtc/base/timeutils.cc:172-174 -/
def timeDiff (later earlier : Nat) : Int :=
  ((later : Int) - earlier + 2147483648) % 4294967296 - 2147483648

/-- Data of the same kind that waits is joined.
mirrors webrtc/p2p/base/pseudotcp.cc:492-502 -/
def enqueue (slist : List SSegment) (fresh : SSegment) : List SSegment :=
  match slist.getLast? with
  | .none => [fresh]
  | some back =>
    if back.bCtrl = fresh.bCtrl ∧ back.xmit = 0 then
      slist.dropLast ++ [{ back with len := u32 (back.len + fresh.len) }]
    else slist ++ [fresh]

/-- mirrors webrtc/p2p/base/pseudotcp.cc:483-507 -/
def queue (data : Bytes) (bCtrl : Bool) : Nat × PseudoTcp :=
  let availableSpace := s.sbuf.getWriteRemaining
  let s := if data.length > availableSpace then s.check (!bCtrl) else s
  let data := if data.length > availableSpace then data.take availableSpace else data
  let written := s.sbuf.write data
  (written.1, { s with
    slist := enqueue s.slist ⟨u32 (s.sndUna + s.sbuf.dataLength), data.length, 0, bCtrl⟩
    sbuf := written.2
    queued := s.queued ++ data.take written.1 })

/-- mirrors webrtc/p2p/base/pseudotcp.cc:513-527 -/
def header (seq : Nat) (flags : UInt8) (now : Nat) : Bytes :=
  be32 s.conv ++ be32 seq ++ be32 s.rcvNxt ++ [0, flags] ++
    be16 (s.rcvWnd / 2 ^ s.rwndScale) ++ be32 now ++ be32 s.tsRecent

def tcpWritePacket (buffer : Bytes) : WriteResult × PseudoTcp :=
  (env.write s.asked, { s with
    asked := s.asked + 1
    out := if env.write s.asked = .success then s.out ++ [buffer] else s.out })

/-- The payload of a packet: where the read fails, what was in the memory.
mirrors webrtc/p2p/base/pseudotcp.cc:529-536 -/
def payload (offset len : Nat) : Bytes × PseudoTcp :=
  if len = 0 then ([], s)
  else
    match s.sbuf.readOffset len offset with
    | .none => ((List.range len).map (env.heap s.asked), s.check false)
    | some bytes =>
      (bytes ++ (List.range (len - bytes.length)).map (env.heap s.asked),
        s.check (bytes.length = len))

/-- mirrors webrtc/p2p/base/pseudotcp.cc:509-565 -/
def packet (seq : Nat) (flags : UInt8) (offset len : Nat) : WriteResult × PseudoTcp :=
  let s := s.check (headerSize + len ≤ maxPacket)
  let (now, s) := s.now env
  let head := s.header seq flags now
  let s := { s with tsLastack := s.rcvNxt }
  let (data, s) := s.payload env offset len
  let (wres, s) := s.tcpWritePacket env (head ++ data)
  if wres ≠ .success ∧ len ≠ 0 then (wres, s)
  else (.success, { s with tAck := 0, lastsend := if len > 0 then now else s.lastsend })

/-- The next smaller packet size that is smaller than what was tried.
mirrors webrtc/p2p/base/pseudotcp.cc:979-991 -/
def lowerMss (nTransmit : Nat) : Nat → PseudoTcp → Bool × PseudoTcp
  | 0, s => (false, s)
  | fuel + 1, s =>
    let size := packetMaximums.getD (s.msslevel + 1) 0
    if size = 0 then (false, s)
    else
      let mss := u32 (size - packetOverhead)
      let s := { s with msslevel := s.msslevel + 1, mss := mss, cwnd := u32 (2 * mss) }
      if mss < nTransmit then (true, s) else lowerMss nTransmit fuel s

/-- mirrors webrtc/p2p/base/pseudotcp.cc:961-996 -/
def transmitLoop (seg : SSegment) : Nat → Nat → PseudoTcp → Option Nat × PseudoTcp
  | 0, _, s => (.none, s.check false)
  | fuel + 1, nTransmit, s =>
    let (wres, s) := s.packet env seg.seq (if seg.bCtrl then flagCtl else 0)
      (u32 (seg.seq - s.sndUna)) nTransmit
    match wres with
    | .success => (some nTransmit, s)
    | .fail => (.none, s)
    | .tooLarge =>
      match lowerMss nTransmit packetMaximums.length s with
      | (false, s) => (.none, s)
      | (true, s) => transmitLoop seg fuel s.mss s

/-- A segment of which `nTransmit` octets were sent, and the rest of it.
mirrors webrtc/p2p/base/pseudotcp.cc:998-1013 -/
def sentAs (seg : SSegment) (nTransmit : Nat) : List SSegment :=
  if nTransmit < seg.len then
    [{ seg with len := nTransmit, xmit := seg.xmit + 1 },
      ⟨u32 (seg.seq + nTransmit), u32 (seg.len - nTransmit), seg.xmit, seg.bCtrl⟩]
  else [{ seg with xmit := seg.xmit + 1 }]

/-- `transmit` of the segment at place `i`.
mirrors webrtc/p2p/base/pseudotcp.cc:953-1020 -/
def transmit (i now : Nat) : Bool × PseudoTcp :=
  match s.slist[i]? with
  | .none => (false, s.check false)
  | some seg =>
    if seg.xmit ≥ (if s.state = .established then 15 else 30) then (false, s)
    else
      match transmitLoop env seg packetMaximums.length (min seg.len s.mss) s with
      | (.none, s) => (false, s)
      | (some nTransmit, s) =>
        (true, { s with
          slist := s.slist.take i ++ sentAs seg nTransmit ++ s.slist.drop (i + 1)
          sndNxt := if seg.xmit = 0 then u32 (s.sndNxt + min nTransmit seg.len) else s.sndNxt
          rtoBase := if s.rtoBase = 0 then now else s.rtoBase })

/-- What may be sent now.
mirrors webrtc/p2p/base/pseudotcp.cc:1035-1055 -/
def nAvailable : Nat :=
  let cwnd := if s.dupAcks = 1 ∨ s.dupAcks = 2 then u32 (s.cwnd + s.dupAcks * s.mss) else s.cwnd
  let nWindow := min s.sndWnd cwnd
  let nInFlight := u32 (s.sndNxt - s.sndUna)
  let nUseable := if nInFlight < nWindow then nWindow - nInFlight else 0
  let nAvailable := min (u32 (s.sbuf.dataLength - nInFlight)) s.mss
  if nAvailable > nUseable then if u32 (nUseable * 4) < nWindow then 0 else nUseable
  else nAvailable

/-- The acknowledgement that goes out when no data does.
mirrors webrtc/p2p/base/pseudotcp.cc:1073-1084 -/
def sendAck (sflags : SendFlags) : PseudoTcp :=
  if sflags = .none then s
  else if sflags = .immediateAck ∨ s.tAck ≠ 0 then (s.packet env s.sndNxt 0 0 0).2
  else
    let (now, s) := s.now env
    { s with tAck := now }

/-- A segment that is too large is broken into two.
mirrors webrtc/p2p/base/pseudotcp.cc:1102-1107 -/
def splitAt (i nAvailable : Nat) (seg : SSegment) : PseudoTcp :=
  if seg.len > nAvailable then
    { s with
      slist := s.slist.take i ++ [{ seg with len := nAvailable },
        ⟨u32 (seg.seq + nAvailable), u32 (seg.len - nAvailable), 0, seg.bCtrl⟩] ++
          s.slist.drop (i + 1) }
  else s

/-- mirrors webrtc/p2p/base/pseudotcp.cc:1034-1116 -/
def attemptLoop (now : Nat) : Nat → SendFlags → PseudoTcp → PseudoTcp
  | 0, _, s => s.check false
  | fuel + 1, sflags, s =>
    if s.nAvailable = 0 then s.sendAck env sflags
    else if s.useNagling ∧ s.sndNxt > s.sndUna ∧ s.nAvailable < s.mss then s
    else
      match s.slist.findIdx? (·.xmit = 0) with
      | .none => s.check false
      | some i =>
        match s.slist[i]? with
        | .none => s.check false
        | some seg =>
          match (s.splitAt i s.nAvailable seg).transmit env i now with
          | (false, s) => s
          | (true, s) => attemptLoop now fuel .none s

/-- Every pass sends an octet at least.
mirrors webrtc/p2p/base/pseudotcp.cc:1022-1117 -/
def attemptSend (sflags : SendFlags) : PseudoTcp :=
  let (now, s) := s.now env
  let s := if timeDiff now s.lastsend > s.rxRto then { s with cwnd := s.mss } else s
  attemptLoop env now (s.sbuf.dataLength + 1) sflags s

def closedown : PseudoTcp := { s with state := .closed }

/-- mirrors webrtc/p2p/base/pseudotcp.cc:1129-1145 -/
def adjustMTU : PseudoTcp :=
  let mss := u32 (s.mtuAdvise - packetOverhead)
  { s with
    msslevel := (packetMaximums.take 9).findIdx (· ≤ s.mtuAdvise)
    mss := mss
    ssthresh := max s.ssthresh (u32 (2 * mss))
    cwnd := max s.cwnd mss }

/-- The factor that brings the size down to 16 bits, and what is left of the size.
mirrors webrtc/p2p/base/pseudotcp.cc:1250-1260 -/
def scaleFactor : Nat → Nat → Nat × Nat
  | 0, newSize => (0, newSize)
  | fuel + 1, newSize =>
    if newSize > 0xFFFF then
      let (scale, rest) := scaleFactor fuel (newSize / 2)
      (scale + 1, rest)
    else (0, newSize)

/-- mirrors webrtc/p2p/base/pseudotcp.cc:1248-1276 -/
def resizeReceiveBuffer (newSize : Nat) : PseudoTcp :=
  let (scale, rest) := scaleFactor 32 newSize
  let newSize := rest * 2 ^ scale
  let resized := s.rbuf.setCapacity (env.heap s.asked) newSize
  let rbuf := resized.getD s.rbuf
  { s with
    rbuf := rbuf
    receiveOk := s.receiveOk && resized.isSome
    rbufLen := newSize
    rwndScale := scale
    ssthresh := newSize
    rcvWnd := u32 rbuf.getWriteRemaining }

/-- mirrors webrtc/p2p/base/pseudotcp.cc:1159-1171 -/
def connectMessage : Bytes := if s.supportWndScale then [0, 3, 1, .ofNat s.rwndScale] else [0]

def queueConnectMessage : PseudoTcp :=
  (queue { s with sndWnd := s.connectMessage.length } s.connectMessage true).2

/-! ## Incoming segments -/

/-- mirrors webrtc/p2p/base/pseudotcp.cc:1221-1240 -/
def applyOption (kind : UInt8) (data : Bytes) : PseudoTcp :=
  match kind, data with
  | 3, [scale] => { s with swndScale := scale.toNat }
  | _, _ => s

/-- Whether the window scale was specified; no value: an option is longer than what follows.
mirrors webrtc/p2p/base/pseudotcp.cc:1180-1207 -/
def readOptions : Nat → Bytes → Bool → PseudoTcp → Option Bool × PseudoTcp
  | fuel + 1, kind :: rest, specified, s =>
    if kind = 0 then (some specified, s)
    else if kind = 1 then readOptions fuel rest specified s
    else
      let optLen := (rest.headD 0).toNat
      if optLen ≤ rest.tail.length then
        readOptions fuel (rest.tail.drop optLen) (specified || kind = 3)
          (s.applyOption kind (rest.tail.take optLen))
      else (.none, s)
  | _, _, specified, s => (some specified, s)

/-- mirrors webrtc/p2p/base/pseudotcp.cc:1173-1219 -/
def parseOptions (data : Bytes) : PseudoTcp :=
  match readOptions data.length data false s with
  | (some false, s) =>
    if s.rwndScale > 0 then { s.resizeReceiveBuffer env defaultRcvBufSize with swndScale := 0 }
    else s
  | (_, s) => s

/-- What a connect message brings about.
mirrors webrtc/p2p/base/pseudotcp.cc:672-691 -/
def connected (options : Bytes) : PseudoTcp :=
  let s := s.parseOptions env options
  if s.state = .listen then queueConnectMessage { s with state := .synReceived }
  else if s.state = .synSent then adjustMTU { s with state := .established }
  else s

/-- Whether the segment is a connect message; the inner value is missing when the segment is
dropped.
mirrors webrtc/p2p/base/pseudotcp.cc:667-696 -/
def control (seg : Segment) : Option (Option (Bool × PseudoTcp)) :=
  if seg.flags &&& flagCtl = 0 then some (some (false, s))
  else if seg.len = 0 then some .none
  else do
    let code ← (seg.data[0]? : Option UInt8)
    if code = 0 then
      let options ← readAt seg.data 1 (seg.len - 1)
      some (some (true, s.connected env options))
    else some .none

def updateTimestamp (seg : Segment) : PseudoTcp :=
  if seg.seq ≤ s.tsLastack ∧ s.tsLastack < u32 (seg.seq + seg.len) then
    { s with tsRecent := seg.tsval }
  else s

/-- mirrors webrtc/p2p/base/pseudotcp.cc:705-730 -/
def updateRtt (now tsecr : Nat) : PseudoTcp :=
  if tsecr = 0 then s
  else if timeDiff now tsecr < 0 then { s with rttOk := false }
  else
    let rtt := (timeDiff now tsecr).toNat
    let absErr := if rtt > s.rxSrtt then rtt - s.rxSrtt else s.rxSrtt - rtt
    let rttvar := if s.rxSrtt = 0 then rtt / 2 else u32 (3 * s.rxRttvar + absErr) / 4
    let srtt := if s.rxSrtt = 0 then rtt else u32 (7 * s.rxSrtt + rtt) / 8
    { s with
      rxRttvar := rttvar
      rxSrtt := srtt
      rxRto := min (max minRto (u32 (srtt + max 1 (u32 (4 * rttvar))))) maxRto }

/-- The window on the wire, scaled; the processor looks at five bits of the scale. -/
def scaleWindow (wnd : Nat) : Nat := u32 (wnd * 2 ^ (s.swndScale % 32))

/-- The segments that are left of the queue, and whether there were enough.
mirrors webrtc/p2p/base/pseudotcp.cc:740-752 -/
def freeSegments : Nat → List SSegment → Bool × List SSegment
  | nFree, [] => (nFree = 0, [])
  | nFree, front :: rest =>
    if nFree = 0 then (true, front :: rest)
    else if nFree < front.len then (true, { front with len := front.len - nFree } :: rest)
    else freeSegments (nFree - front.len) rest

/-- mirrors webrtc/p2p/base/pseudotcp.cc:731-752 -/
def release (now : Nat) (seg : Segment) : PseudoTcp :=
  let nAcked := u32 (seg.ack - s.sndUna)
  let left := freeSegments nAcked s.slist
  check { s with
    sndWnd := s.scaleWindow seg.wnd
    sndUna := seg.ack
    rtoBase := if seg.ack = s.sndNxt then 0 else now
    sbuf := s.sbuf.consumeReadData nAcked
    slist := left.2 } left.1

/-- What a valuable acknowledgement does to the congestion window.
mirrors webrtc/p2p/base/pseudotcp.cc:754-780 -/
def ackedMore (now nAcked : Nat) : Bool × PseudoTcp :=
  if s.dupAcks ≥ 3 then
    if s.sndUna ≥ s.recover then
      (true, { s with
        cwnd := min s.ssthresh (u32 (u32 (s.sndNxt - s.sndUna) + s.mss))
        dupAcks := 0 })
    else
      match s.transmit env 0 now with
      | (false, s) => (false, s.closedown)
      | (true, s) => (true, { s with cwnd := u32 (s.cwnd + (s.mss - min nAcked s.cwnd)) })
  else
    (true, { s with
      dupAcks := 0
      cwnd := if s.cwnd < s.ssthresh then u32 (s.cwnd + s.mss)
        else u32 (s.cwnd + max 1 (u32 (s.mss * s.mss) / s.cwnd)) })

/-- mirrors webrtc/p2p/base/pseudotcp.cc:781-810 -/
def ackedAgain (now : Nat) (seg : Segment) : Bool × PseudoTcp :=
  let s := { s with sndWnd := s.scaleWindow seg.wnd }
  if seg.len > 0 then (true, s)
  else if s.sndUna = s.sndNxt then (true, { s with dupAcks := 0 })
  else
    let s := { s with dupAcks := (s.dupAcks + 1) % 256 }
    if s.dupAcks = 3 then
      match s.transmit env 0 now with
      | (false, s) => (false, s.closedown)
      | (true, s) =>
        let ssthresh := max (u32 (s.sndNxt - s.sndUna) / 2) (u32 (2 * s.mss))
        (true, { s with
          recover := s.sndNxt
          ssthresh := ssthresh
          cwnd := u32 (ssthresh + 3 * s.mss) })
    else if s.dupAcks > 3 then (true, { s with cwnd := u32 (s.cwnd + s.mss) })
    else (true, s)

/-- mirrors webrtc/p2p/base/pseudotcp.cc:703-810 -/
def acknowledge (now : Nat) (seg : Segment) : Bool × PseudoTcp :=
  if seg.ack > s.sndUna ∧ seg.ack ≤ s.sndNxt then
    ((s.updateRtt now seg.tsecr).release now seg).ackedMore env now (u32 (seg.ack - s.sndUna))
  else if seg.ack = s.sndUna then s.ackedAgain env now seg
  else (true, s)

/-- mirrors webrtc/p2p/base/pseudotcp.cc:812-821 -/
def establish (bConnect : Bool) : PseudoTcp :=
  if s.state = .synReceived ∧ !bConnect then adjustMTU { s with state := .established } else s

/-- mirrors webrtc/p2p/base/pseudotcp.cc:837-852 -/
def ackFlags (seg : Segment) : SendFlags :=
  if seg.seq ≠ s.rcvNxt then .immediateAck
  else if seg.len ≠ 0 then if s.ackDelay = 0 then .immediateAck else .delayedAck
  else .none

/-- What was received before is cut off.
mirrors webrtc/p2p/base/pseudotcp.cc:863-873 -/
def trimOld (seg : Segment) : Segment :=
  if seg.seq < s.rcvNxt then
    let nAdjust := s.rcvNxt - seg.seq
    if nAdjust < seg.len then
      { seg with seq := s.rcvNxt, data := seg.data.drop nAdjust, len := seg.len - nAdjust }
    else { seg with len := 0 }
  else seg

/-- What does not fit is cut off.
mirrors webrtc/p2p/base/pseudotcp.cc:875-885 -/
def trimNew (seg : Segment) : Segment :=
  let end' := u32 (seg.seq + seg.len - s.rcvNxt)
  if end' > s.rbuf.getWriteRemaining then
    let nAdjust := end' - s.rbuf.getWriteRemaining
    { seg with len := if nAdjust < seg.len then seg.len - nAdjust else 0 }
  else seg

/-- `len` more octets of the receive buffer are readable. -/
def take (len : Nat) : PseudoTcp :=
  { s with
    rbuf := s.rbuf.consumeWriteBuffer len
    rcvNxt := u32 (s.rcvNxt + len)
    rcvWnd := u32 (s.rcvWnd - len) }

/-- mirrors webrtc/p2p/base/pseudotcp.cc:909-921 -/
def recovered : List RSegment → SendFlags → PseudoTcp → SendFlags × PseudoTcp
  | [], sflags, s => (sflags, { s with rlist := [] })
  | it :: rlist, sflags, s =>
    if it.seq ≤ s.rcvNxt then
      if u32 (it.seq + it.len) > s.rcvNxt then
        recovered rlist .immediateAck (s.take (u32 (it.seq + it.len) - s.rcvNxt))
      else recovered rlist sflags s
    else (sflags, { s with rlist := it :: rlist })

/-- Data for the reader.
mirrors webrtc/p2p/base/pseudotcp.cc:896-936 -/
def receiveData (seq : Nat) (data : Bytes) (sflags : SendFlags) : SendFlags × PseudoTcp :=
  let written : Option (Nat × FifoBuffer) := s.rbuf.writeOffset data (u32 (seq - s.rcvNxt))
  let s : PseudoTcp := { s with
    rbuf := (written.map (·.2)).getD s.rbuf
    receiveOk := s.receiveOk && written.isSome }
  if seq = s.rcvNxt then
    let s := s.take data.length
    recovered s.rlist sflags s
  else
    (sflags, { s with
      rlist := s.rlist.takeWhile (·.seq < seq) ++ ⟨seq, data.length⟩ ::
        s.rlist.dropWhile (·.seq < seq) })

/-- mirrors webrtc/p2p/base/pseudotcp.cc:863-937 -/
def receive (seg : Segment) (sflags : SendFlags) : Option (SendFlags × PseudoTcp) :=
  let seg := s.trimNew (s.trimOld seg)
  if seg.len = 0 then some (sflags, s)
  else if seg.flags &&& flagCtl ≠ 0 ∨ s.shutdown then
    if seg.seq = s.rcvNxt then some (sflags, { s with rcvNxt := u32 (s.rcvNxt + seg.len) })
    else some (sflags, s)
  else (readAt seg.data 0 seg.len).map fun data => s.receiveData seg.seq data sflags

/-- mirrors webrtc/p2p/base/pseudotcp.cc:640-951 -/
def process (seg : Segment) : Option (Bool × PseudoTcp) :=
  if seg.conv ≠ s.conv then some (false, s)
  else
    let (now, s) := s.now env
    let s := { s with lastrecv := now }
    if s.state = .closed then some (false, s)
    else if seg.flags &&& flagRst ≠ 0 then some (false, s.closedown)
    else
      match s.control env seg with
      | .none => .none
      | some .none => some (false, s)
      | some (some (bConnect, s)) =>
        match (s.updateTimestamp seg).acknowledge env now seg with
        | (false, s) => some (false, s)
        | (true, s) =>
          let s := s.establish bConnect
          (s.receive seg (s.ackFlags seg)).map fun (sflags, s) => (true, s.attemptSend env sflags)

def bytesToLong (buffer : Bytes) (offset : Nat) : Option Nat :=
  (readAt buffer offset 4).map beValue

def bytesToShort (buffer : Bytes) (offset : Nat) : Option Nat :=
  (readAt buffer offset 2).map beValue

/-- The inner value is missing when the packet is dropped.
mirrors webrtc/p2p/base/pseudotcp.cc:567-596 -/
def parse (buffer : Bytes) : Option (Option Segment) :=
  if buffer.length < 12 then some .none
  else do
    let conv ← bytesToLong buffer 0
    let seq ← bytesToLong buffer 4
    let ack ← bytesToLong buffer 8
    let flags ← (buffer[13]? : Option UInt8)
    let wnd ← bytesToShort buffer 14
    let tsval ← bytesToLong buffer 16
    let tsecr ← bytesToLong buffer 20
    some (some {
      conv := conv, seq := seq, ack := ack, flags := flags, wnd := wnd
      tsval := tsval, tsecr := tsecr
      data := buffer.drop headerSize
      len := u32 (buffer.length - headerSize) })

/-! ## The calls -/

/-- mirrors webrtc/p2p/base/pseudotcp.cc:261-274 -/
def connect : PseudoTcp :=
  if s.state ≠ .listen then { s with error := some .einval }
  else (queueConnectMessage { s with state := .synSent }).attemptSend env .none

/-- mirrors webrtc/p2p/base/pseudotcp.cc:276-281 -/
def notifyMTU (mtu : Nat) : PseudoTcp :=
  let s := { s with mtuAdvise := mtu }
  if s.state = .established then s.adjustMTU else s

/-- The segment that has waited too long goes out again; no value: the connection is closed.
mirrors webrtc/p2p/base/pseudotcp.cc:287-316 -/
def retransmit (now : Nat) : Bool × PseudoTcp :=
  if s.rtoBase ≠ 0 ∧ timeDiff (u32 (s.rtoBase + s.rxRto)) now ≤ 0 then
    if s.slist = [] then (true, s.check false)
    else
      match s.transmit env 0 now with
      | (false, s) => (false, s.closedown)
      | (true, s) =>
        (true, { s with
          ssthresh := max (u32 (s.sndNxt - s.sndUna) / 2) (u32 (2 * s.mss))
          cwnd := s.mss
          rxRto := min (if s.state = .established then maxRto else defRto) (u32 (s.rxRto * 2))
          rtoBase := now })
  else (true, s)

/-- mirrors webrtc/p2p/base/pseudotcp.cc:318-332 -/
def probe (now : Nat) : Bool × PseudoTcp :=
  if s.sndWnd = 0 ∧ timeDiff (u32 (s.lastsend + s.rxRto)) now ≤ 0 then
    if timeDiff now s.lastrecv ≥ 15000 then (false, s.closedown)
    else
      let s := (s.packet env (u32 (s.sndNxt - 1)) 0 0 0).2
      (true, { s with lastsend := now, rxRto := min maxRto (u32 (s.rxRto * 2)) })
  else (true, s)

def delayedAck (now : Nat) : PseudoTcp :=
  if s.tAck ≠ 0 ∧ timeDiff (u32 (s.tAck + s.ackDelay)) now ≤ 0 then
    (s.packet env s.sndNxt 0 0 0).2
  else s

/-- mirrors webrtc/p2p/base/pseudotcp.cc:283-351 -/
def notifyClock (now : Nat) : PseudoTcp :=
  if s.state = .closed then s
  else
    match s.retransmit env now with
    | (false, s) => s
    | (true, s) =>
      match s.probe env now with
      | (false, s) => s
      | (true, s) => s.delayedAck env now

/-- mirrors webrtc/p2p/base/pseudotcp.cc:353-359 -/
def notifyPacket (buffer : Bytes) : Option (Bool × PseudoTcp) :=
  if buffer.length > maxPacket then some (false, s)
  else
    match parse buffer with
    | .none => .none
    | some .none => some (false, s)
    | some (some seg) => s.process env seg

/-- What was read; no value: `SOCKET_ERROR`.
mirrors webrtc/p2p/base/pseudotcp.cc:416-448 -/
def recv (len : Nat) : Option Bytes × PseudoTcp :=
  if s.state ≠ .established then (.none, { s with error := some .enotconn })
  else
    match s.rbuf.read len with
    | .none => (.none, { s with error := some .ewouldblock })
    | some (data, rbuf) =>
      let s := { s with rbuf := rbuf }
      let availableSpace := rbuf.getWriteRemaining
      if u32 (availableSpace - s.rcvWnd) ≥ min (s.rbufLen / 2) s.mss then
        let opened := { s with rcvWnd := availableSpace }
        (some data, if s.rcvWnd = 0 then opened.attemptSend env .immediateAck else opened)
      else (some data, s)

/-- How much was taken; no value: `SOCKET_ERROR`.
mirrors webrtc/p2p/base/pseudotcp.cc:450-468 -/
def send (data : Bytes) : Option Nat × PseudoTcp :=
  if s.state ≠ .established then (.none, { s with error := some .enotconn })
  else if s.sbuf.getWriteRemaining = 0 then (.none, { s with error := some .ewouldblock })
  else
    let (written, s) := s.queue (data.take (u32 data.length)) false
    (some written, s.attemptSend env .none)

/-- mirrors webrtc/p2p/base/pseudotcp.cc:470-473 -/
def close : PseudoTcp := { s with shutdown := true }

/-- mirrors webrtc/p2p/base/pseudotcp.cc:1242-1246 -/
def resizeSendBuffer (newSize : Nat) : PseudoTcp :=
  { s with sbuf := (s.sbuf.setCapacity (env.heap s.asked) newSize).getD s.sbuf }

/-- mirrors webrtc/p2p/base/pseudotcp.cc:378-392 -/
def setOption (opt : TcpOption) (value : Int) : PseudoTcp :=
  match opt with
  | .nodelay => { s with useNagling := value = 0 }
  | .ackdelay => { s with ackDelay := u32 value }
  | .sndbuf => (s.check (s.state = .listen)).resizeSendBuffer env (u32 value)
  | .rcvbuf =>
    resizeReceiveBuffer env { s with receiveOk := s.receiveOk && s.state = .listen } (u32 value)

/-! ## Runs -/

inductive Call where
  | connect
  | send (data : Bytes)
  | recv (len : Nat)
  | close
  | setOption (opt : TcpOption) (value : Int)
  | notifyMTU (mtu : UInt16)
  | notifyClock (now : UInt32)
  | notifyPacket (buffer : Bytes)

def call : Call → Option PseudoTcp
  | .connect => some (s.connect env)
  | .send data => some (s.send env data).2
  | .recv len => some (s.recv env len).2
  | .close => some s.close
  | .setOption opt value => some (s.setOption env opt value)
  | .notifyMTU mtu => some (s.notifyMTU mtu.toNat)
  | .notifyClock now => some (s.notifyClock env now.toNat)
  | .notifyPacket buffer => (s.notifyPacket env buffer).map (·.2)

/-- The calls of the application and of the network, in any order. -/
def calls : LTS PseudoTcp Call :=
  .ofFn (fun s => ∃ conv now rmem smem, s = create conv now rmem smem) (call env)

end PseudoTcp

end RtcCore.L2
