import RtcCore.Core.Bytes
import RtcCore.Core.Framing
import RtcCore.Core.LTS

/-!
# Packets with a length before them over TCP

`AsyncTCPSocket` over `AsyncTCPSocketBase`, connected. A packet goes out behind
its length in 16 bits. `Send` takes up to `kBufSize` octets, which is more than
that length can say and, with the length, more than the output buffer holds. The
result of a socket call (how many octets it took, which chunk of the stream it
returned, or an error) is an argument.

`outbuf` and `inbuf` are what is in the buffers, `outpos_` and `inpos_` are their
lengths. `overrun` records an octet stored behind the output buffer, `overflow`
the branch of `OnReadEvent` that gives up the input buffer.

Results:
- `framing_correct_iff`: two ends and the streams between them, with `Send`
  called on packets of some sizes: in every run everything is stored inside the
  buffers and what is signalled is what was sent, if and only if no size that
  `Send` takes is over `0xFFFF`.
- `length_wraps`: what happens at 65537 octets.
-/
namespace RtcCore.L2

open Bytes

namespace AsyncTcpSocket

/-! ## The socket -/

/-- mirrors webrtc/base/asynctcpsocket.cc:25-30 -/
def kMaxPacketSize : Nat := 64 * 1024
def kPacketLenSize : Nat := 2
def kBufSize : Nat := kMaxPacketSize + kPacketLenSize

structure Socket where
  outbuf : Bytes := []
  inbuf : Bytes := []
  overrun : Bool := false
  overflow : Bool := false
  deriving DecidableEq, Repr

/-- The copy is made whatever the size: the `ASSERT` before it is not in a release build.
mirrors webrtc/base/asynctcpsocket.cc:167-171 -/
def appendToOutBuffer (s : Socket) (data : Bytes) : Socket :=
  { s with
    outbuf := s.outbuf ++ data
    overrun := s.overrun || decide (s.outbuf.length + data.length > kBufSize) }

/-- `res`: what `socket_->Send` returned. The result, and the octets that went out.
mirrors webrtc/base/asynctcpsocket.cc:150-165 -/
def flushOutBuffer (s : Socket) (res : Int) : Int × Bytes × Socket :=
  if res ≤ 0 then (res, [], s)
  else if res ≤ s.outbuf.length then
    (res, s.outbuf.take res.toNat, { s with outbuf := s.outbuf.drop res.toNat })
  else (-1, [], s)

/-- mirrors webrtc/base/asynctcpsocket.cc:248-272 -/
def send (s : Socket) (pv : Bytes) (res : Int) : Int × Bytes × Socket :=
  if pv.length > kBufSize then (-1, [], s)
  else if s.outbuf ≠ [] then (pv.length, [], s)
  else
    let s := appendToOutBuffer s (be16 pv.length)
    let s := appendToOutBuffer s pv
    let (res, out, s) := flushOutBuffer s res
    if res ≤ 0 then (res, out, { s with outbuf := [] })
    else (pv.length, out, s)

/-- mirrors webrtc/base/asynctcpsocket.cc:216-226 -/
def onWriteEvent (s : Socket) (res : Int) : Bytes × Socket :=
  if 0 < s.outbuf.length then (flushOutBuffer s res).2 else ([], s)

/-- The packets signalled, and what is left in the buffer. Every pass takes a length off, so as
many passes as there are octets are enough.
mirrors webrtc/base/asynctcpsocket.cc:274-293 -/
def processInput : Nat → Bytes → List Bytes × Bytes
  | 0, data => ([], data)
  | fuel + 1, data =>
    if data.length < kPacketLenSize then ([], data)
    else
      let pktLen := rd16 data 0
      if data.length < kPacketLenSize + pktLen then ([], data)
      else
        let r := processInput fuel (data.drop (kPacketLenSize + pktLen))
        (slice data kPacketLenSize pktLen :: r.1, r.2)

/-- `chunk`: what `socket_->Recv` stored, no value for an error.
mirrors webrtc/base/asynctcpsocket.cc:177-214 -/
def onReadEvent (s : Socket) : Option Bytes → List Bytes × Socket
  | none => ([], s)
  | some chunk =>
    let data := s.inbuf ++ chunk
    let r := processInput data.length data
    if r.2.length ≥ kBufSize then (r.1, { s with inbuf := [], overflow := true })
    else (r.1, { s with inbuf := r.2 })

/-! ## Two ends -/

/-- The ends, by a bit. `wire e` is what `e` has written and the other end not yet read, `sent e`
are the packets whose `Send` put octets on the wire, `got e` the packets signalled at `e`. -/
structure Link where
  sock : Bool → Socket := fun _ => {}
  wire : Bool → Bytes := fun _ => []
  sent : Bool → List Bytes := fun _ => []
  got : Bool → List Bytes := fun _ => []

inductive Event where
  | send (e : Bool) (pv : Bytes) (res : Int)
  | writeEvent (e : Bool) (res : Int)
  | readEvent (e : Bool) (len : Nat)
  | readError (e : Bool)

/-- The octets of `socket_->Send` are taken in order, `socket_->Recv` returns the next ones and at
most as many as there is room for. -/
def step (l : Link) : Event → Link → Prop
  | .send e pv res, l' =>
    let r := send (l.sock e) pv res
    res ≤ (l.sock e).outbuf.length + kPacketLenSize + pv.length ∧
    l' = { l with
      sock := update l.sock e r.2.2
      wire := update l.wire e (l.wire e ++ r.2.1)
      sent := if r.2.1 = [] then l.sent else update l.sent e (l.sent e ++ [pv]) }
  | .writeEvent e res, l' =>
    let r := onWriteEvent (l.sock e) res
    res ≤ (l.sock e).outbuf.length ∧
    l' = { l with
      sock := update l.sock e r.2
      wire := update l.wire e (l.wire e ++ r.1) }
  | .readEvent e len, l' =>
    let r := onReadEvent (l.sock e) (some ((l.wire !e).take len))
    len ≤ kBufSize - (l.sock e).inbuf.length ∧
    l' = { l with
      sock := update l.sock e r.2
      wire := update l.wire (!e) ((l.wire !e).drop len)
      got := update l.got e (l.got e ++ r.1) }
  | .readError e, l' =>
    l' = { l with sock := update l.sock e (onReadEvent (l.sock e) none).2 }

def link : LTS Link Event where
  init l := l = {}
  step := step

/-- `Send` is called with these sizes only. -/
def Sizes (S : Nat → Prop) (_ : Link) : Event → Prop
  | .send _ pv _ => S pv.length
  | _ => True

/-- Everything is stored inside the buffers of `e`, and the other end is told what `e` sent: in
order and unchanged, and all of it once nothing is on its way any more. -/
structure Correct (l : Link) (e : Bool) : Prop where
  inside : (l.sock e).overrun = false
  room : (l.sock e).overflow = false
  order : l.got (!e) <+: l.sent e
  all : l.wire e = [] → (l.sock e).outbuf = [] → l.got (!e) = l.sent e

/-! ## A packet and its length -/

variable {s : Socket} {pv data rest : Bytes} {res : Int}

def frame (pv : Bytes) : Bytes := be16 pv.length ++ pv

theorem frame_length (pv : Bytes) : (frame pv).length = 2 + pv.length := by
  simp [frame, be16]; omega

theorem rd16_frame (h : pv.length < 65536) (rest : Bytes) :
    rd16 (frame pv ++ rest) 0 = pv.length := by
  have := rd16_be16 [] (pv ++ rest) pv.length h
  simpa [frame] using this

/-- The first two octets decide. -/
theorem rd16_append (h : 2 ≤ data.length) : rd16 (data ++ rest) 0 = rd16 data 0 := by
  rw [rd16, rd16, getByte_append_left rest (by omega), getByte_append_left rest (by omega)]

/-- One pass of `processInput`. -/
def readPacket (data : Bytes) : Option (Bytes × Nat) :=
  if data.length < kPacketLenSize then none
  else if data.length < kPacketLenSize + rd16 data 0 then none
  else some (slice data kPacketLenSize (rd16 data 0), kPacketLenSize + rd16 data 0)

/-- Packets whose length fits its 16 bits. -/
def framing : Framing UInt8 Bytes where
  Ok pv := pv.length < 65536
  frame := frame
  next := readPacket
  empty := rfl
  pos {pv} _ := by
    rw [frame_length]
    omega
  whole {pv} rest h := by
    have hlen := frame_length pv
    have hkl : kPacketLenSize = 2 := rfl
    rw [readPacket, rd16_frame h, List.length_append, if_neg (by omega), if_neg (by omega), hlen]
    have hslice := slice_mid (be16 pv.length) pv rest
    rw [be16_length] at hslice
    exact congrArg (fun b => some (b, 2 + pv.length)) hslice
  short {pv data tail} h hd ht := by
    have hlen := congrArg List.length hd
    have hpos := List.length_pos_iff.2 ht
    have hkl : kPacketLenSize = 2 := rfl
    rw [List.length_append, frame_length] at hlen
    rw [readPacket]
    by_cases hshort : data.length < kPacketLenSize
    · rw [if_pos hshort]
    · have hrd : rd16 data 0 = pv.length := by
        have := rd16_frame h []
        rwa [List.append_nil, ← hd, rd16_append (by omega)] at this
      rw [if_neg hshort, hrd, if_pos (by omega)]

theorem processInput_eq (fuel : Nat) (data : Bytes) :
    processInput fuel data = framing.cut fuel data := by
  induction fuel generalizing data with
  | zero => rfl
  | succ fuel ih =>
    rw [processInput]
    by_cases hshort : data.length < kPacketLenSize
    · rw [if_pos hshort, framing.cut_none (if_pos hshort)]
    · rw [if_neg hshort]
      dsimp only
      by_cases hpart : data.length < kPacketLenSize + rd16 data 0
      · rw [if_pos hpart, framing.cut_none ((if_neg hshort).trans (if_pos hpart))]
      · rw [if_neg hpart, ih, framing.cut_some ((if_neg hshort).trans (if_neg hpart))]

/-! ## One call -/

/-- `Send` puts octets on the wire only with an empty buffer, and what is on its way then is the
packet behind its length; it stays inside the buffer when the length fits its 16 bits. -/
theorem send_cases (h : pv.length ≤ kBufSize → pv.length < 65536)
    (hres : res ≤ s.outbuf.length + kPacketLenSize + pv.length) :
    ((send s pv res).2.1 = [] ∧ (send s pv res).2.2 = s) ∨
      (s.outbuf = [] ∧ pv.length < 65536 ∧ (send s pv res).2.1 ≠ [] ∧
        ∃ rest, (send s pv res).2.1 ++ rest = frame pv ∧
          (send s pv res).2.2 = { s with outbuf := rest }) := by
  unfold send
  by_cases hsize : pv.length > kBufSize
  · rw [if_pos hsize]
    exact .inl ⟨rfl, rfl⟩
  · rw [if_neg hsize]
    by_cases hempty : s.outbuf ≠ []
    · rw [if_pos hempty]
      exact .inl ⟨rfl, rfl⟩
    · have hempty : s.outbuf = [] := Decidable.not_not.1 hempty
      have hsmall : pv.length < 65536 := h (by omega)
      have hbuf : appendToOutBuffer (appendToOutBuffer s (be16 pv.length)) pv =
          { s with outbuf := frame pv } := by
        have hk : kBufSize = 65538 := rfl
        simp only [appendToOutBuffer, hempty, List.nil_append, List.length_nil, be16_length]
        rw [decide_eq_false (by omega), decide_eq_false (by omega), Bool.or_false, Bool.or_false]
        rfl
      rw [if_neg (fun hc => hc hempty)]
      dsimp only
      rw [hbuf, flushOutBuffer]
      rw [hempty, List.length_nil] at hres
      by_cases hneg : res ≤ 0
      · rw [if_pos hneg]
        dsimp only
        rw [if_pos hneg, ← hempty]
        exact .inl ⟨rfl, rfl⟩
      · have hlen := frame_length pv
        have hkl : kPacketLenSize = 2 := rfl
        have hle : res ≤ ((frame pv).length : Int) := by omega
        rw [if_neg hneg, if_pos hle]
        dsimp only
        rw [if_neg hneg]
        refine .inr ⟨hempty, hsmall, fun hc => ?_, _, List.take_append_drop _ _, rfl⟩
        have := congrArg List.length hc
        rw [List.length_take, List.length_nil] at this
        omega

theorem onWriteEvent_cases (hres : res ≤ s.outbuf.length) :
    ∃ rest, (onWriteEvent s res).1 ++ rest = s.outbuf ∧
      (onWriteEvent s res).2 = { s with outbuf := rest } := by
  unfold onWriteEvent
  by_cases hempty : 0 < s.outbuf.length
  · rw [if_pos hempty, flushOutBuffer]
    by_cases hneg : res ≤ 0
    · rw [if_pos hneg]
      exact ⟨s.outbuf, rfl, rfl⟩
    · rw [if_neg hneg, if_pos hres]
      exact ⟨_, List.take_append_drop _ _, rfl⟩
  · rw [if_neg hempty]
    exact ⟨s.outbuf, rfl, rfl⟩

/-! ## Runs -/

/-- Both directions are streams of packets, whatever is stored is stored inside the buffers. -/
structure Inv (l : Link) : Prop where
  flow : ∀ e, ∃ left,
    framing.Flow (l.sent e) (l.got !e) (l.sock !e).inbuf (l.wire e) (l.sock e).outbuf left
  inside : ∀ e, (l.sock e).overrun = false
  room : ∀ e, (l.sock e).overflow = false

variable {l l' : Link} {e : Bool} {S : Nat → Prop}

theorem inv_send (h : Inv l) (hpv : pv.length ≤ kBufSize → pv.length < 65536)
    (hs : step l (.send e pv res) l') : Inv l' := by
  obtain ⟨hres, rfl⟩ := hs
  obtain ⟨left, hf⟩ := h.flow e
  obtain ⟨left', hf'⟩ := h.flow !e
  rw [Bool.not_not] at hf'
  rcases send_cases hpv hres with ⟨hout, hsock⟩ | ⟨hempty, hok, hout, rest, hframe, hsock⟩
  · refine ⟨forall_both e ⟨left, ?_⟩ ⟨left', ?_⟩, forall_both e ?_ ?_, forall_both e ?_ ?_⟩
    · simpa only [hout, hsock, if_true, update_same, update_other, List.append_nil] using hf
    · simpa only [hout, hsock, if_true, update_same, update_other, Bool.not_not] using hf'
    · simpa only [hsock, update_same] using h.inside e
    · simpa only [update_other] using h.inside !e
    · simpa only [hsock, update_same] using h.room e
    · simpa only [update_other] using h.room !e
  · rw [hempty] at hf
    refine ⟨forall_both e ⟨left ++ [pv], ?_⟩ ⟨left', ?_⟩, forall_both e ?_ ?_, forall_both e ?_ ?_⟩
    · simpa only [hout, hsock, if_false, update_same, update_other] using hf.accept hok hframe
    · simpa only [hout, hsock, if_false, update_same, update_other, Bool.not_not] using hf'
    · simpa only [hsock, update_same] using h.inside e
    · simpa only [update_other] using h.inside !e
    · simpa only [hsock, update_same] using h.room e
    · simpa only [update_other] using h.room !e

theorem inv_writeEvent (h : Inv l) (hs : step l (.writeEvent e res) l') : Inv l' := by
  obtain ⟨hres, rfl⟩ := hs
  obtain ⟨left, hf⟩ := h.flow e
  obtain ⟨left', hf'⟩ := h.flow !e
  rw [Bool.not_not] at hf'
  obtain ⟨rest, hout, hsock⟩ := onWriteEvent_cases hres
  refine ⟨forall_both e ⟨left, ?_⟩ ⟨left', ?_⟩, forall_both e ?_ ?_, forall_both e ?_ ?_⟩
  · simpa only [hsock, update_same, update_other] using hf.write hout
  · simpa only [hsock, update_same, update_other, Bool.not_not] using hf'
  · simpa only [hsock, update_same] using h.inside e
  · simpa only [update_other] using h.inside !e
  · simpa only [hsock, update_same] using h.room e
  · simpa only [update_other] using h.room !e

/-- A packet and its length fit the input buffer, so what is left of one leaves room for more. -/
theorem onReadEvent_flow {sent got left : List Bytes} {under out chunk : Bytes} {n : Nat}
    (h : framing.Flow sent got s.inbuf under out left) (hc : chunk = under.take n) :
    ∃ left', framing.Flow sent (got ++ (onReadEvent s (some chunk)).1)
        (onReadEvent s (some chunk)).2.inbuf (under.drop n) out left' ∧
      (onReadEvent s (some chunk)).2 =
        { s with inbuf := (onReadEvent s (some chunk)).2.inbuf } := by
  obtain ⟨left', hread⟩ := h.read n rfl
  have hfit : ∀ m, framing.Ok m → (framing.frame m).length ≤ 65537 := by
    intro m hm
    have hm : m.length < 65536 := hm
    change (frame m).length ≤ _
    rw [frame_length]
    omega
  have hroom := hread.room (by decide) hfit
  rw [← processInput_eq, ← hc] at hread hroom
  have hk : kBufSize = 65538 := rfl
  have hevent : onReadEvent s (some chunk) =
      ((processInput (s.inbuf ++ chunk).length (s.inbuf ++ chunk)).1,
        { s with inbuf := (processInput (s.inbuf ++ chunk).length (s.inbuf ++ chunk)).2 }) := by
    rw [onReadEvent]
    exact if_neg (by omega)
  rw [hevent]
  exact ⟨left', hread, rfl⟩

theorem inv_readEvent {len : Nat} (h : Inv l) (hs : step l (.readEvent e len) l') : Inv l' := by
  obtain ⟨-, rfl⟩ := hs
  obtain ⟨left, hf⟩ := h.flow e
  obtain ⟨left', hf'⟩ := h.flow !e
  rw [Bool.not_not] at hf'
  obtain ⟨left'', hread, hsock⟩ := onReadEvent_flow (n := len) hf' rfl
  refine ⟨forall_both e ⟨left, ?_⟩ ⟨left'', ?_⟩, forall_both e ?_ ?_, forall_both e ?_ ?_⟩
  · rw [hsock]
    simpa only [update_same, update_other, update_not] using hf
  · simpa only [update_same, update_other, Bool.not_not] using hread
  · rw [hsock]
    simpa only [update_same] using h.inside e
  · simpa only [update_other] using h.inside !e
  · rw [hsock]
    simpa only [update_same] using h.room e
  · simpa only [update_other] using h.room !e

theorem link_inductive (hS : ∀ n, S n → n ≤ kBufSize → n ≤ 0xFFFF) :
    (link.within (Sizes S)).Inductive Inv where
  init l h := by
    cases h
    exact ⟨fun _ => ⟨[], .start⟩, fun _ => rfl, fun _ => rfl⟩
  step l ev l' h hs := by
    obtain ⟨hsize, hs⟩ := hs
    cases ev with
    | send e pv res => exact inv_send h (fun hk => Nat.lt_succ_of_le (hS _ hsize hk)) hs
    | writeEvent e res => exact inv_writeEvent h hs
    | readEvent e len => exact inv_readEvent h hs
    | readError e =>
      have hs : l' = { l with sock := update l.sock e (l.sock e) } := hs
      rw [update_self] at hs
      rw [hs]
      exact h

theorem Inv.correct (h : Inv l) (e : Bool) : Correct l e := by
  obtain ⟨left, hf⟩ := h.flow e
  refine ⟨h.inside e, h.room e, ⟨left, hf.split.symm⟩, fun hw ho => ?_⟩
  rw [hw, ho] at hf
  exact hf.drained

/-! ## Sizes over 16 bits -/

/-- The whole of a packet of zeros goes out at once. -/
theorem send_all (n : Nat) (hn : n ≤ kBufSize) :
    (send {} (List.replicate n 0) (n + 2)).2 = (be16 n ++ List.replicate n 0,
      { overrun := decide (kBufSize < n + 2) }) := by
  have hsize : ¬ (List.replicate n (0 : UInt8)).length > kBufSize := by simpa using hn
  have hbuf : appendToOutBuffer (appendToOutBuffer {} (be16 n)) (List.replicate n 0) =
      { outbuf := be16 n ++ List.replicate n 0, overrun := decide (kBufSize < n + 2) } := by
    have htwo : decide (0 + 2 > kBufSize) = false := by decide
    simp only [appendToOutBuffer, List.nil_append, List.length_nil, be16_length, htwo,
      Bool.or_false, Bool.false_or, List.length_replicate, Nat.add_comm 2 n, gt_iff_lt]
  rw [send, if_neg hsize, List.length_replicate]
  rw [if_neg (fun hc => hc rfl)]
  dsimp only
  have hlen : (be16 n ++ List.replicate n (0 : UInt8)).length = n + 2 := by
    rw [List.length_append, be16_length, List.length_replicate, Nat.add_comm]
  have hpos : ¬ (n : Int) + 2 ≤ 0 := by omega
  have hall : (n : Int) + 2 ≤ ((be16 n ++ List.replicate n (0 : UInt8)).length : Nat) := by
    rw [hlen]
    omega
  have hnat : ((n : Int) + 2).toNat = n + 2 := by omega
  rw [hbuf, flushOutBuffer, if_neg hpos, if_pos hall]
  dsimp only
  rw [if_neg hpos, hnat, List.take_of_length_le (by omega), List.drop_of_length_le (by omega)]

theorem be16_wraps (k : Nat) : be16 (65536 + k) = be16 k := by
  have hdiv : (65536 + k) / 256 = 256 + k / 256 := by omega
  rw [be16, be16, hdiv]
  simp [UInt8.ofNat_add, show UInt8.ofNat 65536 = 0 from rfl, show UInt8.ofNat 256 = 0 from rfl]

/-- The length of a packet of `65536 + k` octets reads as `k`. -/
theorem processInput_wraps {k : Nat} (hk : k < 65536) :
    processInput (2 + k) (be16 (65536 + k) ++ List.replicate k 0) = ([List.replicate k 0], []) := by
  have hok : framing.Ok (List.replicate k (0 : UInt8)) := by
    change (List.replicate k (0 : UInt8)).length < 65536
    rwa [List.length_replicate]
  have hframe : be16 (65536 + k) ++ List.replicate k (0 : UInt8) =
      framing.frame (List.replicate k 0) ++ [] := by
    rw [be16_wraps, List.append_nil]
    change _ = be16 (List.replicate k (0 : UInt8)).length ++ _
    rw [List.length_replicate]
  obtain ⟨fuel, hfuel⟩ : ∃ fuel, 2 + k = fuel + 1 := ⟨1 + k, by omega⟩
  rw [hframe, processInput_eq, hfuel, framing.cut_some (framing.whole [] hok), List.drop_left]
  cases fuel with
  | zero => rfl
  | succ fuel =>
    rw [framing.cut_none framing.empty]

/-- What happens to a packet of `65536 + k` octets. -/
theorem oversized {k : Nat} (hk : k ≤ 2) : ∃ l₁ l,
    step {} (.send false (List.replicate (65536 + k) 0) ((65536 + k : Nat) + 2)) l₁ ∧
      step l₁ (.readEvent true (2 + k)) l ∧
      (l.sock false).overrun = decide (0 < k) ∧
      l.sent false = [List.replicate (65536 + k) 0] ∧ l.got true = [List.replicate k 0] := by
  have hbuf : kBufSize = 65538 := rfl
  have hsend := send_all (65536 + k) (by omega)
  have hne : be16 (65536 + k) ++ List.replicate (65536 + k) (0 : UInt8) ≠ [] :=
    fun hc => (nomatch hc)
  have htake : ([] ++ (be16 (65536 + k) ++ List.replicate (65536 + k) (0 : UInt8))).take (2 + k) =
      be16 (65536 + k) ++ List.replicate k 0 := by
    rw [List.nil_append, ← be16_length (65536 + k), List.take_length_add_append, List.take_replicate,
      Nat.min_eq_left (by omega)]
  have hlen : (be16 (65536 + k) ++ List.replicate k (0 : UInt8)).length = 2 + k := by
    rw [List.length_append, be16_length, List.length_replicate]
  have hread : onReadEvent {} (some (be16 (65536 + k) ++ List.replicate k 0)) =
      ([List.replicate k 0], {}) := by
    rw [onReadEvent]
    simp only [List.nil_append, hlen, processInput_wraps (Nat.lt_of_le_of_lt hk (by decide))]
    rfl
  refine ⟨_, _, ⟨?_, rfl⟩, ⟨?_, rfl⟩, ?_, ?_, ?_⟩
  · rw [List.length_replicate]
    change _ ≤ ((0 : Nat) : Int) + (2 : Nat) + _
    omega
  · change 2 + k ≤ kBufSize - 0
    omega
  · change (send {} (List.replicate (65536 + k) 0) ((65536 + k : Nat) + 2)).2.2.overrun = _
    rw [hsend]
    exact decide_eq_decide.2 (by omega)
  · change (if (send {} (List.replicate (65536 + k) 0) ((65536 + k : Nat) + 2)).2.1 = [] then _
      else _ : Bool → List Bytes) false = _
    rw [hsend, if_neg hne]
    rfl
  · change [] ++ (onReadEvent {} (some ((List.append []
      (send {} (List.replicate (65536 + k) 0) ((65536 + k : Nat) + 2)).2.1).take (2 + k)))).1 = _
    rw [hsend]
    change [] ++ (onReadEvent {} (some (([] ++ (be16 (65536 + k) ++ _)).take (2 + k)))).1 = _
    rw [htake, hread]
    rfl

/-- A length of 65537 octets is sent as 1: two octets are stored behind the output buffer, and the
other end is told of a packet of one octet. -/
theorem length_wraps : ∃ l₁ l,
    step {} (.send false (List.replicate 65537 0) 65539) l₁ ∧ step l₁ (.readEvent true 3) l ∧
      ¬ Correct l false ∧ (l.sock false).overrun = true ∧ ¬ l.got true <+: l.sent false := by
  obtain ⟨l₁, l, h1, h2, hover, hsent, hgot⟩ := oversized (k := 1) (by decide)
  refine ⟨l₁, l, h1, h2, fun hc => ?_, hover, fun hp => ?_⟩
  · have := hc.inside
    rw [hover] at this
    exact absurd this (by decide)
  · rw [hsent, hgot] at hp
    have hone := (List.cons_prefix_cons.1 hp).1
    have := congrArg List.length hone
    rw [List.length_replicate, List.length_replicate] at this
    exact absurd this (by decide)

theorem framing_correct_iff (S : Nat → Prop) :
    (∀ l, (link.within (Sizes S)).Reachable l → ∀ e, Correct l e) ↔
      ∀ n, S n → n ≤ kBufSize → n ≤ 0xFFFF := by
  refine ⟨fun h n hn hk => ?_, fun hS l hr e => ((link_inductive hS).reachable l hr).correct e⟩
  rcases Nat.lt_or_ge 0xFFFF n with hbig | hsmall
  · have hbuf : kBufSize = 65538 := rfl
    obtain ⟨k, rfl⟩ : ∃ k, n = 65536 + k := ⟨n - 65536, by omega⟩
    obtain ⟨l₁, l, h1, h2, -, hsent, hgot⟩ := oversized (k := k) (by omega)
    have hsize : Sizes S {} (.send false (List.replicate (65536 + k) 0) ((65536 + k : Nat) + 2)) := by
      change S (List.replicate (65536 + k) (0 : UInt8)).length
      rwa [List.length_replicate]
    have hread : Sizes S l₁ (.readEvent true (2 + k)) := trivial
    have hp := (h l ⟨{}, _, rfl, .cons ⟨hsize, h1⟩ (.cons ⟨hread, h2⟩ (.nil l))⟩ false).order
    -- the packet told of is shorter than the one sent
    change l.got true <+: _ at hp
    rw [hsent, hgot] at hp
    have hone := congrArg List.length (List.cons_prefix_cons.1 hp).1
    rw [List.length_replicate, List.length_replicate] at hone
    omega
  · exact hsmall

end AsyncTcpSocket

end RtcCore.L2
