import RtcCore.Core.LTS
import RtcCore.Core.Bytes

/-!
# Sent-packet history

`RTPPacketHistory` keeps the packets a sender may have to retransmit in a
ring of slots. `PutRTPPacket` writes at `prev_index_` and grows the ring when
the packet there has not been sent; `FindSeqNum` guesses a slot from the
distance to the newest packet and otherwise scans. The parallel vectors
`stored_*` are one list of `Slot`s.

`Map` is what the class is for: a bounded collection of records, each with
its bytes, stored time and send time. A put adds a record and may replace one
that has been sent (or any one at full capacity).

Results:
* `history_refines_map`: every run of the class is a run of the map with the
  same results, the records being exactly the filled slots.

Preconditions are the source's asserts (`Op.Valid`). `prev_index_` and the
sizes stay below 9600, so the `uint32_t` / `int32_t` arithmetic of
`FindSeqNum` is arithmetic on integers.
-/
namespace RtcCore.L2.PacketHistory

open Bytes

def kMaxHistoryCapacity : Nat := 9600

inductive StorageType
  | dontStore
  | dontRetransmit
  | allowRetransmission
  deriving DecidableEq, Repr

/-- Entry `i` of the `stored_*` vectors; `resize` value-initialises it. -/
structure Slot where
  packet : Bytes := []
  seqNum : UInt16 := 0
  length : Nat := 0
  time : Int := 0
  sendTime : Int := 0
  type : StorageType := .dontStore
  deriving DecidableEq, Repr

/-- mirrors webrtc/modules/rtp_rtcp/source/rtp_packet_history.h:85-97 -/
structure History where
  store : Bool := false
  prevIndex : Nat := 0
  maxPacketLength : Nat := 0
  slots : List Slot := []
  deriving DecidableEq, Repr

namespace History

/-- mirrors webrtc/modules/rtp_rtcp/source/rtp_packet_history.cc:53-63 -/
def allocate (h : History) (n : Nat) : History :=
  { h with store := true
           slots := h.slots.take n ++ List.replicate (n - h.slots.length) {} }

/-- mirrors webrtc/modules/rtp_rtcp/source/rtp_packet_history.cc:65-85 -/
def free (h : History) : History := if h.store then {} else h

/-- mirrors webrtc/modules/rtp_rtcp/source/rtp_packet_history.cc:38-51 -/
def setStorePacketsStatus (h : History) (enable : Bool) (numberToStore : Nat) : History :=
  if enable then (if h.store then h.free else h).allocate numberToStore else h.free

/-- `std::vector::resize` of a slot's buffer. -/
def resizeBuffer (n : Nat) (s : Slot) : Slot :=
  { s with packet := s.packet.take n ++ List.replicate (n - s.packet.length) 0 }

/-- mirrors webrtc/modules/rtp_rtcp/source/rtp_packet_history.cc:92-112 -/
def verifyAndAllocatePacketLength (h : History) (packetLength startIndex : Nat) : History :=
  if !h.store then h
  else if startIndex = 0 ∧ packetLength ≤ h.maxPacketLength then h
  else
    let n := max packetLength h.maxPacketLength
    { h with maxPacketLength := n
             slots := h.slots.take startIndex ++ (h.slots.drop startIndex).map (resizeBuffer n) }

def slot (h : History) (i : Nat) : Slot := h.slots[i]?.getD {}

/-- The expansion of a ring whose next slot holds an unsent packet.
mirrors webrtc/modules/rtp_rtcp/source/rtp_packet_history.cc:143-158 -/
def expand (h : History) (maxPacketLength : Nat) : History :=
  if 0 < (h.slot h.prevIndex).length ∧ (h.slot h.prevIndex).sendTime = 0 then
    let currentSize := h.slots.length % 65536
    if currentSize < kMaxHistoryCapacity then
      let expandedSize := min (max (currentSize * 3 / 2) (currentSize + 1)) kMaxHistoryCapacity
      { (h.allocate expandedSize).verifyAndAllocatePacketLength maxPacketLength currentSize with
          prevIndex := currentSize }
    else h
  else h

/-- `std::copy` of a packet to the start of a buffer. -/
def copyInto (buf pkt : Bytes) : Bytes := pkt ++ buf.drop pkt.length

/-- The write at `prev_index_`.
mirrors webrtc/modules/rtp_rtcp/source/rtp_packet_history.cc:160-177 -/
def writeSlot (h : History) (pkt : Bytes) (captureTime now : Int) (type : StorageType) : History :=
  let next := h.prevIndex + 1
  { h with
    slots := h.slots.set h.prevIndex
      { packet := copyInto (h.slot h.prevIndex).packet pkt
        seqNum := UInt16.ofNat (rd16 pkt 2)
        length := pkt.length
        time := if 0 < captureTime then captureTime else now
        sendTime := 0
        type := type }
    prevIndex := if h.slots.length ≤ next then 0 else next }

/-- Return value and new state; `now` is what the clock reads.
mirrors webrtc/modules/rtp_rtcp/source/rtp_packet_history.cc:114-177 -/
def putRTPPacket (h : History) (pkt : Bytes) (maxPacketLength : Nat) (captureTime now : Int)
    (type : StorageType) : Int × History :=
  if type = .dontStore then (0, h)
  else if !h.store then (0, h)
  else
    let h := h.verifyAndAllocatePacketLength maxPacketLength 0
    if h.maxPacketLength < pkt.length then (-1, h)
    else (0, (h.expand maxPacketLength).writeSlot pkt captureTime now type)

/-- The slot `FindSeqNum` tries first: the newest packet's, moved by the
distance in sequence numbers when that stays in the ring.
mirrors webrtc/modules/rtp_rtcp/source/rtp_packet_history.cc:295-308 -/
def guessIndex (h : History) (seq : UInt16) : Nat :=
  let index := if 0 < h.prevIndex then h.prevIndex - 1 else h.slots.length - 1
  let temp := (h.slot index).seqNum
  let idx : Int := (h.prevIndex : Int) - 1 - ((temp.toNat : Int) - (seq.toNat : Int))
  if 0 ≤ idx ∧ idx < h.slots.length then idx.toNat else index

/-- `FindSeqNum`: the index it leaves in `*index` when it returns true.
mirrors webrtc/modules/rtp_rtcp/source/rtp_packet_history.cc:292-324 -/
def findSeqNum (h : History) (seq : UInt16) : Option Nat :=
  if (h.slot (h.guessIndex seq)).seqNum = seq then some (h.guessIndex seq)
  else h.slots.findIdx? (·.seqNum == seq)

/-- mirrors webrtc/modules/rtp_rtcp/source/rtp_packet_history.cc:179-198 -/
def hasRTPPacket (h : History) (seq : UInt16) : Bool :=
  if !h.store then false
  else match h.findSeqNum seq with
    | none => false
    | some i => !((h.slot i).length == 0 || decide (h.maxPacketLength < (h.slot i).length))

/-- `stored_send_times_[i] = now`. -/
def setSendTime (h : History) (i : Nat) (now : Int) : History :=
  { h with slots := h.slots.set i { h.slot i with sendTime := now } }

/-- mirrors webrtc/modules/rtp_rtcp/source/rtp_packet_history.cc:200-219 -/
def setSent (h : History) (seq : UInt16) (now : Int) : Bool × History :=
  if !h.store then (false, h)
  else match h.findSeqNum seq with
    | none => (false, h)
    | some i => if (h.slot i).sendTime ≠ 0 then (false, h) else (true, h.setSendTime i now)

/-- The octets and the stored time of slot `i`.
mirrors webrtc/modules/rtp_rtcp/source/rtp_packet_history.cc:265-276 -/
def getPacket (h : History) (i : Nat) : Bytes × Int :=
  ((h.slot i).packet.take (h.slot i).length, (h.slot i).time)

/-- mirrors webrtc/modules/rtp_rtcp/source/rtp_packet_history.cc:221-263 -/
def getPacketAndSetSendTime (h : History) (seq : UInt16) (minElapsed : Int) (retransmit : Bool)
    (now : Int) : Option (Bytes × Int) × History :=
  if !h.store then (none, h)
  else match h.findSeqNum seq with
    | none => (none, h)
    | some i =>
      if (h.slot i).length = 0 then (none, h)
      else if 0 < minElapsed ∧ now - (h.slot i).sendTime < minElapsed then (none, h)
      else if retransmit = true ∧ (h.slot i).type = .dontRetransmit then (none, h)
      else (some (h.getPacket i), h.setSendTime i now)

end History

/-- The calls; `now` is the clock at the call. -/
inductive Op
  | setStorePacketsStatus (enable : Bool) (numberToStore : Nat)
  | putRTPPacket (pkt : Bytes) (maxPacketLength : Nat) (captureTime now : Int) (type : StorageType)
  | setSent (seq : UInt16) (now : Int)
  | getPacketAndSetSendTime (seq : UInt16) (minElapsed : Int) (retransmit : Bool) (now : Int)
  | hasRTPPacket (seq : UInt16)
  deriving DecidableEq, Repr

inductive Out
  | unit
  | code (c : Int)
  | bool (b : Bool)
  | packet (p : Option (Bytes × Int))
  deriving DecidableEq, Repr

/-- The asserts of `Allocate` and `PutRTPPacket`. -/
def Op.Valid : Op → Prop
  | .setStorePacketsStatus enable n => enable = true → 0 < n ∧ n ≤ kMaxHistoryCapacity
  | .putRTPPacket pkt _ _ _ _ => 3 < pkt.length
  | _ => True

instance : (op : Op) → Decidable op.Valid
  | .setStorePacketsStatus enable n =>
    inferInstanceAs (Decidable (enable = true → 0 < n ∧ n ≤ kMaxHistoryCapacity))
  | .putRTPPacket pkt _ _ _ _ => inferInstanceAs (Decidable (3 < pkt.length))
  | .setSent _ _ => .isTrue trivial
  | .getPacketAndSetSendTime _ _ _ _ => .isTrue trivial
  | .hasRTPPacket _ => .isTrue trivial

def History.step (h : History) : Op → Out × History
  | .setStorePacketsStatus e n => (.unit, h.setStorePacketsStatus e n)
  | .putRTPPacket pkt ml ct now ty =>
    (.code (h.putRTPPacket pkt ml ct now ty).1, (h.putRTPPacket pkt ml ct now ty).2)
  | .setSent seq now => (.bool (h.setSent seq now).1, (h.setSent seq now).2)
  | .getPacketAndSetSendTime seq me rt now =>
    (.packet (h.getPacketAndSetSendTime seq me rt now).1,
      (h.getPacketAndSetSendTime seq me rt now).2)
  | .hasRTPPacket seq => (.bool (h.hasRTPPacket seq), h)

/-- The class: labels are a call with its result. -/
def code : LTS History (Op × Out) where
  init h := h = {}
  step h l h' := l.1.Valid ∧ h.step l.1 = (l.2, h')

/-! ## The bounded map -/

/-- A stored packet. -/
structure Rec where
  seq : UInt16
  bytes : Bytes
  time : Int
  sendTime : Int
  type : StorageType
  deriving DecidableEq, Repr

/-- The most recent put under a sequence number; `alone`: right after it no
other packet was stored under that number. -/
structure Latest where
  bytes : Bytes
  time : Int
  alone : Bool

structure Map where
  on : Bool := false
  maxLen : Nat := 0
  recs : List Rec := []
  latest : UInt16 → Option Latest := fun _ => none

/-- The record of a put: the capture time when positive, else the clock. -/
def mkRec (pkt : Bytes) (captureTime now : Int) (type : StorageType) : Rec :=
  ⟨UInt16.ofNat (rd16 pkt 2), pkt, if 0 < captureTime then captureTime else now, 0, type⟩

namespace Map

/-- `r` enters and the records become `recs`. -/
def insert (m : Map) (maxPacketLength : Nat) (r : Rec) (recs : List Rec) : Map :=
  { m with
    maxLen := max maxPacketLength m.maxLen
    recs := recs
    latest := fun q => if q = r.seq then
        some ⟨r.bytes, r.time, recs.all fun x => x.seq != r.seq || x == r⟩ else m.latest q }

/-- Record `i` gets its send time. -/
def touch (m : Map) (i : Nat) (r : Rec) (now : Int) : Map :=
  { m with recs := m.recs.set i { r with sendTime := now } }

def Stored (m : Map) (seq : UInt16) : Prop := ∃ r ∈ m.recs, r.seq = seq

/-- A lookup refused: too soon after the last send, or not to be
retransmitted. -/
def Refused (r : Rec) (minElapsed : Int) (retransmit : Bool) (now : Int) : Prop :=
  (0 < minElapsed ∧ now - r.sendTime < minElapsed) ∨
    (retransmit = true ∧ r.type = .dontRetransmit)

/-- A put replaces a record only if it has been sent or the map is at full
capacity. `setSentZero` leaves the result open: sequence number 0 is also
what an empty slot holds. -/
inductive Step : Map → Op × Out → Map → Prop
  | enable (m : Map) (n : Nat) : Step m (.setStorePacketsStatus true n, .unit) { on := true }
  | disable (m : Map) (n : Nat) : Step m (.setStorePacketsStatus false n, .unit) {}
  | putIgnored (m : Map) (pkt : Bytes) (ml : Nat) (ct now : Int) (ty : StorageType)
      (h : ty = .dontStore ∨ m.on = false) : Step m (.putRTPPacket pkt ml ct now ty, .code 0) m
  | putTooLong (m : Map) (pkt : Bytes) (ml : Nat) (ct now : Int) (ty : StorageType)
      (hl : max ml m.maxLen < pkt.length) :
      Step m (.putRTPPacket pkt ml ct now ty, .code (-1)) { m with maxLen := max ml m.maxLen }
  | putAdd (m : Map) (pkt : Bytes) (ml : Nat) (ct now : Int) (ty : StorageType)
      (hl : pkt.length ≤ max ml m.maxLen) (hc : m.recs.length < kMaxHistoryCapacity) :
      Step m (.putRTPPacket pkt ml ct now ty, .code 0)
        (m.insert ml (mkRec pkt ct now ty) (m.recs ++ [mkRec pkt ct now ty]))
  | putReplace (m : Map) (pkt : Bytes) (ml : Nat) (ct now : Int) (ty : StorageType) (i : Nat)
      (r : Rec) (hl : pkt.length ≤ max ml m.maxLen) (hr : m.recs[i]? = some r)
      (hs : r.sendTime ≠ 0 ∨ m.recs.length = kMaxHistoryCapacity) :
      Step m (.putRTPPacket pkt ml ct now ty, .code 0)
        (m.insert ml (mkRec pkt ct now ty) (m.recs.set i (mkRec pkt ct now ty)))
  | has (m : Map) (seq : UInt16) :
      Step m (.hasRTPPacket seq, .bool (m.recs.any (·.seq == seq))) m
  | setSentMiss (m : Map) (seq : UInt16) (now : Int) (hz : seq ≠ 0) (h : ¬ m.Stored seq) :
      Step m (.setSent seq now, .bool false) m
  | setSentZero (m : Map) (now : Int) (b : Bool) (h : ¬ m.Stored 0) :
      Step m (.setSent 0 now, .bool b) m
  | setSentAgain (m : Map) (seq : UInt16) (now : Int) (r : Rec) (hr : r ∈ m.recs)
      (hq : r.seq = seq) (hs : r.sendTime ≠ 0) : Step m (.setSent seq now, .bool false) m
  | setSent (m : Map) (seq : UInt16) (now : Int) (i : Nat) (r : Rec) (hr : m.recs[i]? = some r)
      (hq : r.seq = seq) (hs : r.sendTime = 0) :
      Step m (.setSent seq now, .bool true) (m.touch i r now)
  | getMiss (m : Map) (seq : UInt16) (me : Int) (rt : Bool) (now : Int) (h : ¬ m.Stored seq) :
      Step m (.getPacketAndSetSendTime seq me rt now, .packet none) m
  | getRefused (m : Map) (seq : UInt16) (me : Int) (rt : Bool) (now : Int) (r : Rec)
      (hr : r ∈ m.recs) (hq : r.seq = seq) (hd : Refused r me rt now) :
      Step m (.getPacketAndSetSendTime seq me rt now, .packet none) m
  | get (m : Map) (seq : UInt16) (me : Int) (rt : Bool) (now : Int) (i : Nat) (r : Rec)
      (hr : m.recs[i]? = some r) (hq : r.seq = seq) (hd : ¬ Refused r me rt now) :
      Step m (.getPacketAndSetSendTime seq me rt now, .packet (some (r.bytes, r.time)))
        (m.touch i r now)

end Map

def spec : LTS Map (Op × Out) where
  init m := m = {}
  step := Map.Step

/-! ## The ring -/

/-- What a filled slot stores. -/
def Slot.toRec (s : Slot) : Rec := ⟨s.seqNum, s.packet.take s.length, s.time, s.sendTime, s.type⟩

/-- The packets in the ring: a slot of length 0 is empty. -/
def stored (h : History) : List Rec :=
  (h.slots.filter fun s => decide (0 < s.length)).map Slot.toRec

/-- The ring: filled slots `fs`, then empty ones `es`, which are written
next. -/
structure Ring (h : History) (fs es : List Slot) : Prop where
  slots : h.slots = fs ++ es
  filled : ∀ s ∈ fs, 0 < s.length ∧ s.length ≤ h.maxPacketLength
  empty : ∀ s ∈ es, s.length = 0 ∧ s.seqNum = 0
  buffers : ∀ s ∈ h.slots, s.packet.length = h.maxPacketLength
  index : h.prevIndex < h.slots.length
  next : es ≠ [] → h.prevIndex = fs.length
  capacity : h.slots.length ≤ kMaxHistoryCapacity

/-- Off and untouched, or on with a well-formed ring. -/
def Inv (h : History) : Prop := h = {} ∨ h.store = true ∧ ∃ fs es, Ring h fs es

theorem Ring.stored {h : History} {fs es : List Slot} (r : Ring h fs es) :
    stored h = fs.map Slot.toRec := by
  have h1 : fs.filter (fun s => decide (0 < s.length)) = fs :=
    List.filter_eq_self.2 fun s hs => by simp [(r.filled s hs).1]
  have h2 : es.filter (fun s => decide (0 < s.length)) = [] :=
    List.filter_eq_nil_iff.2 fun s hs => by simp [(r.empty s hs).1]
  rw [PacketHistory.stored, r.slots, List.filter_append, h1, h2, List.append_nil]

theorem Ring.slot_filled {h : History} {fs es : List Slot} (r : Ring h fs es) {i : Nat}
    (hi : i < fs.length) : h.slot i ∈ fs ∧ fs[i]? = some (h.slot i) := by
  have : h.slot i = fs[i] := by
    simp [History.slot, r.slots, List.getElem?_append_left hi, List.getElem?_eq_getElem hi]
  rw [this]
  exact ⟨List.getElem_mem hi, List.getElem?_eq_getElem hi⟩

theorem Ring.slot_empty {h : History} {fs es : List Slot} (r : Ring h fs es) {i : Nat}
    (hi : fs.length ≤ i) : (h.slot i).length = 0 ∧ (h.slot i).seqNum = 0 := by
  by_cases hl : i - fs.length < es.length
  · have : h.slot i = es[i - fs.length] := by
      simp [History.slot, r.slots, List.getElem?_append_right hi, List.getElem?_eq_getElem hl]
    rw [this]
    exact r.empty _ (List.getElem_mem hl)
  · have : h.slot i = {} := by
      simp only [History.slot, r.slots, List.getElem?_append_right hi]
      rw [List.getElem?_eq_none (by omega)]; rfl
    rw [this]
    exact ⟨rfl, rfl⟩

/-- A hit of `FindSeqNum` holds the number asked for. -/
theorem findSeqNum_seqNum {h : History} {seq : UInt16} {i : Nat} (hf : h.findSeqNum seq = some i) :
    (h.slot i).seqNum = seq := by
  unfold History.findSeqNum at hf
  split at hf
  · rename_i he
    simp only [Option.some.injEq] at hf
    rw [← hf]; exact he
  · obtain ⟨hi, hp, -⟩ := List.findIdx?_eq_some_iff_getElem.1 hf
    simpa [History.slot, List.getElem?_eq_getElem hi] using hp

/-- A stored packet is found, in a filled slot. Number 0 needs the guess to
stay at or before the newest packet: an empty slot holds 0 too. -/
theorem Ring.findSeqNum_hit {h : History} {fs es : List Slot} (r : Ring h fs es) {seq : UInt16}
    (hs : ∃ s ∈ fs, s.seqNum = seq) : ∃ i, h.findSeqNum seq = some i ∧ i < fs.length := by
  have hne : ∀ i, (h.slot i).seqNum = seq → seq ≠ 0 → i < fs.length := by
    intro i hi hz
    by_cases hl : i < fs.length
    · exact hl
    · have h0 := (r.slot_empty (Nat.le_of_not_lt hl)).2
      exact absurd (hi.symm.trans h0) hz
  unfold History.findSeqNum
  split
  · rename_i he
    refine ⟨_, rfl, ?_⟩
    by_cases hz : seq = 0
    · subst hz
      obtain ⟨s, hs, -⟩ := hs
      have hpos : 0 < fs.length := List.length_pos_of_mem hs
      have hlen : h.slots.length = fs.length + es.length := by rw [r.slots, List.length_append]
      have hidx := r.index
      have hnext : es = [] ∨ h.prevIndex = fs.length := by
        by_cases h0 : es = []
        · exact Or.inl h0
        · exact Or.inr (r.next h0)
      have hes : es = [] → es.length = 0 := fun h0 => by rw [h0]; rfl
      simp only [History.guessIndex, UInt16.toNat_zero, Int.ofNat_zero, Int.sub_zero]
      generalize (h.slot (if 0 < h.prevIndex then h.prevIndex - 1
        else h.slots.length - 1)).seqNum.toNat = t
      rcases hnext with h0 | h0
      · have := hes h0
        split
        · omega
        · split <;> omega
      · split
        · omega
        · split <;> omega
    · exact hne _ he hz
  · obtain ⟨s, hs, hq⟩ := hs
    -- the scan stops at the first slot with the number, and the filled ones come first
    rw [r.slots, List.findIdx?_append]
    have hsome : (fs.findIdx? fun x => x.seqNum == seq).isSome := by
      rw [List.findIdx?_isSome]
      exact List.any_eq_true.2 ⟨s, hs, by simp [hq]⟩
    obtain ⟨i, hi⟩ := Option.isSome_iff_exists.1 hsome
    rw [hi]
    exact ⟨i, rfl, (List.findIdx?_eq_some_iff_getElem.1 hi).1⟩

/-- The outcomes of `FindSeqNum` in terms of the stored packets. -/
theorem Ring.findSeqNum_cases {h : History} {fs es : List Slot} (r : Ring h fs es) (seq : UInt16) :
    (∃ i, h.findSeqNum seq = some i ∧ i < fs.length ∧ (h.slot i).seqNum = seq) ∨
    ((∀ s ∈ fs, s.seqNum ≠ seq) ∧
      (h.findSeqNum seq = none ∨
        ∃ i, h.findSeqNum seq = some i ∧ fs.length ≤ i ∧ seq = 0)) := by
  by_cases hs : ∃ s ∈ fs, s.seqNum = seq
  · obtain ⟨i, hf, hi⟩ := r.findSeqNum_hit hs
    exact Or.inl ⟨i, hf, hi, findSeqNum_seqNum hf⟩
  · refine Or.inr ⟨fun s hm hq => hs ⟨s, hm, hq⟩, ?_⟩
    cases hf : h.findSeqNum seq with
    | none => exact Or.inl rfl
    | some i =>
      have hq := findSeqNum_seqNum hf
      by_cases hi : i < fs.length
      · exact absurd ⟨_, (r.slot_filled hi).1, hq⟩ hs
      · refine Or.inr ⟨i, rfl, by omega, ?_⟩
        rw [← hq]; exact (r.slot_empty (by omega)).2

/-! ## Updates of the ring -/

theorem Ring.set {h : History} {fs es : List Slot} (r : Ring h fs es) {i : Nat} {s : Slot}
    (hi : i < fs.length) (hl : 0 < s.length ∧ s.length ≤ h.maxPacketLength)
    (hb : s.packet.length = h.maxPacketLength) :
    Ring { h with slots := h.slots.set i s } (fs.set i s) es where
  slots := by
    show h.slots.set i s = _
    rw [r.slots, List.set_append_left _ _ hi]
  filled x hx := by
    rcases List.mem_or_eq_of_mem_set hx with hx | rfl
    · exact r.filled x hx
    · exact hl
  empty := r.empty
  buffers x hx := by
    rcases List.mem_or_eq_of_mem_set hx with hx | rfl
    · exact r.buffers x hx
    · exact hb
  index := by
    show h.prevIndex < (h.slots.set i s).length
    rw [List.length_set]; exact r.index
  next he := by
    rw [List.length_set]; exact r.next he
  capacity := by
    show (h.slots.set i s).length ≤ _
    rw [List.length_set]; exact r.capacity

/-- A send time written to a filled slot. -/
theorem Ring.setSendTime_filled {h : History} {fs es : List Slot} (r : Ring h fs es) {i : Nat}
    (hi : i < fs.length) (now : Int) :
    Ring (h.setSendTime i now) (fs.set i { h.slot i with sendTime := now }) es := by
  obtain ⟨hm, -⟩ := r.slot_filled hi
  refine r.set hi (r.filled (h.slot i) hm) (r.buffers (h.slot i) ?_)
  rw [r.slots]; exact List.mem_append_left _ hm

/-- A send time written to an empty slot stores nothing. -/
theorem Ring.setSendTime_empty {h : History} {fs es : List Slot} (r : Ring h fs es) {i : Nat}
    (hi : fs.length ≤ i) (now : Int) :
    Ring (h.setSendTime i now) fs
      (es.set (i - fs.length) { h.slot i with sendTime := now }) where
  slots := by
    show h.slots.set i _ = _
    rw [r.slots, List.set_append_right _ _ hi]
  filled := r.filled
  empty x hx := by
    rcases List.mem_or_eq_of_mem_set hx with hx | rfl
    · exact r.empty x hx
    · exact r.slot_empty hi
  buffers x hx := by
    by_cases hl : i < h.slots.length
    · rcases List.mem_or_eq_of_mem_set hx with hx | rfl
      · exact r.buffers x hx
      · refine r.buffers (h.slot i) ?_
        simp [History.slot, List.getElem?_eq_getElem hl]
    · rw [History.setSendTime, List.set_eq_of_length_le (by omega)] at hx
      exact r.buffers x hx
  index := by
    show h.prevIndex < (h.slots.set i _).length
    rw [List.length_set]; exact r.index
  next he := r.next fun h0 => he (by rw [h0]; rfl)
  capacity := by
    show (h.slots.set i _).length ≤ _
    rw [List.length_set]; exact r.capacity

theorem resizeBuffer_toRec {s : Slot} {n : Nat} (hl : s.length ≤ s.packet.length)
    (hn : s.packet.length ≤ n) : (History.resizeBuffer n s).toRec = s.toRec := by
  simp only [Slot.toRec, History.resizeBuffer]
  rw [List.take_of_length_le hn, List.take_append_of_le_length hl]

theorem resizeBuffer_length {s : Slot} {n : Nat} (hn : s.packet.length ≤ n) :
    (History.resizeBuffer n s).packet.length = n := by
  simp only [History.resizeBuffer, List.length_append, List.length_take, List.length_replicate]
  omega

/-- Larger buffers, same packets. -/
theorem Ring.verify {h : History} {fs es : List Slot} (r : Ring h fs es) (hon : h.store = true)
    (n : Nat) : ∃ fs' es', Ring (h.verifyAndAllocatePacketLength n 0) fs' es' ∧
      fs'.map Slot.toRec = fs.map Slot.toRec ∧
      (h.verifyAndAllocatePacketLength n 0).store = true ∧
      (h.verifyAndAllocatePacketLength n 0).maxPacketLength = max n h.maxPacketLength := by
  unfold History.verifyAndAllocatePacketLength
  simp only [hon, Bool.not_true, Bool.false_eq_true, if_false, true_and]
  split
  · rename_i hn
    exact ⟨fs, es, r, rfl, hon, by omega⟩
  · rename_i hn
    have hle : h.maxPacketLength ≤ max n h.maxPacketLength := Nat.le_max_right ..
    have hbuf : ∀ s ∈ fs ++ es, s.packet.length ≤ max n h.maxPacketLength := by
      intro s hs
      rw [← r.slots] at hs
      rw [r.buffers s hs]; exact hle
    generalize max n h.maxPacketLength = N at hle hbuf
    refine ⟨fs.map (History.resizeBuffer N), es.map (History.resizeBuffer N), ?_, ?_, rfl, rfl⟩
    · constructor
      · simp [r.slots]
      · intro s hs
        obtain ⟨x, hx, rfl⟩ := List.mem_map.1 hs
        have := r.filled x hx
        exact ⟨this.1, by simp only [History.resizeBuffer]; omega⟩
      · intro s hs
        obtain ⟨x, hx, rfl⟩ := List.mem_map.1 hs
        exact r.empty x hx
      · intro s hs
        simp only [List.take_zero, List.drop_zero, List.nil_append, List.mem_map, r.slots] at hs
        obtain ⟨x, hx, rfl⟩ := hs
        exact resizeBuffer_length (hbuf x hx)
      · simpa using r.index
      · intro he
        simpa using r.next fun h0 => he (by rw [h0]; rfl)
      · simpa using r.capacity
    · rw [List.map_map]
      refine List.map_congr_left fun s hs => ?_
      have hm : s ∈ h.slots := by rw [r.slots]; exact List.mem_append_left _ hs
      refine resizeBuffer_toRec ?_ (hbuf s (List.mem_append_left _ hs))
      rw [r.buffers s hm]; exact (r.filled s hs).2

/-- A slot added by an expansion. -/
def blank (n : Nat) : Slot := History.resizeBuffer n {}

theorem allocate_verify {h : History} (hon : h.store = true) {n E : Nat}
    (hn : n ≤ h.maxPacketLength) (hpos : 0 < h.slots.length) (hE : h.slots.length ≤ E) :
    (h.allocate E).verifyAndAllocatePacketLength n h.slots.length =
      { h with slots := h.slots ++ List.replicate (E - h.slots.length) (blank h.maxPacketLength) } := by
  simp only [History.allocate, History.verifyAndAllocatePacketLength, Bool.not_true,
    Bool.false_eq_true, if_false, Nat.max_eq_right hn]
  rw [if_neg (by omega), List.take_of_length_le hE, List.take_left, List.drop_left,
    List.map_replicate, ← hon]
  rfl

/-- A full ring grows. -/
theorem Ring.grow {h : History} {fs : List Slot} (r : Ring h fs []) {E : Nat}
    (hE : h.slots.length < E) (hcap : E ≤ kMaxHistoryCapacity) :
    Ring { h with
        prevIndex := h.slots.length
        slots := h.slots ++ List.replicate (E - h.slots.length) (blank h.maxPacketLength) }
      fs (List.replicate (E - h.slots.length) (blank h.maxPacketLength)) where
  slots := by simp only [r.slots, List.append_nil]
  filled := r.filled
  empty s hs := by
    rw [List.eq_of_mem_replicate hs]; exact ⟨rfl, rfl⟩
  buffers s hs := by
    rcases List.mem_append.1 hs with hs | hs
    · exact r.buffers s hs
    · rw [List.eq_of_mem_replicate hs]
      exact resizeBuffer_length (Nat.zero_le _)
  index := by simp only [List.length_append, List.length_replicate]; omega
  next _ := by simp only [r.slots, List.append_nil]
  capacity := by simp only [List.length_append, List.length_replicate]; omega

/-- After the expansion step the slot at `prev_index_` is empty, or the ring
is full there with a packet already sent or the capacity reached. -/
theorem Ring.expand {h : History} {fs es : List Slot} (r : Ring h fs es) (hon : h.store = true)
    {n : Nat} (hn : n ≤ h.maxPacketLength) : ∃ es', Ring (h.expand n) fs es' ∧
      (h.expand n).store = true ∧ (h.expand n).maxPacketLength = h.maxPacketLength ∧
      (es' ≠ [] ∨ es' = [] ∧ h.expand n = h ∧
        ((h.slot h.prevIndex).sendTime ≠ 0 ∨ fs.length = kMaxHistoryCapacity)) := by
  have hlen : h.slots.length = fs.length + es.length := by rw [r.slots, List.length_append]
  have hcap : h.slots.length ≤ 9600 := r.capacity
  have hidx := r.index
  unfold History.expand
  by_cases he : es = []
  · subst he
    simp only [List.length_nil, Nat.add_zero] at hlen
    rw [Nat.mod_eq_of_lt (show h.slots.length < 65536 by omega)]
    dsimp only
    split
    · split
      · rename_i hlt
        have hgrow : h.slots.length <
            min (max (h.slots.length * 3 / 2) (h.slots.length + 1)) kMaxHistoryCapacity := by
          simp only [kMaxHistoryCapacity] at hlt ⊢; omega
        have hE : min (max (h.slots.length * 3 / 2) (h.slots.length + 1)) kMaxHistoryCapacity ≤
            kMaxHistoryCapacity := Nat.min_le_right ..
        generalize min (max (h.slots.length * 3 / 2) (h.slots.length + 1))
          kMaxHistoryCapacity = E at hgrow hE
        rw [allocate_verify hon hn (by omega) (Nat.le_of_lt hgrow)]
        refine ⟨_, r.grow hgrow hE, hon, rfl, Or.inl fun h0 => ?_⟩
        have := congrArg List.length h0
        simp only [List.length_replicate, List.length_nil] at this
        omega
      · rename_i hlt
        refine ⟨[], r, hon, rfl, Or.inr ⟨rfl, rfl, Or.inr ?_⟩⟩
        simp only [kMaxHistoryCapacity] at hlt ⊢
        omega
    · rename_i hsent
      have hi : h.prevIndex < fs.length := by omega
      refine ⟨[], r, hon, rfl, Or.inr ⟨rfl, rfl, Or.inl fun h0 => hsent ⟨?_, h0⟩⟩⟩
      exact (r.filled _ (r.slot_filled hi).1).1
  · have hnx := r.next he
    have h0 : (h.slot h.prevIndex).length = 0 := (r.slot_empty (by omega)).1
    rw [if_neg (by omega)]
    exact ⟨es, r, hon, rfl, Or.inl he⟩

/-- The slot `PutRTPPacket` writes. -/
def written (h : History) (pkt : Bytes) (ct now : Int) (ty : StorageType) : Slot :=
  { packet := History.copyInto (h.slot h.prevIndex).packet pkt
    seqNum := UInt16.ofNat (rd16 pkt 2)
    length := pkt.length
    time := if 0 < ct then ct else now
    sendTime := 0
    type := ty }

theorem written_toRec (h : History) (pkt : Bytes) (ct now : Int) (ty : StorageType) :
    (written h pkt ct now ty).toRec = mkRec pkt ct now ty := by
  simp [written, Slot.toRec, History.copyInto, mkRec]

theorem Ring.slot_buffer {h : History} {fs es : List Slot} (r : Ring h fs es) {i : Nat}
    (hi : i < h.slots.length) : (h.slot i).packet.length = h.maxPacketLength := by
  refine r.buffers (h.slot i) ?_
  simp [History.slot, List.getElem?_eq_getElem hi]

/-- The write, in both shapes of the ring. -/
theorem Ring.writeSlot {h : History} {fs es : List Slot} (r : Ring h fs es) (pkt : Bytes)
    (hp : 0 < pkt.length) (hl : pkt.length ≤ h.maxPacketLength) (ct now : Int) (ty : StorageType) :
    ∃ fs' es', Ring (h.writeSlot pkt ct now ty) fs' es' ∧
      (es ≠ [] → fs'.map Slot.toRec = fs.map Slot.toRec ++ [mkRec pkt ct now ty]) ∧
      (es = [] → fs'.map Slot.toRec =
        (fs.map Slot.toRec).set h.prevIndex (mkRec pkt ct now ty)) := by
  have hlen : h.slots.length = fs.length + es.length := by rw [r.slots, List.length_append]
  have hidx := r.index
  have hb : (written h pkt ct now ty).packet.length = h.maxPacketLength := by
    have := r.slot_buffer hidx
    simp only [written, History.copyInto, List.length_append, List.length_drop]
    omega
  have hslots : (h.writeSlot pkt ct now ty).slots =
      h.slots.set h.prevIndex (written h pkt ct now ty) := rfl
  have hnextI : (h.writeSlot pkt ct now ty).prevIndex < h.slots.length := by
    simp only [History.writeSlot]; split <;> omega
  have hbufs : ∀ s ∈ (h.writeSlot pkt ct now ty).slots, s.packet.length = h.maxPacketLength := by
    intro s hs
    rw [hslots] at hs
    rcases List.mem_or_eq_of_mem_set hs with hs | rfl
    · exact r.buffers s hs
    · exact hb
  cases es with
  | nil =>
    simp only [List.length_nil, Nat.add_zero] at hlen
    refine ⟨fs.set h.prevIndex (written h pkt ct now ty), [], ?_, fun h0 => absurd rfl h0, ?_⟩
    · constructor
      · rw [hslots, r.slots, List.append_nil, List.append_nil]
      · intro s hs
        rcases List.mem_or_eq_of_mem_set hs with hs | rfl
        · exact r.filled s hs
        · exact ⟨hp, hl⟩
      · intro s hs; exact absurd hs List.not_mem_nil
      · exact hbufs
      · rw [hslots, List.length_set]; exact hnextI
      · intro h0; exact absurd rfl h0
      · rw [hslots, List.length_set]; exact r.capacity
    · intro _
      rw [List.map_set, written_toRec]
  | cons e es =>
    have hnx := r.next (by simp)
    simp only [List.length_cons] at hlen
    refine ⟨fs ++ [written h pkt ct now ty], es, ?_, ?_, fun h0 => by simp at h0⟩
    · constructor
      · rw [hslots, r.slots, hnx, List.set_append_right _ _ (Nat.le_refl _), Nat.sub_self,
          List.set_cons_zero, List.append_assoc]
        rfl
      · intro s hs
        rcases List.mem_append.1 hs with hs | hs
        · exact r.filled s hs
        · rw [List.mem_singleton.1 hs]; exact ⟨hp, hl⟩
      · intro s hs; exact r.empty s (List.mem_cons_of_mem _ hs)
      · exact hbufs
      · rw [hslots, List.length_set]; exact hnextI
      · intro h0
        have : 0 < es.length := List.length_pos_iff.2 h0
        simp only [History.writeSlot, List.length_append, List.length_singleton, hnx]
        rw [if_neg (by omega)]
      · rw [hslots, List.length_set]; exact r.capacity
    · intro _
      rw [List.map_append, List.map_singleton, written_toRec]

/-! ## The map keeps the latest put -/

/-- A stored record is the latest put under its number, if that one was
alone. -/
def LatestOk (m : Map) : Prop :=
  ∀ r ∈ m.recs, ∃ l, m.latest r.seq = some l ∧
    (l.alone = true → r.bytes = l.bytes ∧ r.time = l.time)

theorem latestOk_insert {m : Map} (h : LatestOk m) (n : Nat) (r : Rec) (recs : List Rec)
    (hsub : ∀ x ∈ recs, x = r ∨ x ∈ m.recs) : LatestOk (m.insert n r recs) := by
  intro x hx
  by_cases hq : x.seq = r.seq
  · refine ⟨_, if_pos hq, fun ha => ?_⟩
    have hxr : x = r := by
      simpa [hq] using List.all_eq_true.1 ha x hx
    rw [hxr]; exact ⟨rfl, rfl⟩
  · rcases hsub x hx with rfl | hm
    · exact absurd rfl hq
    · obtain ⟨l, hl, ha⟩ := h x hm
      exact ⟨l, (if_neg hq).trans hl, ha⟩

theorem latestOk_touch {m : Map} (h : LatestOk m) {i : Nat} {r : Rec} (hr : m.recs[i]? = some r)
    (now : Int) : LatestOk (m.touch i r now) := by
  intro x hx
  rcases List.mem_or_eq_of_mem_set hx with hx | rfl
  · exact h x hx
  · exact h r (List.mem_of_getElem? hr)

theorem latestOk_step {m m' : Map} {l : Op × Out} (hs : Map.Step m l m') (h : LatestOk m) :
    LatestOk m' := by
  cases hs with
  | enable | disable => intro r hr; exact absurd hr List.not_mem_nil
  | putIgnored | putTooLong | has | setSentMiss | setSentZero | setSentAgain | getMiss
    | getRefused => exact h
  | putAdd pkt ml ct now ty =>
    refine latestOk_insert h _ _ _ fun x hx => ?_
    rcases List.mem_append.1 hx with hx | hx
    · exact Or.inr hx
    · exact Or.inl (List.mem_singleton.1 hx)
  | putReplace pkt ml ct now ty i r =>
    refine latestOk_insert h _ _ _ fun x hx => ?_
    exact (List.mem_or_eq_of_mem_set hx).symm
  | setSent seq now i r hr => exact latestOk_touch h hr now
  | get seq me rt now i r hr => exact latestOk_touch h hr now

/-! ## Simulation -/

structure Rel (h : History) (m : Map) : Prop where
  inv : Inv h
  on : m.on = h.store
  maxLen : m.maxLen = h.maxPacketLength
  recs : m.recs = stored h

theorem rel_init : Rel {} {} := ⟨Or.inl rfl, rfl, rfl, rfl⟩

theorem Rel.ring {h : History} {m : Map} (hr : Rel h m) (hon : h.store = true) :
    ∃ fs es, Ring h fs es ∧ m.recs = fs.map Slot.toRec := by
  rcases hr.inv with rfl | ⟨-, fs, es, r⟩
  · simp at hon
  · exact ⟨fs, es, r, hr.recs.trans r.stored⟩

theorem Rel.off {h : History} {m : Map} (hr : Rel h m) (hoff : h.store = false) : m.recs = [] := by
  rcases hr.inv with rfl | ⟨hon, -⟩
  · exact hr.recs
  · simp [hoff] at hon

theorem Rel.touch {h : History} {m : Map} {fs es : List Slot} (hr : Rel h m) (hon : h.store = true)
    (r : Ring h fs es) {i : Nat} (hi : i < fs.length) (now : Int) :
    m.recs[i]? = some (h.slot i).toRec ∧
      Rel (h.setSendTime i now) (m.touch i (h.slot i).toRec now) := by
  have hrecs := hr.recs.trans r.stored
  refine ⟨by rw [hrecs, List.getElem?_map, (r.slot_filled hi).2]; rfl, ?_⟩
  have r' := r.setSendTime_filled hi now
  refine ⟨Or.inr ⟨hon, _, _, r'⟩, hr.on, hr.maxLen, ?_⟩
  rw [r'.stored, List.map_set]
  show m.recs.set i _ = _
  rw [hrecs]
  rfl

theorem sim_put {h : History} {m : Map} (hr : Rel h m) {pkt : Bytes} (hp : 3 < pkt.length)
    (ml : Nat) (ct now : Int) (ty : StorageType) :
    ∃ m', Map.Step m (.putRTPPacket pkt ml ct now ty,
        .code (h.putRTPPacket pkt ml ct now ty).1) m' ∧
      Rel (h.putRTPPacket pkt ml ct now ty).2 m' := by
  unfold History.putRTPPacket
  split
  · rename_i hty
    exact ⟨m, .putIgnored m pkt ml ct now ty (Or.inl hty), hr⟩
  cases hon : h.store with
  | false =>
    rw [if_pos (by rfl)]
    exact ⟨m, .putIgnored m pkt ml ct now ty (Or.inr (by rw [hr.on, hon])), hr⟩
  | true =>
    rw [if_neg (by simp)]
    obtain ⟨fs₀, es₀, r₀, hrecs₀⟩ := hr.ring hon
    obtain ⟨fs, es, r, hfs, hon', hmax⟩ := r₀.verify hon ml
    generalize h.verifyAndAllocatePacketLength ml 0 = h₁ at r hon' hmax
    have hrecs : m.recs = fs.map Slot.toRec := hrecs₀.trans hfs.symm
    have hmaxm : max ml m.maxLen = h₁.maxPacketLength := by rw [hr.maxLen, hmax]
    dsimp only
    split
    · rename_i hl
      refine ⟨_, .putTooLong m pkt ml ct now ty (by omega), Or.inr ⟨hon', fs, es, r⟩, ?_, hmaxm, ?_⟩
      · exact (hr.on.trans hon).trans hon'.symm
      · exact hrecs.trans r.stored.symm
    · rename_i hl
      obtain ⟨es', re, hon₂, hmax₂, hcase⟩ := r.expand hon' (n := ml) (by omega)
      obtain ⟨fs₃, es₃, r₃, hadd, hset⟩ :=
        re.writeSlot pkt (by omega) (by omega) ct now ty
      have hcap := re.capacity
      rw [re.slots, List.length_append] at hcap
      have hlen : m.recs.length = fs.length := by rw [hrecs, List.length_map]
      rcases hcase with hne | ⟨he, hsame, hsent⟩
      · have := List.length_pos_iff.2 hne
        refine ⟨_, .putAdd m pkt ml ct now ty (by omega) (by omega),
          Or.inr ⟨hon₂, fs₃, es₃, r₃⟩, ?_, ?_, ?_⟩
        · exact (hr.on.trans hon).trans hon₂.symm
        · exact hmaxm.trans hmax₂.symm
        · rw [r₃.stored, hadd hne, ← hrecs]; rfl
      · have hidx : h₁.prevIndex < fs.length := by
          have := r.index
          rw [hsame] at re
          have hs := re.slots
          rw [he, List.append_nil] at hs
          rwa [hs] at this
        have hget : m.recs[h₁.prevIndex]? = some (h₁.slot h₁.prevIndex).toRec := by
          rw [hrecs, List.getElem?_map, (r.slot_filled hidx).2]; rfl
        refine ⟨_, .putReplace m pkt ml ct now ty _ _ (by omega) hget
          (hsent.imp id fun hk => hlen.trans hk), Or.inr ⟨hon₂, fs₃, es₃, r₃⟩, ?_, ?_, ?_⟩
        · exact (hr.on.trans hon).trans hon₂.symm
        · exact hmaxm.trans hmax₂.symm
        · rw [r₃.stored, hset he, ← hrecs, hsame]; rfl

theorem not_stored {m : Map} {fs : List Slot} (hrecs : m.recs = fs.map Slot.toRec) {seq : UInt16}
    (h : ∀ s ∈ fs, s.seqNum ≠ seq) : ¬ m.Stored seq := by
  rintro ⟨r, hr, hq⟩
  rw [hrecs] at hr
  obtain ⟨s, hs, rfl⟩ := List.mem_map.1 hr
  exact h s hs hq

theorem not_stored_off {h : History} {m : Map} (hr : Rel h m) (hoff : h.store = false)
    (seq : UInt16) : ¬ m.Stored seq := by
  rintro ⟨r, hm, -⟩
  rw [hr.off hoff] at hm
  exact absurd hm List.not_mem_nil

theorem has_iff {h : History} {m : Map} (hr : Rel h m) (seq : UInt16) :
    h.hasRTPPacket seq = true ↔ m.Stored seq := by
  unfold History.hasRTPPacket
  cases hon : h.store with
  | false => simpa using not_stored_off hr hon seq
  | true =>
    obtain ⟨fs, es, r, hrecs⟩ := hr.ring hon
    simp only [Bool.not_true, Bool.false_eq_true, if_false]
    rcases r.findSeqNum_cases seq with ⟨i, hf, hi, hq⟩ | ⟨hno, hf | ⟨i, hf, hi, -⟩⟩
    · have hm := (r.slot_filled hi).1
      have hfill := r.filled _ hm
      rw [hf]
      simp only [Bool.not_eq_true', Bool.or_eq_false_iff, beq_eq_false_iff_ne, ne_eq,
        decide_eq_false_iff_not]
      refine ⟨fun _ => ⟨(h.slot i).toRec, ?_, hq⟩, fun _ => by omega⟩
      rw [hrecs]; exact List.mem_map_of_mem hm
    · rw [hf]; simpa using not_stored hrecs hno
    · rw [hf]
      simpa [(r.slot_empty hi).1] using not_stored hrecs hno

theorem sim_setSent {h : History} {m : Map} (hr : Rel h m) (seq : UInt16) (now : Int) :
    ∃ m', Map.Step m (.setSent seq now, .bool (h.setSent seq now).1) m' ∧
      Rel (h.setSent seq now).2 m' := by
  unfold History.setSent
  cases hon : h.store with
  | false =>
    simp only [Bool.not_false, if_true]
    by_cases hz : seq = 0
    · subst hz; exact ⟨m, .setSentZero m now false (not_stored_off hr hon 0), hr⟩
    · exact ⟨m, .setSentMiss m seq now hz (not_stored_off hr hon seq), hr⟩
  | true =>
    obtain ⟨fs, es, r, hrecs⟩ := hr.ring hon
    simp only [Bool.not_true, Bool.false_eq_true, if_false]
    rcases r.findSeqNum_cases seq with ⟨i, hf, hi, hq⟩ | ⟨hno, hf | ⟨i, hf, hi, rfl⟩⟩
    · obtain ⟨hget, hrel⟩ := hr.touch hon r hi now
      rw [hf]
      dsimp only
      split
      · rename_i hs
        exact ⟨m, .setSentAgain m seq now _ (List.mem_of_getElem? hget) hq hs, hr⟩
      · rename_i hs
        exact ⟨_, .setSent m seq now i _ hget hq (Decidable.not_not.1 hs), hrel⟩
    · rw [hf]
      by_cases hz : seq = 0
      · subst hz; exact ⟨m, .setSentZero m now false (not_stored hrecs hno), hr⟩
      · exact ⟨m, .setSentMiss m seq now hz (not_stored hrecs hno), hr⟩
    · rw [hf]
      dsimp only
      split
      · exact ⟨m, .setSentZero m now false (not_stored hrecs hno), hr⟩
      · have r' := r.setSendTime_empty hi now
        refine ⟨m, .setSentZero m now true (not_stored hrecs hno), Or.inr ⟨hon, _, _, r'⟩, hr.on,
          hr.maxLen, hrecs.trans r'.stored.symm⟩

theorem sim_get {h : History} {m : Map} (hr : Rel h m) (seq : UInt16) (me : Int) (rt : Bool)
    (now : Int) :
    ∃ m', Map.Step m (.getPacketAndSetSendTime seq me rt now,
        .packet (h.getPacketAndSetSendTime seq me rt now).1) m' ∧
      Rel (h.getPacketAndSetSendTime seq me rt now).2 m' := by
  unfold History.getPacketAndSetSendTime
  cases hon : h.store with
  | false => exact ⟨m, .getMiss m seq me rt now (not_stored_off hr hon seq), hr⟩
  | true =>
    obtain ⟨fs, es, r, hrecs⟩ := hr.ring hon
    simp only [Bool.not_true, Bool.false_eq_true, if_false]
    rcases r.findSeqNum_cases seq with ⟨i, hf, hi, hq⟩ | ⟨hno, hf | ⟨i, hf, hi, -⟩⟩
    · obtain ⟨hget, hrel⟩ := hr.touch hon r hi now
      have hm := List.mem_of_getElem? hget
      have hfill := (r.filled _ (r.slot_filled hi).1).1
      rw [hf]
      dsimp only
      rw [if_neg (by omega)]
      split
      · rename_i hd
        exact ⟨m, .getRefused m seq me rt now _ hm hq (Or.inl hd), hr⟩
      split
      · rename_i hd
        exact ⟨m, .getRefused m seq me rt now _ hm hq (Or.inr hd), hr⟩
      · rename_i hd₁ hd₂
        exact ⟨_, .get m seq me rt now i _ hget hq (not_or.2 ⟨hd₁, hd₂⟩), hrel⟩
    · rw [hf]
      exact ⟨m, .getMiss m seq me rt now (not_stored hrecs hno), hr⟩
    · rw [hf]
      dsimp only
      rw [if_pos (r.slot_empty hi).1]
      exact ⟨m, .getMiss m seq me rt now (not_stored hrecs hno), hr⟩

theorem allocate_ring {n : Nat} (hn : 0 < n) (hc : n ≤ kMaxHistoryCapacity) :
    Ring (History.allocate {} n) [] (List.replicate n {}) where
  slots := by simp [History.allocate]
  filled s hs := absurd hs List.not_mem_nil
  empty s hs := by rw [List.eq_of_mem_replicate hs]; exact ⟨rfl, rfl⟩
  buffers s hs := by
    simp only [History.allocate, List.take_nil, List.nil_append, List.length_nil, Nat.sub_zero] at hs
    rw [List.eq_of_mem_replicate hs]; rfl
  index := by simpa [History.allocate] using hn
  next _ := rfl
  capacity := by simpa [History.allocate] using hc

theorem inv_free {h : History} (hi : Inv h) : h.free = {} := by
  unfold History.free
  rcases hi with rfl | ⟨hon, -⟩
  · rfl
  · rw [if_pos hon]

theorem sim_setStatus {h : History} {m : Map} (hr : Rel h m) {e : Bool} {n : Nat}
    (hv : e = true → 0 < n ∧ n ≤ kMaxHistoryCapacity) :
    ∃ m', Map.Step m (.setStorePacketsStatus e n, .unit) m' ∧
      Rel (h.setStorePacketsStatus e n) m' := by
  cases e with
  | false =>
    refine ⟨_, .disable m n, ?_⟩
    have : h.setStorePacketsStatus false n = {} := inv_free hr.inv
    rw [this]; exact rel_init
  | true =>
    refine ⟨_, .enable m n, ?_⟩
    have : h.setStorePacketsStatus true n = History.allocate {} n := by
      unfold History.setStorePacketsStatus
      rw [if_pos rfl]
      rcases hr.inv with rfl | ⟨hon, -⟩
      · rfl
      · rw [if_pos hon, inv_free hr.inv]
    obtain ⟨hn, hc⟩ := hv rfl
    have r := allocate_ring hn hc
    rw [this]
    exact ⟨Or.inr ⟨rfl, _, _, r⟩, rfl, rfl, r.stored.symm⟩

/-- Every call is matched by a step of the map with the same result. -/
theorem sim_step {h h' : History} {m : Map} {l : Op × Out} (hr : Rel h m)
    (hs : code.step h l h') : ∃ m', spec.step m l m' ∧ Rel h' m' := by
  obtain ⟨op, out⟩ := l
  obtain ⟨hv, hstep⟩ := hs
  cases op with
  | setStorePacketsStatus e n =>
    obtain ⟨rfl, rfl⟩ := Prod.mk.inj hstep
    exact sim_setStatus hr hv
  | putRTPPacket pkt ml ct now ty =>
    obtain ⟨rfl, rfl⟩ := Prod.mk.inj hstep
    exact sim_put hr hv ml ct now ty
  | setSent seq now =>
    obtain ⟨rfl, rfl⟩ := Prod.mk.inj hstep
    exact sim_setSent hr seq now
  | getPacketAndSetSendTime seq me rt now =>
    obtain ⟨rfl, rfl⟩ := Prod.mk.inj hstep
    exact sim_get hr seq me rt now
  | hasRTPPacket seq =>
    obtain ⟨rfl, rfl⟩ := Prod.mk.inj hstep
    have : h.hasRTPPacket seq = m.recs.any (·.seq == seq) := by
      rw [Bool.eq_iff_iff, has_iff hr seq]
      simp [Map.Stored]
    rw [this]
    exact ⟨m, .has m seq, hr⟩

theorem Rel.length_le {h : History} {m : Map} (hr : Rel h m) :
    m.recs.length ≤ kMaxHistoryCapacity := by
  rcases hr.inv with rfl | ⟨-, fs, es, r⟩
  · rw [hr.recs]; exact Nat.zero_le _
  · have hc := r.capacity
    rw [r.slots, List.length_append] at hc
    rw [hr.recs, r.stored, List.length_map]
    omega

/-! ## What the map promises -/

theorem setSent_result {m m' : Map} {seq : UInt16} {now : Int} {b : Bool}
    (hs : Map.Step m (.setSent seq now, .bool b) m') :
    (m.Stored seq → ∃ r ∈ m.recs, r.seq = seq ∧ (b = true ↔ r.sendTime = 0)) ∧
      (seq ≠ 0 → ¬ m.Stored seq → b = false) := by
  cases hs with
  | setSentMiss _ _ _ h => exact ⟨fun hst => absurd hst h, fun _ _ => rfl⟩
  | setSentZero _ _ h => exact ⟨fun hst => absurd hst h, fun hz => absurd rfl hz⟩
  | setSentAgain _ _ r hr hq hsent =>
    exact ⟨fun _ => ⟨r, hr, hq, by simp [hsent]⟩, fun _ _ => rfl⟩
  | setSent _ _ i r hr hq hsent =>
    have hm := List.mem_of_getElem? hr
    exact ⟨fun _ => ⟨r, hm, hq, by simp [hsent]⟩, fun _ hst => absurd ⟨r, hm, hq⟩ hst⟩

theorem get_result {m m' : Map} {seq : UInt16} {me : Int} {rt : Bool} {now : Int}
    {o : Option (Bytes × Int)}
    (hs : Map.Step m (.getPacketAndSetSendTime seq me rt now, .packet o) m') {b : Bytes} {t : Int}
    (ho : o = some (b, t)) : ∃ r ∈ m.recs, r.seq = seq ∧ r.bytes = b ∧ r.time = t := by
  cases hs with
  | getMiss | getRefused => simp at ho
  | get _ _ _ _ i r hr hq =>
    simp only [Option.some.injEq, Prod.mk.injEq] at ho
    exact ⟨r, List.mem_of_getElem? hr, hq, ho.1, ho.2⟩

theorem put_keeps_unsent {m m' : Map} {pkt : Bytes} {ml : Nat} {ct now : Int} {ty : StorageType}
    {c : Int} (hs : Map.Step m (.putRTPPacket pkt ml ct now ty, .code c) m')
    (hc : m.recs.length < kMaxHistoryCapacity) {r : Rec} (hr : r ∈ m.recs)
    (hu : r.sendTime = 0) : r ∈ m'.recs := by
  cases hs with
  | putIgnored | putTooLong => exact hr
  | putAdd => exact List.mem_append_left _ hr
  | putReplace _ _ _ _ _ i v _ hv hsent =>
    obtain ⟨j, hj, rfl⟩ := List.getElem_of_mem hr
    have hi : i ≠ j := by
      rintro rfl
      rw [List.getElem?_eq_getElem hj, Option.some.injEq] at hv
      rw [← hv] at hsent
      exact hsent.elim (fun h => h hu) (by omega)
    have : (m.recs.set i (mkRec pkt ct now ty))[j]? = some m.recs[j] := by
      rw [List.getElem?_set_ne hi, List.getElem?_eq_getElem hj]
    exact List.mem_of_getElem? this

/-- Every run of the class is a run of the bounded map with the same
results, its records being the packets in the ring. In the state reached:
`HasRTPPacket` succeeds exactly on stored numbers; `SetSent` on a stored
number succeeds exactly when the packet found has no send time, and fails on
other nonzero numbers; a successful lookup returns a packet stored under the
number, which is the latest put if that one was alone; and below capacity a
put loses no unsent packet. -/
theorem history_refines_map {ls : List (Op × Out)} {h : History} (run : code.Run {} ls h) :
    ∃ m : Map, spec.Run {} ls m ∧ m.recs = stored h ∧ m.recs.length ≤ kMaxHistoryCapacity ∧
      (∀ seq, h.hasRTPPacket seq = true ↔ m.Stored seq) ∧
      (∀ seq now, m.Stored seq →
        ∃ r ∈ m.recs, r.seq = seq ∧ ((h.setSent seq now).1 = true ↔ r.sendTime = 0)) ∧
      (∀ seq now, seq ≠ 0 → ¬ m.Stored seq → (h.setSent seq now).1 = false) ∧
      (∀ seq me rt now b t, (h.getPacketAndSetSendTime seq me rt now).1 = some (b, t) →
        (∃ r ∈ m.recs, r.seq = seq ∧ r.bytes = b ∧ r.time = t) ∧
          ∃ l, m.latest seq = some l ∧ (l.alone = true → l.bytes = b ∧ l.time = t)) ∧
      (∀ pkt ml ct now ty, 3 < pkt.length → m.recs.length < kMaxHistoryCapacity →
        ∀ r ∈ m.recs, r.sendTime = 0 → r ∈ stored (h.putRTPPacket pkt ml ct now ty).2) := by
  obtain ⟨m, hm, hrel⟩ :=
    run.simulate (N := spec) (fun _ _ _ _ hr hs => sim_step hr hs) rel_init
  have hnil : LatestOk {} := fun r hr => absurd hr List.not_mem_nil
  have hlatest : LatestOk m := hm.keeps (P := LatestOk) (fun _ _ _ h hs => latestOk_step hs h) hnil
  refine ⟨m, hm, hrel.recs, hrel.length_le, has_iff hrel, ?_, ?_, ?_, ?_⟩
  · intro seq now
    obtain ⟨m', hs, -⟩ := sim_setSent hrel seq now
    exact (setSent_result hs).1
  · intro seq now
    obtain ⟨m', hs, -⟩ := sim_setSent hrel seq now
    exact (setSent_result hs).2
  · intro seq me rt now b t hget
    obtain ⟨m', hs, -⟩ := sim_get hrel seq me rt now
    obtain ⟨r, hr, hq, hb, ht⟩ := get_result hs hget
    obtain ⟨l, hl, ha⟩ := hlatest r hr
    refine ⟨⟨r, hr, hq, hb, ht⟩, l, hq ▸ hl, fun hal => ?_⟩
    obtain ⟨h1, h2⟩ := ha hal
    exact ⟨h1.symm.trans hb, h2.symm.trans ht⟩
  · intro pkt ml ct now ty hp hc r hr hu
    obtain ⟨m', hs, hrel'⟩ := sim_put hrel hp ml ct now ty
    rw [← hrel'.recs]
    exact put_keeps_unsent hs hc hr hu

/-- Two packets put; the first is read, and overwritten by the third. -/
def overwriting : List (Op × Out) :=
  [(.setStorePacketsStatus true 2, .unit),
    (.putRTPPacket [128, 96, 0, 5] 4 3 7 .allowRetransmission, .code 0),
    (.putRTPPacket [128, 96, 0, 6] 4 3 7 .allowRetransmission, .code 0),
    (.getPacketAndSetSendTime 5 0 false 9, .packet (some ([128, 96, 0, 5], 3))),
    (.putRTPPacket [128, 96, 0, 7] 4 5 9 .allowRetransmission, .code 0)]

theorem history_refines_map_put : ∃ m : Map, spec.Run {} overwriting m ∧
    m.Stored 6 ∧ m.Stored 7 ∧ ¬ m.Stored 5 := by
  have run : code.Run {} overwriting _ :=
    .cons ⟨by decide, rfl⟩ (.cons ⟨by decide, rfl⟩ (.cons ⟨by decide, rfl⟩
      (.cons ⟨by decide, rfl⟩ (.cons ⟨by decide, rfl⟩ (.nil _)))))
  obtain ⟨m, hm, -, -, hhas, -⟩ := history_refines_map run
  exact ⟨m, hm, (hhas 6).1 (by decide), (hhas 7).1 (by decide),
    fun h => absurd ((hhas 5).2 h) (by decide)⟩

/-- The state after a list of calls. -/
def History.after (ops : List Op) : History := ops.foldl (fun h op => (h.step op).2) {}

/-- Three runs where the plain map reading fails: a put without a capture
time is returned with the clock's time, `SetSent` fails on a stored packet
that has its send time, and with number 5 stored twice the older packet is
returned. -/
theorem plain_map_fails :
    ((History.after [.setStorePacketsStatus true 2,
        .putRTPPacket [128, 96, 0, 5] 4 0 7 .allowRetransmission]).getPacketAndSetSendTime
        5 0 false 9).1 = some ([128, 96, 0, 5], 7) ∧
    (∃ h, h = History.after [.setStorePacketsStatus true 2,
        .putRTPPacket [128, 96, 0, 5] 4 3 7 .allowRetransmission, .setSent 5 8] ∧
      h.hasRTPPacket 5 = true ∧ (h.setSent 5 9).1 = false) ∧
    ((History.after [.setStorePacketsStatus true 4,
        .putRTPPacket [128, 96, 0, 5, 1] 5 3 7 .allowRetransmission,
        .putRTPPacket [128, 96, 0, 6] 5 3 7 .allowRetransmission,
        .putRTPPacket [128, 96, 0, 5, 2] 5 4 7 .allowRetransmission,
        .putRTPPacket [128, 96, 0, 7] 5 4 7 .allowRetransmission]).getPacketAndSetSendTime
        5 0 false 9).1 = some ([128, 96, 0, 5, 1], 3) := by
  refine ⟨by decide, ⟨_, rfl, by decide, by decide⟩, by decide⟩

end RtcCore.L2.PacketHistory
