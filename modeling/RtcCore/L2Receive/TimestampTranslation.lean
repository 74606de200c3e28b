import RtcCore.Core.Machine
import RtcCore.L2Receive.DtmfBuffer
import RtcCore.L2Receive.PacketBuffer

/-!
# NetEq's timestamp buffers under a translation

A constant added to every timestamp moves a stream along the circle. What the
buffers do by differences of timestamps goes along with it. Comparisons of the
timestamps as numbers do so exactly if the constant carries both sides past
`2 ^ 32` or none (`carriedTogether_iff`): they stand in `NextHigherTimestamp`
and in `GetEvent`, which compares the current timestamp, and the end of the frame
that is played, with where the events start and end.

Results:
- `PacketBuffer.call_translate`, `DtmfBuffer.call_translate`: the calls commute with
  a translation that carries together what they compare.
- `runs_translate`: so do runs.
-/
namespace RtcCore.L2.NetEq

open L1

/-! ## Comparisons of numbers -/

/-- `c` carries `a` and `b` past `2 ^ 32`, or none of them. -/
def CarriedTogether (c a b : UInt32) : Prop :=
  a.toNat + c.toNat < 2 ^ 32 ↔ b.toNat + c.toNat < 2 ^ 32

instance (c a b : UInt32) : Decidable (CarriedTogether c a b) :=
  inferInstanceAs (Decidable (_ ↔ _))

variable {c a b : UInt32}

theorem CarriedTogether.symm (h : CarriedTogether c a b) : CarriedTogether c b a := Iff.symm h

theorem CarriedTogether.trans {t : UInt32} (h : CarriedTogether c a b)
    (h' : CarriedTogether c b t) : CarriedTogether c a t :=
  Iff.trans h h'

theorem CarriedTogether.le_iff (h : CarriedTogether c a b) : a + c ≤ b + c ↔ a ≤ b := by
  have h1 := a.toNat_lt
  have h2 := b.toNat_lt
  have h3 := c.toNat_lt
  rw [CarriedTogether] at h
  rw [UInt32.le_iff_toNat_le, UInt32.le_iff_toNat_le, UInt32.toNat_add, UInt32.toNat_add]
  omega

theorem CarriedTogether.lt_iff (h : CarriedTogether c a b) : a + c < b + c ↔ a < b := by
  rw [← UInt32.not_le, ← UInt32.not_le, h.symm.le_iff]

/-- The comparison of different timestamps as numbers is kept only then. -/
theorem carriedTogether_iff (hne : a ≠ b) :
    CarriedTogether c a b ↔ (a + c ≤ b + c ↔ a ≤ b) := by
  have h1 := a.toNat_lt
  have h2 := b.toNat_lt
  have h3 := c.toNat_lt
  have h4 : a.toNat ≠ b.toNat := fun hc => hne (UInt32.toNat_inj.1 hc)
  rw [CarriedTogether, UInt32.le_iff_toNat_le, UInt32.le_iff_toNat_le, UInt32.toNat_add,
    UInt32.toNat_add]
  omega

theorem CarriedTogether.min_add (h : CarriedTogether c a b) :
    min (a + c) (b + c) = min a b + c := by
  have hmin : ∀ x y : UInt32, min x y = if x ≤ y then x else y := fun _ _ => rfl
  rw [hmin, hmin]
  by_cases hle : a ≤ b
  · rw [if_pos hle, if_pos (h.le_iff.2 hle)]
  · rw [if_neg hle, if_neg (mt h.le_iff.1 hle)]

theorem sub_translate (a b c : UInt32) : a + c - (b + c) = a - b := by
  have h1 := a.toNat_lt
  have h2 := b.toNat_lt
  have h3 := c.toNat_lt
  rw [← UInt32.toNat_inj]
  simp only [UInt32.toNat_sub, UInt32.toNat_add]
  omega

theorem newer_translate (a b c : UInt32) :
    Serial.isNewerTimestamp (a + c) (b + c) = Serial.isNewerTimestamp a b := by
  simp only [Serial.isNewerTimestamp, sub_translate, bne, beq_eq_decide, UInt32.add_left_inj]

/-! ## `PacketBuffer` -/

def Packet.translate (c : UInt32) (p : Packet) : Packet :=
  { p with header := { p.header with timestamp := p.header.timestamp + c } }

@[simp] theorem Packet.translate_timestamp (c : UInt32) (p : Packet) :
    (p.translate c).header.timestamp = p.header.timestamp + c :=
  rfl

theorem Packet.lt_translate (c : UInt32) (p q : Packet) :
    (p.translate c).lt (q.translate c) = p.lt q := by
  simp only [Packet.lt, Packet.translate, sub_translate]
  exact if_congr (UInt32.add_left_inj c) rfl rfl

namespace PacketBuffer

def translate (c : UInt32) (b : PacketBuffer) : PacketBuffer :=
  { b with buffer := b.buffer.map (Packet.translate c) }

/-- The calls of a run; a packet to insert is `none` where it is a null pointer or has no
payload. -/
inductive Call where
  | insertPacket (packet : Option Packet)
  | nextTimestamp
  | nextHigherTimestamp (timestamp : UInt32)
  | getNextPacket
  | discardOldPackets (timestampLimit horizonSamples : UInt32)
  deriving DecidableEq, Repr

inductive Result where
  | inserted (returnVal : BufferReturnCode)
  | timestamp (next : Except BufferReturnCode UInt32)
  | packet (next : Option Packet)
  | discarded
  deriving DecidableEq

def calls : Machine PacketBuffer Call Result where
  step b
    | .insertPacket packet => some ((b.insertPacket packet).map .inserted id)
    | .nextTimestamp => some (.timestamp b.nextTimestamp, b)
    | .nextHigherTimestamp timestamp => some (.timestamp (b.nextHigherTimestamp timestamp), b)
    | .getNextPacket => b.getNextPacket.map (Prod.map .packet id)
    | .discardOldPackets timestampLimit horizonSamples =>
      some (.discarded, b.discardOldPackets timestampLimit horizonSamples)

def Call.translate (c : UInt32) : Call → Call
  | .insertPacket packet => .insertPacket (packet.map (Packet.translate c))
  | .nextTimestamp => .nextTimestamp
  | .nextHigherTimestamp timestamp => .nextHigherTimestamp (timestamp + c)
  | .getNextPacket => .getNextPacket
  | .discardOldPackets timestampLimit horizonSamples =>
    .discardOldPackets (timestampLimit + c) horizonSamples

def Result.translate (c : UInt32) : Result → Result
  | .inserted returnVal => .inserted returnVal
  | .timestamp next => .timestamp (next.map (· + c))
  | .packet next => .packet (next.map (Packet.translate c))
  | .discarded => .discarded

/-- The packets whose timestamps `NextHigherTimestamp` looks at. -/
def lookedAt (b : PacketBuffer) (timestamp : UInt32) : List Packet :=
  b.buffer.take (b.buffer.findIdx (timestamp ≤ ·.header.timestamp) + 1)

/-- The comparisons of numbers in a call are kept. -/
def Call.Carried (c : UInt32) (b : PacketBuffer) : Call → Prop
  | .nextHigherTimestamp timestamp =>
    ∀ p ∈ b.lookedAt timestamp, CarriedTogether c timestamp p.header.timestamp
  | _ => True

theorem insertPacket_translate (c : UInt32) (b : PacketBuffer) (packet : Option Packet) :
    (b.translate c).insertPacket (packet.map (Packet.translate c)) =
      (b.insertPacket packet).map id (translate c) := by
  cases packet with
  | none => rfl
  | some x =>
    have hins : ∀ l : List Packet,
        backInsert Packet.lt sameTimestamp (x.translate c) (l.map (Packet.translate c)) =
          (backInsert Packet.lt sameTimestamp x l).map (Packet.translate c) := fun l =>
      map_backInsert (Packet.translate c) (Packet.lt_translate c x) fun a => by
        simp only [sameTimestamp, Packet.translate_timestamp, UInt32.add_left_inj]
    simp only [Option.map_some, insertPacket, translate, List.length_map, Prod.map]
    split
    · exact congrArg _ (congrArg _ (hins []))
    · exact congrArg _ (congrArg _ (hins b.buffer))

theorem getNextPacket_translate (c : UInt32) (b : PacketBuffer) :
    (b.translate c).getNextPacket =
      b.getNextPacket.map (Prod.map (Option.map (Packet.translate c)) (translate c)) := by
  cases hb : b.buffer with
  | nil => simp [getNextPacket, translate, hb]
  | cons p rest =>
    have hdrop : (rest.map (Packet.translate c)).dropWhile
          (fun next => next.header.timestamp = (p.translate c).header.timestamp) =
        (rest.dropWhile fun next => next.header.timestamp = p.header.timestamp).map
          (Packet.translate c) := by
      rw [List.dropWhile_map]
      congr 2
      funext next
      simp only [Function.comp_apply, Packet.translate_timestamp, UInt32.add_left_inj]
    simp only [getNextPacket, translate, hb, List.map_cons, hdrop, List.length_map]
    split
    · rfl
    · rfl

theorem discardOldPackets_translate (c : UInt32) (b : PacketBuffer) (limit horizon : UInt32) :
    (b.translate c).discardOldPackets (limit + c) horizon =
      (b.discardOldPackets limit horizon).translate c := by
  have hsub : limit + c - horizon = limit - horizon + c := by
    rw [UInt32.sub_eq_add_neg, UInt32.sub_eq_add_neg, UInt32.add_assoc, UInt32.add_assoc,
      UInt32.add_comm c]
  simp only [discardOldPackets, translate, List.dropWhile_map]
  congr 3
  funext p
  simp only [Function.comp_apply, Packet.translate_timestamp, isObsoleteTimestamp, hsub,
    newer_translate, ne_eq, UInt32.add_left_inj]

theorem nextTimestamp_translate (c : UInt32) (b : PacketBuffer) :
    (b.translate c).nextTimestamp = b.nextTimestamp.map (· + c) := by
  cases hb : b.buffer with
  | nil => simp only [nextTimestamp, translate, hb, List.map_nil, Except.map]
  | cons p rest =>
    simp only [nextTimestamp, translate, hb, List.map_cons, Except.map, Packet.translate_timestamp]

theorem find_translate {c timestamp : UInt32} {l : List Packet}
    (h : ∀ p ∈ l.take (l.findIdx (timestamp ≤ ·.header.timestamp) + 1),
      CarriedTogether c timestamp p.header.timestamp) :
    (l.map (Packet.translate c)).find? (timestamp + c ≤ ·.header.timestamp) =
      (l.find? (timestamp ≤ ·.header.timestamp)).map (Packet.translate c) := by
  induction l with
  | nil => rfl
  | cons p l ih =>
    have hp := (h p (by simp)).le_iff
    rw [List.map_cons, List.find?_cons, List.find?_cons, Packet.translate_timestamp,
      decide_eq_decide.2 hp]
    cases hle : decide (timestamp ≤ p.header.timestamp) with
    | true => rfl
    | false =>
      refine ih fun q hq => h q ?_
      rw [List.findIdx_cons, hle]
      exact List.mem_cons_of_mem _ hq

theorem nextHigherTimestamp_translate {c : UInt32} {b : PacketBuffer} {timestamp : UInt32}
    (h : ∀ p ∈ b.lookedAt timestamp, CarriedTogether c timestamp p.header.timestamp) :
    (b.translate c).nextHigherTimestamp (timestamp + c) =
      (b.nextHigherTimestamp timestamp).map (· + c) := by
  have hfind := find_translate h
  cases hb : b.buffer with
  | nil => simp only [nextHigherTimestamp, translate, hb, List.map_nil, Except.map]
  | cons p rest =>
    rw [hb, List.map_cons] at hfind
    simp only [nextHigherTimestamp, translate, hb, List.map_cons, hfind]
    cases (p :: rest).find? (timestamp ≤ ·.header.timestamp) with
    | none => rfl
    | some q => rfl

theorem call_translate (c : UInt32) (b : PacketBuffer) (call : Call) (h : call.Carried c b) :
    calls.step (b.translate c) (call.translate c) =
      (calls.step b call).map (Prod.map (Result.translate c) (translate c)) := by
  cases call with
  | insertPacket packet =>
    simp only [calls, Call.translate, insertPacket_translate]
    rfl
  | nextTimestamp =>
    simp only [calls, Call.translate, nextTimestamp_translate]
    rfl
  | nextHigherTimestamp timestamp =>
    simp only [calls, Call.translate, nextHigherTimestamp_translate h]
    rfl
  | getNextPacket =>
    simp only [calls, Call.translate, getNextPacket_translate, Option.map_map]
    rfl
  | discardOldPackets limit horizon =>
    simp only [calls, Call.translate, discardOldPackets_translate]
    rfl

end PacketBuffer

/-! ## `DtmfBuffer` -/

def DtmfEvent.translate (c : UInt32) (event : DtmfEvent) : DtmfEvent :=
  { event with timestamp := event.timestamp + c }

namespace DtmfBuffer

def translate (c : UInt32) (b : DtmfBuffer) : DtmfBuffer :=
  { b with buffer := b.buffer.map (DtmfEvent.translate c) }

inductive Call where
  | insertEvent (event : DtmfEvent)
  | getEvent (currentTimestamp : UInt32)
  deriving DecidableEq, Repr

inductive Result where
  | inserted (returnVal : ReturnCode)
  | event (played : Option DtmfEvent)
  deriving DecidableEq, Repr

def calls : Machine DtmfBuffer Call Result where
  step b
    | .insertEvent event => some ((b.insertEvent event).map .inserted id)
    | .getEvent currentTimestamp => some ((b.getEvent currentTimestamp).map .event id)

def Call.translate (c : UInt32) : Call → Call
  | .insertEvent event => .insertEvent (event.translate c)
  | .getEvent currentTimestamp => .getEvent (currentTimestamp + c)

def Result.translate (c : UInt32) : Result → Result
  | .inserted returnVal => .inserted returnVal
  | .event played => .event (played.map (DtmfEvent.translate c))

/-- The timestamps that decide about an event. -/
def comparedFor (b : DtmfBuffer) (it : DtmfEvent) (next : Option DtmfEvent) : List UInt32 :=
  it.timestamp :: b.ownEnd it :: if it.endBit then [] else (next.map DtmfEvent.timestamp).toList

/-- The event is played, and is not over. -/
def GoesOn (b : DtmfBuffer) (currentTimestamp : UInt32) (it : DtmfEvent)
    (next : Option DtmfEvent) : Prop :=
  it.timestamp ≤ currentTimestamp ∧ currentTimestamp ≤ b.eventEnd it next

/-- The comparisons of numbers in the loop of `GetEvent` are kept, up to the event played. -/
def LoopCarried (c : UInt32) (b : DtmfBuffer) (currentTimestamp : UInt32) : List DtmfEvent → Prop
  | [] => True
  | it :: rest =>
    (∀ t ∈ b.comparedFor it rest.head?, CarriedTogether c currentTimestamp t) ∧
      (b.GoesOn currentTimestamp it rest.head? → it.endBit = true →
        CarriedTogether c (currentTimestamp + .ofInt b.frameLenSamples)
          (b.eventEnd it rest.head?)) ∧
      (¬ b.GoesOn currentTimestamp it rest.head? →
        (b.eventEnd it rest.head? < currentTimestamp → nextAvailable it rest.head? = true) →
          b.LoopCarried c currentTimestamp rest)

def Call.Carried (c : UInt32) (b : DtmfBuffer) : Call → Prop
  | .insertEvent _ => True
  | .getEvent currentTimestamp => b.LoopCarried c currentTimestamp b.buffer

theorem mergeEvents_translate (c : UInt32) (event : DtmfEvent) (l : List DtmfEvent) :
    mergeEvents (event.translate c) (l.map (DtmfEvent.translate c)) =
      (mergeEvents event l).map (List.map (DtmfEvent.translate c)) := by
  induction l with
  | nil => rfl
  | cons it l ih =>
    have hsame : sameEvent (it.translate c) (event.translate c) = sameEvent it event :=
      congrArg _ (decide_eq_decide.2 (UInt32.add_left_inj c))
    rw [List.map_cons, mergeEvents, mergeEvents, hsame, ih]
    split
    · rfl
    · rw [Option.map_map, Option.map_map]
      rfl

theorem compareEvents_translate (c : UInt32) (a b : DtmfEvent) :
    compareEvents (a.translate c) (b.translate c) = compareEvents a b := by
  simp only [compareEvents, DtmfEvent.translate, sub_translate]
  exact if_congr (UInt32.add_left_inj c) rfl rfl

theorem sort_translate (c : UInt32) (l : List DtmfEvent) :
    sortBy compareEvents id (l.map (DtmfEvent.translate c)) =
      (sortBy compareEvents id l).map (DtmfEvent.translate c) := by
  refine (List.map_insertionSort _ _ _ _ fun a _ b _ => ?_).symm
  rw [id, id, id, id, compareEvents_translate]

theorem insertEvent_translate (c : UInt32) (b : DtmfBuffer) (event : DtmfEvent) :
    (b.translate c).insertEvent (event.translate c) =
      (b.insertEvent event).map id (translate c) := by
  have hmerge := mergeEvents_translate c event b.buffer
  have hsort := sort_translate c (b.buffer ++ [event])
  rw [List.map_append, List.map_cons, List.map_nil] at hsort
  rw [insertEvent, insertEvent, apply_ite (Prod.map id (translate c))]
  refine if_congr Iff.rfl rfl ?_
  dsimp only [translate]
  rw [hmerge]
  cases mergeEvents event b.buffer with
  | some buffer => rfl
  | none =>
    simp only [Option.map_none, hsort]
    rfl

theorem ownEnd_translate (c : UInt32) (b : DtmfBuffer) (it : DtmfEvent) :
    (b.translate c).ownEnd (it.translate c) = b.ownEnd it + c := by
  simp only [ownEnd, translate, DtmfEvent.translate]
  rw [UInt32.add_assoc, UInt32.add_assoc, UInt32.add_assoc, UInt32.add_assoc, UInt32.add_comm c,
    UInt32.add_assoc]
  rfl

theorem eventEnd_translate {c currentTimestamp : UInt32} {b : DtmfBuffer} {it : DtmfEvent}
    {next : Option DtmfEvent}
    (h : ∀ t ∈ b.comparedFor it next, CarriedTogether c currentTimestamp t) :
    (b.translate c).eventEnd (it.translate c) (next.map (DtmfEvent.translate c)) =
        b.eventEnd it next + c ∧
      CarriedTogether c currentTimestamp (b.eventEnd it next) := by
  have hown : CarriedTogether c currentTimestamp (b.ownEnd it) := h _ (by simp [comparedFor])
  have hbit : (it.translate c).endBit = it.endBit := rfl
  rw [eventEnd, eventEnd, ownEnd_translate, hbit]
  split
  · exact ⟨rfl, hown⟩
  · rename_i hend
    cases next with
    | none => exact ⟨rfl, hown⟩
    | some next =>
      have hnext : CarriedTogether c currentTimestamp next.timestamp :=
        h _ (by simp [comparedFor, hend])
      refine ⟨(hown.symm.trans hnext).min_add, ?_⟩
      dsimp only [Option.elim_some]
      have hmin : min (b.ownEnd it) next.timestamp =
          if b.ownEnd it ≤ next.timestamp then b.ownEnd it else next.timestamp := rfl
      rw [hmin]
      split
      · exact hown
      · exact hnext

theorem getEventLoop_translate {c currentTimestamp : UInt32} {b : DtmfBuffer} {l : List DtmfEvent}
    (h : b.LoopCarried c currentTimestamp l) :
    (b.translate c).getEventLoop (currentTimestamp + c) (l.map (DtmfEvent.translate c)) =
      (b.getEventLoop currentTimestamp l).map (Option.map (DtmfEvent.translate c))
        (List.map (DtmfEvent.translate c)) := by
  induction l with
  | nil => rfl
  | cons it rest ih =>
    obtain ⟨hit, hframe, hrest⟩ := h
    have hstart : CarriedTogether c currentTimestamp it.timestamp := hit _ (by simp [comparedFor])
    obtain ⟨hend, hcarried⟩ := eventEnd_translate hit
    have hplay : ((it.translate c).timestamp ≤ currentTimestamp + c ∧
          currentTimestamp + c ≤ b.eventEnd it rest.head? + c) ↔
        it.timestamp ≤ currentTimestamp ∧ currentTimestamp ≤ b.eventEnd it rest.head? :=
      and_congr hstart.symm.le_iff hcarried.le_iff
    have hnext : nextAvailable (it.translate c) (rest.head?.map (DtmfEvent.translate c)) =
        nextAvailable it rest.head? := by
      rw [nextAvailable, nextAvailable, Option.isSome_map]
      rfl
    rw [List.map_cons, getEventLoop, getEventLoop, List.head?_map, hend]
    simp only [hplay, hcarried.symm.lt_iff, hnext]
    split
    · -- the event played, which may be dropped
      rename_i hgoes
      have hdrop : ((it.translate c).endBit = true ∧ b.eventEnd it rest.head? + c ≤
            currentTimestamp + c + .ofInt (b.translate c).frameLenSamples) ↔
          it.endBit = true ∧
            b.eventEnd it rest.head? ≤ currentTimestamp + .ofInt b.frameLenSamples := by
        refine and_congr_right fun hbit => ?_
        rw [UInt32.add_assoc, UInt32.add_comm c, ← UInt32.add_assoc]
        exact (hframe hgoes hbit).symm.le_iff
      simp only [hdrop]
      split <;> rfl
    · rename_i hnot
      split
      · split
        · rename_i hover havail
          rw [ih (hrest hnot fun _ => havail)]
        · rfl
      · rename_i hover
        rw [ih (hrest hnot fun h => absurd h hover)]
        rfl

theorem call_translate (c : UInt32) (b : DtmfBuffer) (call : Call) (h : call.Carried c b) :
    calls.step (b.translate c) (call.translate c) =
      (calls.step b call).map (Prod.map (Result.translate c) (translate c)) := by
  cases call with
  | insertEvent event =>
    simp only [calls, Call.translate, insertEvent_translate]
    rfl
  | getEvent currentTimestamp =>
    have hloop := getEventLoop_translate h
    simp only [calls, Call.translate, getEvent]
    rw [show (b.translate c).buffer = b.buffer.map (DtmfEvent.translate c) from rfl, hloop]
    rfl

end DtmfBuffer

/-! ## Runs -/

/-- Where every call carries together what it compares, the translated run gives the translated
results and ends in the translated buffer. -/
theorem runs_translate (c : UInt32) :
    (∀ (b : PacketBuffer) (calls : List PacketBuffer.Call),
      PacketBuffer.calls.Meets (fun b call => call.Carried c b) b calls →
      PacketBuffer.calls.run (b.translate c) (calls.map (PacketBuffer.Call.translate c)) =
        (PacketBuffer.calls.run b calls).map
          (Prod.map (List.map (PacketBuffer.Result.translate c)) (PacketBuffer.translate c))) ∧
    ∀ (b : DtmfBuffer) (calls : List DtmfBuffer.Call),
      DtmfBuffer.calls.Meets (fun b call => call.Carried c b) b calls →
      DtmfBuffer.calls.run (b.translate c) (calls.map (DtmfBuffer.Call.translate c)) =
        (DtmfBuffer.calls.run b calls).map
          (Prod.map (List.map (DtmfBuffer.Result.translate c)) (DtmfBuffer.translate c)) :=
  ⟨fun _ _ h => Machine.run_map (PacketBuffer.call_translate c) h,
    fun _ _ h => Machine.run_map (DtmfBuffer.call_translate c) h⟩

/-- A packet at 100 and the next timestamp from 50 on. -/
def packetCalls : List PacketBuffer.Call :=
  [.insertPacket (some { header := { timestamp := 100 }, payload := [0] }),
    .nextHigherTimestamp 50]

/-- A finished event from 100 to 1100 and what plays at 600. -/
def eventCalls : List DtmfBuffer.Call :=
  [.insertEvent { timestamp := 100, eventNo := 1, volume := 10, duration := 1000, endBit := true },
    .getEvent 600]

/-- Carried past the wrap altogether, both runs are kept. -/
theorem runs_translate_past :
    PacketBuffer.calls.run { maxNumberOfPackets := 50 }
        (packetCalls.map (PacketBuffer.Call.translate 4294967286)) =
      (PacketBuffer.calls.run { maxNumberOfPackets := 50 } packetCalls).map
        (Prod.map (List.map (PacketBuffer.Result.translate 4294967286))
          (PacketBuffer.translate 4294967286)) ∧
    DtmfBuffer.calls.run { maxExtrapolationSamples := 560, frameLenSamples := 80 }
        (eventCalls.map (DtmfBuffer.Call.translate 4294967286)) =
      (DtmfBuffer.calls.run { maxExtrapolationSamples := 560, frameLenSamples := 80 } eventCalls).map
        (Prod.map (List.map (DtmfBuffer.Result.translate 4294967286))
          (DtmfBuffer.translate 4294967286)) := by
  refine ⟨(runs_translate 4294967286).1 { maxNumberOfPackets := 50 } packetCalls ?_,
    (runs_translate 4294967286).2 { maxExtrapolationSamples := 560, frameLenSamples := 80 } eventCalls ?_⟩
  · refine ⟨trivial, ?_⟩
    rintro r ⟨⟩
    refine ⟨?_, fun _ _ => trivial⟩
    intro p hp
    rw [List.mem_singleton.1 hp]
    decide
  · refine ⟨trivial, ?_⟩
    rintro r ⟨⟩
    refine ⟨⟨?_, fun _ _ => by decide, fun _ _ => trivial⟩, fun _ _ => trivial⟩
    intro t ht
    have hcompared : t ∈ [100, 1100] := ht
    rcases List.mem_cons.1 hcompared with rfl | ht
    · decide
    · rw [List.mem_singleton.1 ht]
      decide

/-- Where the wrap falls between them, the packet is not found and the event not played. -/
theorem lost_at_wrap :
    (PacketBuffer.calls.run { maxNumberOfPackets := 50 }
        (packetCalls.map (PacketBuffer.Call.translate 4294967221))).map Prod.fst ≠
      ((PacketBuffer.calls.run { maxNumberOfPackets := 50 } packetCalls).map Prod.fst).map
        (List.map (PacketBuffer.Result.translate 4294967221)) ∧
    (DtmfBuffer.calls.run { maxExtrapolationSamples := 560, frameLenSamples := 80 }
        (eventCalls.map (DtmfBuffer.Call.translate 4294966996))).map Prod.fst ≠
      ((DtmfBuffer.calls.run { maxExtrapolationSamples := 560, frameLenSamples := 80 } eventCalls).map Prod.fst).map
        (List.map (DtmfBuffer.Result.translate 4294966996)) := by
  decide

end RtcCore.L2.NetEq
