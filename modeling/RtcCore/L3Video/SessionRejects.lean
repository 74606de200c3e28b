import RtcCore.L3Video.SessionBytes

/-!
# What a rejected packet leaves behind

`InsertPacket` has four negative returns. The full list, the duplicate and the
packet before the first one return before anything is written. The packet
behind the marker is found out last, after the first-packet bookkeeping: by
then the session may have taken its number and its frame type.

Results:
* `rejected_untouched_iff`: a negative return leaves session and frame buffer
  as they were exactly when the packet is not `HalfTracked`.
* `half_tracked_first`: a first packet that arrives behind the marker.
-/
namespace RtcCore.L3.Session

open Serial

variable (s : Info) (p : VCMPacket)

/-- Past the three early returns. -/
def reachesTracking : Prop :=
  p.frameType ≠ .empty ∧ s.packets.length ≠ kMaxPacketsInSession ∧
    isDuplicate (scanFront s.packets p.seqNum) p.seqNum = false

/-- The first-packet bookkeeping has something to write: the first packet of
the frame, or the first type of a frame that had none. -/
def firstBookkeeping : Prop :=
  match s.firstPacketSeqNum with
  | none => p.isFirstPacket = true ∨ s.frameType = .empty
  | some f => isNewerSequenceNumber f p.seqNum = false ∧ s.frameType = .empty

/-- A packet behind the marker that has something to write before the marker
is looked at. -/
structure HalfTracked : Prop where
  reaches : reachesTracking s p
  bounded : p.codec ≠ .unknown ∧ p.codec ≠ .h264
  behind : ∃ l, s.lastPacketSeqNum = some l ∧ isNewerSequenceNumber p.seqNum l = true
  writes : firstBookkeeping s p

variable {s p}

/-! ## The two checks -/

theorem trackFirst_last {t : Info} (h : s.trackFirst p = some t) :
    t.lastPacketSeqNum = s.lastPacketSeqNum := by
  unfold Info.trackFirst at h
  split at h
  · split at h
    · cases h; rfl
    · split at h <;> · cases h; rfl
  · split at h
    · cases h
    · split at h <;> · cases h; rfl

theorem firstBookkeeping_none (hf : s.firstPacketSeqNum = none) :
    firstBookkeeping s p ↔ p.isFirstPacket = true ∨ s.frameType = .empty := by
  rw [firstBookkeeping, hf]

theorem firstBookkeeping_some {f : UInt16} (hf : s.firstPacketSeqNum = some f) :
    firstBookkeeping s p ↔
      isNewerSequenceNumber f p.seqNum = false ∧ s.frameType = .empty := by
  rw [firstBookkeeping, hf]

/-- The first check writes nothing unless there is something to write. -/
theorem trackFirst_eq_iff (hm : p.frameType ≠ .empty) {t : Info} (h : s.trackFirst p = some t) :
    t = s ↔ ¬ firstBookkeeping s p := by
  unfold Info.trackFirst at h
  split at h
  · rename_i hf
    rw [firstBookkeeping_none hf]
    split at h
    · rename_i hp
      cases h
      constructor
      · intro he
        have := congrArg Info.firstPacketSeqNum he
        rw [hf] at this
        cases this
      · exact fun hn => absurd (Or.inl hp) hn
    · rename_i hp
      split at h
      · rename_i hemp
        cases h
        constructor
        · exact fun he => absurd ((congrArg Info.frameType he).trans hemp.1) hm
        · exact fun hn => absurd (Or.inr hemp.1) hn
      · rename_i hemp
        cases h
        exact ⟨fun _ hn => hn.elim hp fun he => hemp ⟨he, hm⟩, fun _ => rfl⟩
  · rename_i f hf
    rw [firstBookkeeping_some hf]
    split at h
    · cases h
    · rename_i hn
      have hn := Bool.eq_false_iff.2 hn
      split at h
      · rename_i hemp
        cases h
        constructor
        · exact fun he => absurd ((congrArg Info.frameType he).trans hemp.1) hm
        · exact fun hc => absurd ⟨hn, hemp.1⟩ hc
      · rename_i hemp
        cases h
        exact ⟨fun _ hc => hemp ⟨hc.2, hm⟩, fun _ => rfl⟩

/-- A packet before the first one has nothing to write. -/
theorem firstBookkeeping_of_none (h : s.trackFirst p = none) : ¬ firstBookkeeping s p := by
  unfold Info.trackFirst at h
  split at h
  · split at h
    · cases h
    · split at h <;> cases h
  · rename_i f hf
    split at h
    · rename_i hn
      rw [firstBookkeeping_some hf]
      rintro ⟨hc, -⟩
      rw [hn] at hc
      cases hc
    · split at h <;> cases h

theorem trackLast_none_iff :
    s.trackLast p = none ↔
      ∃ l, s.lastPacketSeqNum = some l ∧ isNewerSequenceNumber p.seqNum l = true := by
  unfold Info.trackLast
  split
  · rename_i hl
    constructor
    · intro h
      split at h <;> cases h
    · rintro ⟨l, he, -⟩
      rw [hl] at he
      cases he
  · rename_i l hl
    constructor
    · intro h
      split at h
      · rename_i hn
        exact ⟨l, hl, hn⟩
      · cases h
    · rintro ⟨l', he, hn⟩
      rw [hl] at he
      cases he
      rw [if_pos hn]

/-- Where `track` refuses a packet, it has changed the session exactly when
the packet is behind the marker and the first check wrote something. -/
theorem track_refused (hm : p.frameType ≠ .empty) (h : (s.track p).1 = false) :
    (s.track p).2 = s ↔
      ¬ ((p.codec ≠ .unknown ∧ p.codec ≠ .h264) ∧
        (∃ l, s.lastPacketSeqNum = some l ∧ isNewerSequenceNumber p.seqNum l = true) ∧
        firstBookkeeping s p) := by
  unfold Info.track at h ⊢
  split at h
  · cases h
  · rename_i hc
    rw [if_neg hc]
    have hc' : p.codec ≠ .unknown ∧ p.codec ≠ .h264 := not_or.1 hc
    split at h
    · rename_i hf
      exact ⟨fun _ hn => firstBookkeeping_of_none hf hn.2.2, fun _ => rfl⟩
    · rename_i t hf
      split at h
      · rename_i hl
        have hbehind := trackLast_none_iff.1 hl
        rw [trackFirst_last hf] at hbehind
        simp only [trackFirst_eq_iff hm hf]
        exact ⟨fun hn hall => hn hall.2.2, fun hn hb => hn ⟨hc', hbehind, hb⟩⟩
      · cases h

/-- A packet that `track` refuses when it is half tracked. -/
theorem HalfTracked.refused (h : HalfTracked s p) : (s.track p).1 = false := by
  obtain ⟨hm, -, -⟩ := h.reaches
  unfold Info.track
  rw [if_neg (not_or.2 h.bounded)]
  split
  · rfl
  · rename_i t hf
    have hl : t.trackLast p = none := trackLast_none_iff.2 (by
      rw [trackFirst_last hf]
      exact h.behind)
    rw [hl]

/-! ## The call -/

/-- **A rejected packet changes nothing unless it is half tracked**: a
negative return leaves the session and the frame buffer as they were, for
every state and packet but those where the marker check follows a write. -/
theorem rejected_untouched_iff (s : Info) (buf : Bytes) (p : VCMPacket) (mode : DecodeErrorMode)
    (d : FrameData) :
    ((insertPacket s buf p mode d).1 < 0 → (insertPacket s buf p mode d).2 = (s, buf)) ↔
      ¬ HalfTracked s p := by
  by_cases hr : reachesTracking s p
  · obtain ⟨hm, hfull, hdup⟩ := hr
    have hdup' := Bool.eq_false_iff.1 hdup
    simp only [insertPacket, if_neg hm, if_neg hfull, if_neg hdup']
    by_cases ht : (s.track p).1 = true
    · rw [if_pos ht]
      have hnn : ∀ n : Nat, ¬ ((n : Int) < 0) := fun n => by omega
      refine ⟨fun _ h => ?_, fun _ h => absurd h (hnn _)⟩
      rw [h.refused] at ht
      cases ht
    · rw [if_neg ht]
      have key := track_refused hm (Bool.eq_false_iff.2 ht)
      constructor
      · intro h hh
        have hneg : (-3 : Int) < 0 := by decide
        have := congrArg Prod.fst (h hneg)
        exact key.1 this ⟨hh.bounded, hh.behind, hh.writes⟩
      · intro h _
        rw [key.2 fun hall => h ⟨⟨hm, hfull, hdup⟩, hall.1, hall.2.1, hall.2.2⟩]
  · refine ⟨fun _ h => hr h.reaches, fun _ => ?_⟩
    unfold insertPacket
    split
    · intro h
      cases h
    · rename_i hm
      split
      · intro _; rfl
      · rename_i hfull
        split
        · intro _; rfl
        · rename_i hdup
          exact absurd ⟨hm, hfull, Bool.eq_false_iff.2 hdup⟩ hr

/-- A VP8 packet of one octet. -/
def vp8Packet (seq : UInt16) (first marker : Bool) (frameType : FrameType) : VCMPacket :=
  { timestamp := 9, seqNum := seq, data := [1], markerBit := marker, frameType, codec := .vp8
    isFirstPacket := first, completeNALU := .incomplete, insertStartCode := false
    codecSpecificHeader := { isFirstPacket := first, codec := .vp8 {} } }

/-- Packet 10 carries the marker. A first packet numbered 12 is rejected as
out of the frame, yet 12 stays as the frame's first packet and the frame has
become a key frame. -/
theorem half_tracked_first :
    let s := (insertPacket {} [] (vp8Packet 10 false true .delta) .noErrors ⟨0, 0⟩).2.1
    let r := insertPacket s [1] (vp8Packet 12 true false .key) .noErrors ⟨0, 0⟩
    r.1 = -3 ∧ s.firstPacketSeqNum = none ∧ r.2.1.firstPacketSeqNum = some 12 ∧
      s.frameType = .delta ∧ r.2.1.frameType = .key := by
  decide

end RtcCore.L3.Session
