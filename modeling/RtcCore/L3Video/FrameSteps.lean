import RtcCore.L3Video.FrameBuffer
import RtcCore.L3Video.SessionComplete

/-!
# What inserting one packet does

The ways through `InsertPacket`, first of a session, then of a frame buffer:
what each return value says about the state after it.
-/
namespace RtcCore.L3

open Serial

/-! ## A packet in its session -/

namespace Session

theorem track_fields (s : Info) (p : VCMPacket) :
    (s.track p).2.packets = s.packets ∧ (s.track p).2.emptySeqNumHigh = s.emptySeqNumHigh ∧
      (s.track p).2.emptySeqNumLow = s.emptySeqNumLow ∧ (s.track p).2.complete = s.complete ∧
      (s.track p).2.decodable = s.decodable := by
  have hlast : ∀ {s t : Info}, s.trackLast p = some t → t.packets = s.packets ∧
      t.emptySeqNumHigh = s.emptySeqNumHigh ∧ t.emptySeqNumLow = s.emptySeqNumLow ∧
      t.complete = s.complete ∧ t.decodable = s.decodable := by
    intro s t h
    unfold Info.trackLast at h
    repeat' split at h
    all_goals cases h
    all_goals exact ⟨rfl, rfl, rfl, rfl, rfl⟩
  have hfirst : ∀ {s t : Info}, s.trackFirst p = some t → t.packets = s.packets ∧
      t.emptySeqNumHigh = s.emptySeqNumHigh ∧ t.emptySeqNumLow = s.emptySeqNumLow ∧
      t.complete = s.complete ∧ t.decodable = s.decodable := by
    intro s t h
    unfold Info.trackFirst at h
    repeat' split at h
    all_goals cases h
    all_goals exact ⟨rfl, rfl, rfl, rfl, rfl⟩
  unfold Info.track
  split
  · exact ⟨rfl, rfl, rfl, rfl, rfl⟩
  split
  · exact ⟨rfl, rfl, rfl, rfl, rfl⟩
  rename_i t h1
  split
  · exact hfirst h1
  · rename_i u h2
    obtain ⟨a1, a2, a3, a4, a5⟩ := hfirst h1
    obtain ⟨b1, b2, b3, b4, b5⟩ := hlast h2
    exact ⟨b1.trans a1, b2.trans a2, b3.trans a3, b4.trans a4, b5.trans a5⟩

/-- The four ways through `InsertPacket`. -/
theorem insertPacket_inv (s : Info) (buf : Bytes) (p : VCMPacket) (mode : DecodeErrorMode)
    (d : FrameData) :
    (p.frameType = .empty ∧
      insertPacket s buf p mode d = (0, s.informOfEmptyPacket p.seqNum, buf)) ∨
    (p.frameType ≠ .empty ∧ (insertPacket s buf p mode d).1 < 0 ∧
      ((insertPacket s buf p mode d).2.1 = s ∨
        (insertPacket s buf p mode d).1 = -3 ∧
          (insertPacket s buf p mode d).2.1 = (s.track p).2)  ∧
      ((insertPacket s buf p mode d).1 = -2 → p.seqNum ∈ seqNums s)) ∨
    (p.frameType ≠ .empty ∧ 0 ≤ (insertPacket s buf p mode d).1 ∧
      isDuplicate (scanFront s.packets p.seqNum) p.seqNum = false ∧
      (s.track p).1 = true ∧ ∃ off size shift b, (insertPacket s buf p mode d).2.1 =
        { Info.updateCompleteSession { (s.track p).2 with packets := placed s p off size shift } with
          decodable := b }) := by
  by_cases he : p.frameType = .empty
  · exact Or.inl ⟨he, by unfold insertPacket; rw [if_pos he]⟩
  refine Or.inr ?_
  unfold insertPacket
  rw [if_neg he]
  split
  · exact Or.inl ⟨he, by simp, Or.inl rfl, fun h => by simp at h⟩
  split
  · rename_i hd
    refine Or.inl ⟨he, by simp, Or.inl rfl, fun _ => ?_⟩
    obtain ⟨q, hq, hs, -⟩ := duplicate_mem hd
    exact List.mem_map.2 ⟨q, hq, hs⟩
  rename_i hd
  dsimp only
  split
  · rename_i ht
    refine Or.inr ⟨he, Int.natCast_nonneg _, by simpa using hd, ht, ?_⟩
    obtain ⟨off, n, k, hps, -⟩ := insertBuffer_packets buf (scanFront s.packets p.seqNum) p
      (scanBack s.packets p.seqNum)
    rw [hps]
    obtain ⟨b, hb⟩ := updateDecodable_eq
      (Info.updateCompleteSession { (s.track p).2 with packets := placed s p off n k }) mode d
    exact ⟨off, n, k, b, hb⟩
  · exact Or.inl ⟨he, by simp, Or.inr ⟨rfl, rfl⟩, fun h => by simp at h⟩

theorem insertPacket_code (s : Info) (buf : Bytes) (p : VCMPacket) (mode : DecodeErrorMode)
    (d : FrameData) :
    (insertPacket s buf p mode d).1 = -1 ∨ (insertPacket s buf p mode d).1 = -2 ∨
      (insertPacket s buf p mode d).1 = -3 ∨ 0 ≤ (insertPacket s buf p mode d).1 := by
  unfold insertPacket
  split
  · simp
  split
  · simp
  split
  · simp
  dsimp only
  split
  · exact Or.inr (Or.inr (Or.inr (Int.natCast_nonneg _)))
  · simp

end Session

/-! ## A packet in its frame -/

namespace FrameBuffer

/-- What `InsertPacket` makes of frame `f`: its code and the frame after. -/
inductive Outcome (f : FrameBuffer) (p : VCMPacket) (mode : Session.DecodeErrorMode)
    (d : Session.FrameData) : BufferEnum → FrameBuffer → Prop
  | sizeError (g : FrameBuffer) : Outcome f p mode d .sizeError g
  | rejected {g : FrameBuffer} {code : BufferEnum} {buf buf' : Bytes} {c : Int}
      (hs : Session.insertPacket f.session buf p mode d = (c, g.session, buf'))
      (ht : g.timestamp = (f.openWith p).timestamp) (hst : g.state = (f.openWith p).state)
      (hc : c = -2 ∧ code = .duplicatePacket ∨ c = -3 ∧ code = .outOfBoundsPacket) :
      Outcome f p mode d code g
  | taken {g : FrameBuffer} {code : BufferEnum} {buf buf' : Bytes} {c : Int}
      (hs : Session.insertPacket f.session buf p mode d = (c, g.session, buf'))
      (ht : g.timestamp = (f.openWith p).timestamp) (hc : 0 ≤ c)
      (hst : code = .completeSession ∧ g.session.complete = true ∧ g.state = .complete ∨
        code = .decodableSession ∧ g.session.complete = false ∧ g.session.decodable = true ∧
          g.state = .decodable ∨
        code = .incomplete ∧ g.session.complete = false ∧ g.state = (f.openWith p).state) :
      Outcome f p mode d code g

theorem outcome (f : FrameBuffer) (p : VCMPacket) (mode : Session.DecodeErrorMode)
    (d : Session.FrameData) :
    Outcome f p mode d (f.insertPacket p mode d).1 (f.insertPacket p mode d).2 := by
  have hs : (f.openWith p).session = f.session := by
    unfold openWith; split <;> rfl
  unfold insertPacket
  split
  · exact .sizeError _
  rename_i g hg
  obtain ⟨buffer, size, rfl⟩ := grow_eq hg
  dsimp only
  rw [hs]
  have hc := Session.insertPacket_code f.session buffer p mode d
  split
  · exact .sizeError _
  rename_i h1
  split
  · rename_i h2
    exact .rejected (Prod.ext h2 rfl) rfl rfl (Or.inl ⟨rfl, rfl⟩)
  rename_i h2
  split
  · rename_i h3
    exact .rejected (Prod.ext h3 rfl) rfl rfl (Or.inr ⟨rfl, rfl⟩)
  rename_i h3
  have hpos : 0 ≤ (Session.insertPacket f.session buffer p mode d).1 :=
    ((hc.resolve_left h1).resolve_left h2).resolve_left h3
  split
  · rename_i hcomp
    exact .taken rfl rfl hpos (Or.inl ⟨rfl, hcomp, rfl⟩)
  rename_i hcomp
  split
  · rename_i hdec
    exact .taken rfl rfl hpos (Or.inr (Or.inl ⟨rfl, by simpa using hcomp, hdec, rfl⟩))
  · exact .taken rfl rfl hpos (Or.inr (Or.inr ⟨rfl, by simpa using hcomp, rfl⟩))

end FrameBuffer

end RtcCore.L3
