import RtcCore.Core.Latest
import RtcCore.L3Video.TemporalLayers

/-!
# What the frames of `DefaultTemporalLayers` refer to

The VP8 encoder has three reference buffers. For every frame a pattern says which of
them the frame may predict from and which it replaces; the layer, the sync flag
and the TL0PICIDX that go with the frame are all the receiver gets to know. A
frame that is lost replaces nothing in the decoder, so what it would have
replaced is not to be used until it has been replaced again.

The codec itself is not modelled: a key frame uses no buffer and replaces all,
any other frame uses and replaces what its flags leave. Whether a frame is
dropped or becomes a key frame is the codec's choice.

Results:
- `stream`: what the encoder says of two layers is a `LayeredStream`.
- `used_accepted`: the receiver only accepts frames whose references are accepted.
- `decodes`: the buffers an accepted frame uses are the encoder's.
-/
namespace RtcCore.L3

/-! ## The pattern -/

/-- mirrors webrtc/modules/video_coding/codecs/vp8/default_temporal_layers.h:45-82 -/
inductive TemporalReferences where
  | updateLast
  | updateGoldenWithoutDependency
  | updateGolden
  | updateAltrefWithoutDependency
  | updateAltref
  | updateNone
  | updateNoneNoRefAltref
  | updateNoneNoRefGoldenRefAltRef
  | updateLastRefAltRef
  | updateGoldenWithoutDependencyRefAltRef
  | updateGoldenRefAltRef
  | updateLastAndGoldenRefAltRef
  | updateLastRefAll
  deriving DecidableEq, Repr

/-- The flags of libvpx, a bit each. -/
structure EncodeFlags where
  forceKf : Bool := false
  noRefLast : Bool := false
  noRefGf : Bool := false
  noRefArf : Bool := false
  noUpdLast : Bool := false
  noUpdGf : Bool := false
  noUpdArf : Bool := false
  noUpdEntropy : Bool := false
  deriving DecidableEq, Repr

/-- mirrors webrtc/modules/video_coding/codecs/vp8/default_temporal_layers.cc:157-229 -/
def TemporalReferences.flags : TemporalReferences → EncodeFlags
  | updateLast => { noUpdGf := true, noUpdArf := true, noRefGf := true, noRefArf := true }
  | updateGoldenWithoutDependency =>
    { noRefGf := true, noRefArf := true, noUpdArf := true, noUpdLast := true }
  | updateGolden => { noRefArf := true, noUpdArf := true, noUpdLast := true }
  | updateAltrefWithoutDependency =>
    { noRefArf := true, noRefGf := true, noUpdGf := true, noUpdLast := true }
  | updateAltref => { noUpdGf := true, noUpdLast := true }
  | updateNoneNoRefAltref =>
    { noRefArf := true, noUpdGf := true, noUpdArf := true, noUpdLast := true
      noUpdEntropy := true }
  | updateNone => { noUpdGf := true, noUpdArf := true, noUpdLast := true, noUpdEntropy := true }
  | updateNoneNoRefGoldenRefAltRef =>
    { noRefGf := true, noUpdGf := true, noUpdArf := true, noUpdLast := true
      noUpdEntropy := true }
  | updateGoldenWithoutDependencyRefAltRef =>
    { noRefGf := true, noUpdArf := true, noUpdLast := true }
  | updateLastRefAltRef => { noUpdGf := true, noUpdArf := true, noRefGf := true }
  | updateGoldenRefAltRef => { noUpdArf := true, noUpdLast := true }
  | updateLastAndGoldenRefAltRef => { noUpdArf := true, noRefGf := true }
  | updateLastRefAll => { noUpdArf := true, noUpdGf := true }

/-- The two arrays are as long as their lengths say.
mirrors webrtc/modules/video_coding/codecs/vp8/default_temporal_layers.h:84-93 -/
structure DefaultTemporalLayers where
  numberOfTemporalLayers : Nat
  temporalIds : List Nat := []
  temporalPattern : List TemporalReferences := []
  tl0PicIdx : UInt8
  patternIdx : UInt8 := 255
  timestamp : UInt32 := 0
  lastBaseLayerSync : Bool := false
  deriving DecidableEq, Repr

namespace DefaultTemporalLayers

/-- The rates are left out.
mirrors webrtc/modules/video_coding/codecs/vp8/default_temporal_layers.cc:46-146 -/
def configureBitrates (s : DefaultTemporalLayers) : Option DefaultTemporalLayers :=
  match s.numberOfTemporalLayers with
  | 0 | 1 => some { s with temporalIds := [0], temporalPattern := [.updateLastRefAll] }
  | 2 => some { s with
      temporalIds := [0, 1]
      temporalPattern := [.updateLastAndGoldenRefAltRef, .updateGoldenWithoutDependencyRefAltRef,
        .updateLastRefAltRef, .updateGoldenRefAltRef, .updateLastRefAltRef, .updateGoldenRefAltRef,
        .updateLastRefAltRef, .updateNone] }
  | 3 => some { s with
      temporalIds := [0, 2, 1, 2]
      temporalPattern := [.updateLastAndGoldenRefAltRef, .updateNoneNoRefGoldenRefAltRef,
        .updateGoldenWithoutDependencyRefAltRef, .updateNone, .updateLastRefAltRef, .updateNone,
        .updateGoldenRefAltRef, .updateNone] }
  | 4 => some { s with
      temporalIds := [0, 3, 2, 3, 1, 3, 2, 3]
      temporalPattern := [.updateLast, .updateNone, .updateAltrefWithoutDependency, .updateNone,
        .updateGoldenWithoutDependency, .updateNone, .updateAltref, .updateNone, .updateLast,
        .updateNone, .updateAltref, .updateNone, .updateGolden, .updateNone, .updateAltref,
        .updateNone] }
  | _ => none

/-- mirrors webrtc/modules/video_coding/codecs/vp8/default_temporal_layers.cc:39-44 -/
def currentLayerId (s : DefaultTemporalLayers) : Nat :=
  s.temporalIds[s.patternIdx.toNat % s.temporalIds.length]?.getD 0

/-- `temporal_pattern_[pattern_idx_ % temporal_pattern_length_]`. -/
def temporalReference (s : DefaultTemporalLayers) : TemporalReferences :=
  s.temporalPattern[s.patternIdx.toNat % s.temporalPattern.length]?.getD .updateLast

/-- mirrors webrtc/modules/video_coding/codecs/vp8/default_temporal_layers.cc:148-231 -/
def encodeFlags (s : DefaultTemporalLayers) : DefaultTemporalLayers × EncodeFlags :=
  let s := { s with patternIdx := s.patternIdx + 1 }
  (s, s.temporalReference.flags)

/-- mirrors webrtc/modules/video_coding/codecs/vp8/default_temporal_layers.cc:252-264 -/
def isLayerSync (s : DefaultTemporalLayers) : Bool :=
  s.temporalReference ∈ [.updateAltrefWithoutDependency, .updateGoldenWithoutDependency,
      .updateGoldenWithoutDependencyRefAltRef, .updateNoneNoRefGoldenRefAltRef] ||
    (s.temporalReference == .updateNone && s.numberOfTemporalLayers == 4)

/-- mirrors webrtc/modules/video_coding/codecs/vp8/default_temporal_layers.cc:233-279 -/
def populateCodecSpecific (s : DefaultTemporalLayers) (baseLayerSync : Bool) (vp8Info : VP8Header)
    (timestamp : UInt32) : DefaultTemporalLayers × VP8Header :=
  if s.numberOfTemporalLayers = 1 then
    (s, { vp8Info with
      temporalIdx := kNoTemporalIdx, layerSync := false, tl0PicIdx := kNoTl0PicIdx })
  else
    let vp8Info := if baseLayerSync then { vp8Info with temporalIdx := 0, layerSync := true }
      else { vp8Info with temporalIdx := s.currentLayerId, layerSync := s.isLayerSync }
    let vp8Info := if s.lastBaseLayerSync && vp8Info.temporalIdx != 0 then
      { vp8Info with layerSync := true } else vp8Info
    let s := if vp8Info.temporalIdx = 0 ∧ timestamp ≠ s.timestamp then
      { s with timestamp, tl0PicIdx := s.tl0PicIdx + 1 } else s
    ({ s with lastBaseLayerSync := baseLayerSync },
      { vp8Info with tl0PicIdx := s.tl0PicIdx.toNat })

end DefaultTemporalLayers

/-! ## The encoder -/

/-- What the encoder is asked for: a key frame, or one that predicts from the last key frame, as
the receiver has acknowledged it. -/
inductive Request where
  | none
  | keyFrame
  | longTerm
  deriving DecidableEq, Repr

/-- One stream, without the feedback mode.
mirrors webrtc/modules/video_coding/codecs/vp8/vp8_impl.h:90-120 -/
structure VP8EncoderImpl where
  temporalLayers : DefaultTemporalLayers
  pictureId : UInt16
  deriving DecidableEq, Repr

/-- A frame that is to be encoded. -/
structure Capture where
  timestamp : UInt32
  request : Request := .none
  deriving DecidableEq, Repr

namespace VP8EncoderImpl

/-- mirrors webrtc/modules/video_coding/codecs/vp8/vp8_impl.cc:782-867 -/
def encode (s : VP8EncoderImpl) (c : Capture) : VP8EncoderImpl × EncodeFlags :=
  let (temporalLayers, flags) := s.temporalLayers.encodeFlags
  ({ s with temporalLayers }, match c.request with
    | .none => flags
    | .keyFrame => { forceKf := true }
    | .longTerm => { noUpdArf := true, noRefGf := true, noRefLast := true })

/-- mirrors webrtc/modules/video_coding/codecs/vp8/vp8_impl.cc:928-953 -/
def populateCodecSpecific (s : VP8EncoderImpl) (isKey : Bool) (c : Capture) :
    VP8EncoderImpl × VP8Header :=
  let baseLayerSyncPoint := isKey || c.request == .longTerm
  let (temporalLayers, vp8Info) := s.temporalLayers.populateCodecSpecific baseLayerSyncPoint
    { pictureId := s.pictureId.toNat } c.timestamp
  ({ temporalLayers, pictureId := (s.pictureId + 1) &&& 0x7FFF }, vp8Info)

end VP8EncoderImpl

/-- A frame that the codec has encoded, with the flags it was given. -/
structure Encoded where
  flags : EncodeFlags
  isKey : Bool
  vp8Info : VP8Header
  deriving DecidableEq, Repr

/-- The captures the codec has dropped since the last frame, and the one it has encoded; asked for
a key frame it makes one. -/
structure Output where
  dropped : List Capture := []
  capture : Capture
  isKey : Bool
  forced : capture.request = .keyFrame → isKey = true

/-- The encoder behind a frame, and the frame. -/
def VP8EncoderImpl.next (s : VP8EncoderImpl) (o : Output) : VP8EncoderImpl × Encoded :=
  let s := o.dropped.foldl (fun s c => (s.encode c).1) s
  let (s, flags) := s.encode o.capture
  let (s, vp8Info) := s.populateCodecSpecific o.isKey o.capture
  (s, { flags, isKey := o.isKey, vp8Info })

/-! ## The buffers -/

inductive Buffer where
  | last | golden | altref
  deriving DecidableEq, Repr

namespace Encoded

/-- The frame may predict from the buffer. -/
def uses (f : Encoded) : Buffer → Bool
  | .last => !f.isKey && !f.flags.noRefLast
  | .golden => !f.isKey && !f.flags.noRefGf
  | .altref => !f.isKey && !f.flags.noRefArf

/-- The frame replaces the buffer. -/
def updates (f : Encoded) : Buffer → Bool
  | .last => f.isKey || !f.flags.noUpdLast
  | .golden => f.isKey || !f.flags.noUpdGf
  | .altref => f.isKey || !f.flags.noUpdArf

theorem not_key_of_uses {f : Encoded} {b : Buffer} (h : f.uses b = true) : f.isKey = false := by
  cases hk : f.isKey with
  | false => rfl
  | true => cases b <;> exact absurd h (by simp [uses, hk])

end Encoded

/-! ## Two layers -/

/-- The pattern of two layers. -/
def twoLayerPattern : List TemporalReferences :=
  [.updateLastAndGoldenRefAltRef, .updateGoldenWithoutDependencyRefAltRef, .updateLastRefAltRef,
    .updateGoldenRefAltRef, .updateLastRefAltRef, .updateGoldenRefAltRef, .updateLastRefAltRef,
    .updateNone]

structure DefaultTemporalLayers.Two (s : DefaultTemporalLayers) : Prop where
  layers : s.numberOfTemporalLayers = 2
  ids : s.temporalIds = [0, 1]
  pattern : s.temporalPattern = twoLayerPattern

/-- Place `k` of the pattern: the base layer alone replaces the last frame, nothing replaces the
alternative one, and of the other layer the synced frame replaces the golden one, which it does not
use. -/
theorem twoLayerPattern_spec : ∀ k < 8,
    let r := twoLayerPattern[k]?.getD .updateLast
    r.flags.noUpdLast = (k % 2 != 0) ∧ r.flags.noUpdArf = true ∧
      (r.flags.noRefGf = false → k % 2 ≠ 0 ∧ r ≠ .updateGoldenWithoutDependencyRefAltRef) ∧
      (r = .updateGoldenWithoutDependencyRefAltRef → k % 2 ≠ 0 ∧ r.flags.noUpdGf = false) ∧
      r ∉ [.updateAltrefWithoutDependency, .updateGoldenWithoutDependency,
        .updateNoneNoRefGoldenRefAltRef] := by
  decide

namespace DefaultTemporalLayers

variable {s : DefaultTemporalLayers}

/-- The place in the pattern. -/
def place (s : DefaultTemporalLayers) : Nat := s.patternIdx.toNat % 8

theorem Two.currentLayerId_eq (h : s.Two) : s.currentLayerId = s.place % 2 := by
  unfold currentLayerId place
  rw [h.ids, Nat.mod_mod_of_dvd _ (by decide : 2 ∣ 8)]
  rcases Nat.mod_two_eq_zero_or_one s.patternIdx.toNat with hk | hk
  · simp [hk]
  · simp [hk]

theorem Two.temporalReference_eq (h : s.Two) :
    s.temporalReference = twoLayerPattern[s.place]?.getD .updateLast := by
  unfold temporalReference place
  rw [h.pattern]
  rfl

theorem Two.isLayerSync_iff (h : s.Two) :
    s.isLayerSync = true ↔ s.temporalReference = .updateGoldenWithoutDependencyRefAltRef := by
  obtain ⟨-, -, -, -, hno⟩ := twoLayerPattern_spec s.place (Nat.mod_lt _ (by decide))
  rw [← h.temporalReference_eq] at hno
  simp only [List.mem_cons, List.not_mem_nil, or_false, not_or] at hno
  unfold isLayerSync
  rw [h.layers]
  simp [hno]

end DefaultTemporalLayers

/-- The frame is a point to start from in the base layer. -/
def Output.baseLayerSync (o : Output) : Bool := o.isKey || o.capture.request == .longTerm

/-- What the flags and the information of a frame have to do with each other. -/
structure Encoded.Layered (f : Encoded) (sync lastSync : Bool) : Prop where
  key : f.isKey = true → sync = true
  layer : f.vp8Info.temporalIdx = 0 ∨ f.vp8Info.temporalIdx = 1
  base : sync = true → f.vp8Info.temporalIdx = 0
  last : f.updates .last = true ↔ f.vp8Info.temporalIdx = 0
  altref : f.updates .altref = true ↔ f.isKey = true
  golden : f.uses .golden = true → f.vp8Info.temporalIdx = 1 ∧
    (f.vp8Info.layerSync = true → lastSync = true)
  synced : f.vp8Info.layerSync = true → f.updates .golden = true ∨
    (f.vp8Info.temporalIdx = 1 ∧ lastSync = true)
  restart : sync = true → f.updates .golden = true

namespace VP8EncoderImpl

variable {s : VP8EncoderImpl}

/-- A capture that is dropped only moves on in the pattern. -/
theorem dropped_spec (h : s.temporalLayers.Two) (dropped : List Capture) :
    let s' := dropped.foldl (fun s c => (s.encode c).1) s
    s'.temporalLayers.Two ∧ s'.pictureId = s.pictureId ∧
      s'.temporalLayers.tl0PicIdx = s.temporalLayers.tl0PicIdx ∧
      s'.temporalLayers.timestamp = s.temporalLayers.timestamp ∧
      s'.temporalLayers.lastBaseLayerSync = s.temporalLayers.lastBaseLayerSync := by
  induction dropped generalizing s with
  | nil => exact ⟨h, rfl, rfl, rfl, rfl⟩
  | cons c dropped ih =>
    exact ih (s := (s.encode c).1) ⟨h.layers, h.ids, h.pattern⟩

/-- What a frame makes of the encoder. -/
structure Next (s s' : VP8EncoderImpl) (o : Output) (f : Encoded) : Prop where
  two : s'.temporalLayers.Two
  layered : f.Layered o.baseLayerSync s.temporalLayers.lastBaseLayerSync
  isKey : f.isKey = o.isKey
  lastSync : s'.temporalLayers.lastBaseLayerSync = o.baseLayerSync
  pictureId : f.vp8Info.pictureId = s.pictureId.toNat
  nextPictureId : s'.pictureId = (s.pictureId + 1) &&& 0x7FFF
  tl0PicIdx : f.vp8Info.tl0PicIdx = s'.temporalLayers.tl0PicIdx.toNat
  count : s'.temporalLayers.tl0PicIdx =
    if f.vp8Info.temporalIdx = 0 ∧ o.capture.timestamp ≠ s.temporalLayers.timestamp then
      s.temporalLayers.tl0PicIdx + 1 else s.temporalLayers.tl0PicIdx
  timestamp : s'.temporalLayers.timestamp =
    if f.vp8Info.temporalIdx = 0 then o.capture.timestamp else s.temporalLayers.timestamp

end VP8EncoderImpl

/-- What the layers say of a frame. -/
theorem DefaultTemporalLayers.Two.populate {s : DefaultTemporalLayers} (h : s.Two) (sync : Bool)
    (vp8Info : VP8Header) (timestamp : UInt32) :
    let r := s.populateCodecSpecific sync vp8Info timestamp
    r.1.Two ∧ r.1.lastBaseLayerSync = sync ∧ r.2.pictureId = vp8Info.pictureId ∧
      r.2.temporalIdx = (if sync then 0 else (s.place % 2 : Nat)) ∧
      (r.2.layerSync = true ↔ sync = true ∨
        s.temporalReference = .updateGoldenWithoutDependencyRefAltRef ∨
        s.lastBaseLayerSync = true ∧ r.2.temporalIdx ≠ 0) ∧
      r.2.tl0PicIdx = r.1.tl0PicIdx.toNat ∧
      r.1.tl0PicIdx = (if r.2.temporalIdx = 0 ∧ timestamp ≠ s.timestamp then s.tl0PicIdx + 1
        else s.tl0PicIdx) ∧
      r.1.timestamp = if r.2.temporalIdx = 0 then timestamp else s.timestamp := by
  have hlayers : s.numberOfTemporalLayers ≠ 1 := by
    rw [h.layers]
    decide
  have htwo : ∀ t u v w, DefaultTemporalLayers.Two ⟨s.numberOfTemporalLayers, s.temporalIds,
      s.temporalPattern, t, u, v, w⟩ := fun _ _ _ _ => ⟨h.layers, h.ids, h.pattern⟩
  have hlast : s.lastBaseLayerSync = true ∨ s.lastBaseLayerSync = false :=
    Bool.eq_false_or_eq_true _
  intro r
  simp only [r, populateCodecSpecific, if_neg hlayers, h.currentLayerId_eq, ← h.isLayerSync_iff]
  cases sync with
  | true =>
    simp only [if_true, bne_self_eq_false, Bool.and_false, Bool.false_eq_true, if_false, true_and]
    by_cases hts : timestamp = s.timestamp
    · simp [hts, htwo]
    · simp [hts, htwo]
  | false =>
    simp only [Bool.false_eq_true, if_false]
    rcases Nat.mod_two_eq_zero_or_one s.place with hk | hk
    · by_cases hts : timestamp = s.timestamp
      · simp [hk, hts, htwo]
      · simp [hk, hts, htwo]
    · rcases hlast with hl | hl
      · simp [hk, hl, htwo]
      · simp [hk, hl, htwo]

/-- Asked for a key frame the codec makes one. -/
theorem Output.cases (o : Output) : o.isKey = true ∧ o.baseLayerSync = true ∨
    o.isKey = false ∧ o.capture.request = .longTerm ∧ o.baseLayerSync = true ∨
    o.isKey = false ∧ o.capture.request = .none ∧ o.baseLayerSync = false := by
  have hforced := o.forced
  unfold Output.baseLayerSync
  cases hk : o.isKey with
  | true => exact .inl ⟨rfl, rfl⟩
  | false =>
    cases hr : o.capture.request with
    | none => exact .inr (.inr ⟨rfl, rfl, rfl⟩)
    | keyFrame => exact absurd ((hforced hr).symm.trans hk) (by decide)
    | longTerm => exact .inr (.inl ⟨rfl, rfl, rfl⟩)

namespace Encoded

variable {f : Encoded} {sync lastSync : Bool}

theorem layered_key (hkey : f.isKey = true) (hsync : sync = true)
    (hbase : f.vp8Info.temporalIdx = 0) : f.Layered sync lastSync where
  key _ := hsync
  layer := .inl hbase
  base _ := hbase
  last := iff_of_true (by rw [updates, hkey]; rfl) hbase
  altref := iff_of_true (by rw [updates, hkey]; rfl) hkey
  golden h := by
    rw [uses, hkey] at h
    exact nomatch h
  synced _ := .inl (by rw [updates, hkey]; rfl)
  restart _ := by rw [updates, hkey]; rfl

theorem layered_longTerm (hkey : f.isKey = false)
    (hflags : f.flags = { noUpdArf := true, noRefGf := true, noRefLast := true })
    (hbase : f.vp8Info.temporalIdx = 0) : f.Layered sync lastSync where
  key h := absurd (h.symm.trans hkey) (by decide)
  layer := .inl hbase
  base _ := hbase
  last := iff_of_true (by rw [updates, hflags, hkey]; rfl) hbase
  altref := iff_of_false (by rw [updates, hflags, hkey]; decide) (by rw [hkey]; decide)
  golden h := by
    rw [uses, hflags, hkey] at h
    exact nomatch h
  synced _ := .inl (by rw [updates, hflags, hkey]; rfl)
  restart _ := by rw [updates, hflags, hkey]; rfl

/-- A frame that goes by place `k` of the pattern. -/
theorem layered_place {k : Nat} (hk : k < 8) (hkey : f.isKey = false) (hsync : sync = false)
    (hflags : f.flags = (twoLayerPattern[k]?.getD .updateLast).flags)
    (hlayer : f.vp8Info.temporalIdx = (k % 2 : Nat))
    (hlayerSync : f.vp8Info.layerSync = true ↔
      twoLayerPattern[k]?.getD .updateLast = .updateGoldenWithoutDependencyRefAltRef ∨
        lastSync = true ∧ f.vp8Info.temporalIdx ≠ 0) : f.Layered sync lastSync := by
  obtain ⟨hupdLast, hupdArf, hrefGf, hwithout, -⟩ := twoLayerPattern_spec k hk
  rw [← hflags] at hupdLast hupdArf hrefGf hwithout
  have hone : k % 2 ≠ 0 → f.vp8Info.temporalIdx = 1 := fun h => by
    rw [hlayer]
    omega
  refine ⟨fun h => ?_, by rw [hlayer]; omega, fun h => ?_, ?_, ?_, fun h => ?_, fun h => ?_,
    fun h => ?_⟩
  · exact absurd (h.symm.trans hkey) (by decide)
  · exact absurd (h.symm.trans hsync) (by decide)
  · rw [updates, hkey, hupdLast, hlayer]
    rcases Nat.mod_two_eq_zero_or_one k with h | h
    · rw [h]
      decide
    · rw [h]
      decide
  · rw [updates, hkey, hupdArf]
    decide
  · rw [uses, hkey] at h
    obtain ⟨hodd, hne⟩ := hrefGf (by simpa using h)
    exact ⟨hone hodd, fun hs => ((hlayerSync.1 hs).resolve_left hne).1⟩
  · rcases hlayerSync.1 h with hr | ⟨hl, hne⟩
    · refine .inl ?_
      rw [updates, (hwithout hr).2]
      exact Bool.or_true _
    · refine .inr ⟨hone fun hz => hne ?_, hl⟩
      rw [hlayer, hz]
      rfl
  · exact absurd (h.symm.trans hsync) (by decide)

end Encoded

namespace VP8EncoderImpl

variable {s : VP8EncoderImpl}

theorem next_spec (h : s.temporalLayers.Two) (o : Output) : s.Next (s.next o).1 o (s.next o).2 := by
  obtain ⟨htwo, hid, htl0, hts, hlast⟩ := dropped_spec h o.dropped
  generalize hs₁ : o.dropped.foldl (fun s c => (s.encode c).1) s = s₁ at htwo hid htl0 hts hlast
  have hs₂ : (s₁.encode o.capture).1.temporalLayers.Two := ⟨htwo.layers, htwo.ids, htwo.pattern⟩
  obtain ⟨htwo', hlast', hid', hlayer, hsync, htl0', hcount, hts'⟩ :=
    hs₂.populate o.baseLayerSync { pictureId := (s₁.encode o.capture).1.pictureId.toNat }
      o.capture.timestamp
  have hnext : s.next o = (((s₁.encode o.capture).1.populateCodecSpecific o.isKey o.capture).1,
      { flags := (s₁.encode o.capture).2, isKey := o.isKey
        vp8Info := ((s₁.encode o.capture).1.populateCodecSpecific o.isKey o.capture).2 }) := by
    rw [← hs₁]
    rfl
  rw [hnext]
  refine ⟨htwo', ?_, rfl, hlast', hid'.trans (congrArg _ (congrArg _ hid)),
    congrArg (fun p : UInt16 => (p + 1) &&& 0x7FFF) hid, htl0', ?_, ?_⟩
  · have hlayer' : o.baseLayerSync = false →
        ((s₁.encode o.capture).1.populateCodecSpecific o.isKey o.capture).2.temporalIdx =
          ((s₁.encode o.capture).1.temporalLayers.place % 2 : Nat) :=
      fun hb => hlayer.trans (by rw [hb]; rfl)
    have hbase : o.baseLayerSync = true →
        ((s₁.encode o.capture).1.populateCodecSpecific o.isKey o.capture).2.temporalIdx = 0 :=
      fun hb => hlayer.trans (by rw [hb]; rfl)
    rcases o.cases with ⟨hkey, hb⟩ | ⟨hkey, hreq, hb⟩ | ⟨hkey, hreq, hb⟩
    · exact Encoded.layered_key hkey hb (hbase hb)
    · refine Encoded.layered_longTerm hkey ?_ (hbase hb)
      simp only [encode, hreq]
    · refine Encoded.layered_place (k := (s₁.encode o.capture).1.temporalLayers.place)
        (Nat.mod_lt _ (by decide)) hkey hb ?_ (hlayer' hb) ?_
      · rw [← hs₂.temporalReference_eq]
        simp only [encode, hreq]
        rfl
      · rw [← hs₂.temporalReference_eq, ← hlast]
        exact hsync.trans (or_iff_right (by rw [hb]; exact Bool.false_ne_true))
  · exact hcount.trans (by rw [← htl0, ← hts]; rfl)
  · exact hts'.trans (by rw [← hts]; rfl)

end VP8EncoderImpl

/-! ## Runs -/

/-- An encoder with two layers, and what the codec makes of the captures. The first frame is a key
frame. -/
structure Sending where
  tl0PicIdx : UInt8
  pictureId : UInt16
  pictureId_lt : pictureId.toNat < 32768
  output : Nat → Output
  first : (output 0).isKey = true

namespace Sending

variable (a : Sending)

def start : VP8EncoderImpl where
  temporalLayers := ({ numberOfTemporalLayers := 2, tl0PicIdx := a.tl0PicIdx } :
    DefaultTemporalLayers).configureBitrates.get rfl
  pictureId := a.pictureId

/-- The encoder before frame `i`. -/
def encoder : Nat → VP8EncoderImpl
  | 0 => a.start
  | i + 1 => ((encoder i).next (a.output i)).1

def sent (i : Nat) : Encoded := ((a.encoder i).next (a.output i)).2

def temporalIdx (i : Nat) : Int := (a.sent i).vp8Info.temporalIdx

/-- Two frames of the base layer, one after the other, are captured at different times. -/
def Distinct : Prop := ∀ i j, i < j → a.temporalIdx i = 0 → a.temporalIdx j = 0 →
  (∀ k, i < k → k < j → a.temporalIdx k ≠ 0) →
  (a.output j).capture.timestamp ≠ (a.output i).capture.timestamp

variable {a} {i : Nat}

theorem encoder_two (i : Nat) : (a.encoder i).temporalLayers.Two := by
  induction i with
  | zero => exact ⟨rfl, rfl, rfl⟩
  | succ i ih => exact (VP8EncoderImpl.next_spec ih (a.output i)).two

theorem next (i : Nat) : (a.encoder i).Next (a.encoder (i + 1)) (a.output i) (a.sent i) :=
  VP8EncoderImpl.next_spec (encoder_two i) (a.output i)

theorem layered (i : Nat) : (a.sent i).Layered (a.output i).baseLayerSync
    (a.encoder i).temporalLayers.lastBaseLayerSync := (next i).layered

theorem temporalIdx_cases (i : Nat) : a.temporalIdx i = 0 ∨ a.temporalIdx i = 1 :=
  (layered i).layer

theorem temporalIdx_of_key (h : (a.sent i).isKey = true) : a.temporalIdx i = 0 :=
  (layered i).base ((layered i).key h)

theorem key_zero : (a.sent 0).isKey = true := (next 0).isKey.trans a.first

/-- The encoder has the time of the latest base frame. -/
theorem timestamp_eq (i : Nat) : ∃ j, j ≤ i ∧ a.temporalIdx j = 0 ∧
    (∀ k, j < k → k ≤ i → a.temporalIdx k ≠ 0) ∧
    (a.encoder (i + 1)).temporalLayers.timestamp = (a.output j).capture.timestamp := by
  induction i with
  | zero =>
    have hbase : a.temporalIdx 0 = 0 := temporalIdx_of_key key_zero
    exact ⟨0, Nat.le_refl 0, hbase, fun k h1 h2 => by omega,
      (next 0).timestamp.trans (if_pos hbase)⟩
  | succ i ih =>
    obtain ⟨j, hj, hbase, hno, hts⟩ := ih
    by_cases hi : a.temporalIdx (i + 1) = 0
    · exact ⟨i + 1, Nat.le_refl _, hi, fun k h1 h2 => by omega,
        (next (i + 1)).timestamp.trans (if_pos hi)⟩
    · refine ⟨j, by omega, hbase, fun k h1 h2 => ?_,
        ((next (i + 1)).timestamp.trans (if_neg hi)).trans hts⟩
      by_cases hk : k = i + 1
      · exact hk ▸ hi
      · exact hno k h1 (by omega)

theorem tl0PicIdx_succ (h : a.Distinct) (i : Nat) : (a.sent (i + 1)).vp8Info.tl0PicIdx =
    if a.temporalIdx (i + 1) = 0 then ((a.sent i).vp8Info.tl0PicIdx + 1) % 256
    else (a.sent i).vp8Info.tl0PicIdx := by
  have hcount := (next (a := a) (i + 1)).count
  rw [(next (i + 1)).tl0PicIdx, (next i).tl0PicIdx, hcount]
  by_cases hbase : a.temporalIdx (i + 1) = 0
  · obtain ⟨j, hj, hbase', hno, hts⟩ := timestamp_eq (a := a) i
    have hne := h j (i + 1) (by omega) hbase' hbase fun k h1 h2 => hno k h1 (by omega)
    rw [if_pos ⟨hbase, by rw [hts]; exact hne⟩, if_pos hbase, UInt8.toNat_add]
    rfl
  · rw [if_neg (fun hc => hbase hc.1), if_neg hbase]

theorem pictureId_encoder (i : Nat) : (a.encoder i).pictureId.toNat < 32768 := by
  cases i with
  | zero => exact a.pictureId_lt
  | succ i =>
    rw [(next i).nextPictureId, UInt16.toNat_and]
    exact Nat.lt_of_le_of_lt Nat.and_le_right (by decide)

theorem pictureId_succ (i : Nat) : (a.sent (i + 1)).vp8Info.pictureId =
    ((a.sent i).vp8Info.pictureId + 1) % 2 ^ 15 := by
  have hlt := pictureId_encoder (a := a) i
  have hand : (((a.encoder i).pictureId + 1) &&& 0x7FFF).toNat =
      ((a.encoder i).pictureId.toNat + 1) % 2 ^ 15 := by
    rw [UInt16.toNat_and, UInt16.toNat_add]
    refine (Nat.and_two_pow_sub_one_eq_mod _ 15).trans ?_
    simp only [UInt16.reduceToNat]
    omega
  rw [(next (i + 1)).pictureId, (next i).pictureId, (next i).nextPictureId, hand]
  rfl

/-- The receiver's frames: what a session knows of frame `i` is what the encoder said of it. -/
structure Received (a : Sending) where
  frame : Nat → FrameBuffer
  isKey : ∀ i, (frame i).isKey = (a.sent i).isKey
  pictureId : ∀ i, (frame i).session.pictureId = (a.sent i).vp8Info.pictureId
  temporalId : ∀ i, (frame i).session.temporalId = (a.sent i).vp8Info.temporalIdx
  layerSync : ∀ i, (frame i).session.layerSync = (a.sent i).vp8Info.layerSync
  tl0PicId : ∀ i, (frame i).session.tl0PicId = (a.sent i).vp8Info.tl0PicIdx

/-- The frames of two layers make a stream in layers. -/
def stream (h : a.Distinct) (r : a.Received) : LayeredStream where
  frame := r.frame
  bits := 15
  bits_eq := .inr rfl
  pictureId_range := by
    have hlt := pictureId_encoder (a := a) 0
    rw [r.pictureId, (next 0).pictureId]
    exact ⟨Int.natCast_nonneg _, Int.ofNat_lt.2 hlt⟩
  pictureId_succ i := by
    rw [r.pictureId, r.pictureId]
    exact pictureId_succ i
  temporalId_eq i := by
    rw [r.temporalId]
    exact temporalIdx_cases i
  tl0_range := by
    have hlt := (a.encoder 1).temporalLayers.tl0PicIdx.toNat_lt
    rw [r.tl0PicId, (next 0).tl0PicIdx]
    exact ⟨Int.natCast_nonneg _, Int.ofNat_lt.2 hlt⟩
  tl0_succ i := by
    rw [r.tl0PicId, r.tl0PicId, r.temporalId]
    exact tl0PicIdx_succ h i
  key_base i hk := by
    rw [r.isKey] at hk
    rw [r.temporalId]
    exact temporalIdx_of_key hk

/-! ## References -/

/-- The frame that the encoder has in a buffer before frame `i`. -/
def encoderHolds (a : Sending) (b : Buffer) (i : Nat) : Option Nat :=
  latest (fun k => (a.sent k).updates b = true) i

/-- The frame that a decoder has there which only gets the accepted frames. -/
def decoderHolds (a : Sending) (accepted : List Nat) (b : Buffer) (i : Nat) : Option Nat :=
  latest (fun k => k ∈ accepted ∧ (a.sent k).updates b = true) i

section References

variable {h : a.Distinct} {r : a.Received} {accepted : List Nat}

theorem stream_base : (a.stream h r).Base i ↔ a.temporalIdx i = 0 := by
  rw [LayeredStream.Base, stream, r.temporalId]
  rfl

theorem stream_key : (a.stream h r).Key i ↔ (a.sent i).isKey = true := by
  rw [LayeredStream.Key, stream, r.isKey]

theorem stream_layerSync : ((a.stream h r).frame i).session.layerSync =
    (a.sent i).vp8Info.layerSync := r.layerSync i

theorem updates_last_iff : (a.sent i).updates .last = true ↔ (a.stream h r).Base i :=
  (layered i).last.trans stream_base.symm

/-- The base frame before an accepted frame. -/
theorem base_before (hs : LayeredStream.Sound (a.stream h r) accepted i)
    (hk : (a.sent i).isKey = false) : ∃ j ∈ accepted, j < i ∧ (a.stream h r).Base j ∧
      ∀ k, j < k → k < i → ¬(a.stream h r).Base k := by
  by_cases hb : (a.stream h r).Base i
  · obtain ⟨j, hj, hji, hbj, -, hno⟩ := hs.base hb fun hc =>
      absurd (stream_key.1 hc) (by rw [hk]; exact Bool.false_ne_true)
    exact ⟨j, hj, hji, hbj, hno⟩
  · obtain ⟨j, hj, hji, hbj, -, hno⟩ := hs.layer hb
    exact ⟨j, hj, hji, hbj, hno⟩

theorem last_held (hs : LayeredStream.Sound (a.stream h r) accepted i)
    (hk : (a.sent i).isKey = false) : ∃ m ∈ accepted, a.encoderHolds .last i = some m := by
  obtain ⟨j, hj, hji, hbj, hno⟩ := base_before hs hk
  refine ⟨j, hj, latest_eq_some.2 ⟨hji, updates_last_iff.2 hbj, fun k h1 h2 hu => ?_⟩⟩
  exact hno k h1 h2 (updates_last_iff.1 hu)

/-- Base frames lead from an accepted frame back to the last key frame. -/
theorem key_before (hs : ∀ i ∈ accepted, LayeredStream.Sound (a.stream h r) accepted i)
    (hi : i ∈ accepted) : ∃ m ∈ accepted, m ≤ i ∧ (a.sent m).isKey = true ∧
      ∀ k, m < k → k ≤ i → (a.sent k).isKey = false := by
  induction i using Nat.strongRecOn with
  | ind i ih =>
    cases hk : (a.sent i).isKey with
    | true => exact ⟨i, hi, Nat.le_refl i, hk, fun k h1 h2 => by omega⟩
    | false =>
      obtain ⟨j, hj, hji, -, hno⟩ := base_before (hs i hi) hk
      obtain ⟨m, hm, hmj, hkey, hrest⟩ := ih j hji hj
      refine ⟨m, hm, by omega, hkey, fun k h1 h2 => ?_⟩
      by_cases hkj : k ≤ j
      · exact hrest k h1 hkj
      · by_cases hki : k = i
        · exact hki ▸ hk
        · refine Bool.eq_false_iff.2 fun hc => hno k (by omega) (by omega) ?_
          exact stream_base.2 (temporalIdx_of_key hc)

theorem altref_held (hs : ∀ i ∈ accepted, LayeredStream.Sound (a.stream h r) accepted i)
    (hi : i ∈ accepted) (hk : (a.sent i).isKey = false) :
    ∃ m ∈ accepted, a.encoderHolds .altref i = some m := by
  obtain ⟨m, hm, hmi, hkey, hno⟩ := key_before hs hi
  have hne : m ≠ i := by
    rintro rfl
    exact absurd (hkey.symm.trans hk) (by decide)
  refine ⟨m, hm, latest_eq_some.2 ⟨by omega, (layered m).altref.2 hkey, fun k h1 h2 hu => ?_⟩⟩
  exact absurd (((layered k).altref.1 hu).symm.trans (hno k h1 (by omega))) (by decide)

/-- The frame behind a point to start from in the base layer. -/
theorem lastSync_iff {n : Nat} : (a.encoder (n + 1)).temporalLayers.lastBaseLayerSync = true ↔
    (a.output n).baseLayerSync = true := by
  rw [(next n).lastSync]

theorem not_lastSync_zero : (a.encoder 0).temporalLayers.lastBaseLayerSync = false := rfl

/-- A frame of the other layer behind such a point has it for its base frame, which replaces the
golden buffer. -/
theorem restart_before (hs : LayeredStream.Sound (a.stream h r) accepted i)
    (hlayer : a.temporalIdx i = 1)
    (hlast : (a.encoder i).temporalLayers.lastBaseLayerSync = true) :
    ∃ m ∈ accepted, m + 1 = i ∧ (a.sent m).updates .golden = true := by
  cases i with
  | zero =>
    rw [not_lastSync_zero] at hlast
    exact nomatch hlast
  | succ n =>
    have hsync := lastSync_iff.1 hlast
    have hbase : (a.stream h r).Base n := stream_base.2 ((layered n).base hsync)
    obtain ⟨j, hj, hjn, -, -, hno⟩ := hs.layer fun hc => by
      rw [stream_base, hlayer] at hc
      exact absurd hc (by decide)
    have hjeq : j = n := by
      refine Nat.le_antisymm (Nat.le_of_lt_succ hjn) (Nat.not_lt.1 fun hlt => ?_)
      exact hno n hlt (Nat.lt_succ_self n) hbase
    exact ⟨n, hjeq ▸ hj, rfl, (layered n).restart hsync⟩

theorem golden_held (hs : ∀ i ∈ accepted, LayeredStream.Sound (a.stream h r) accepted i)
    (hi : i ∈ accepted) (hu : (a.sent i).uses .golden = true) :
    ∃ m ∈ accepted, a.encoderHolds .golden i = some m := by
  obtain ⟨hlayer, hrestart⟩ := (layered i).golden hu
  cases hsync : (a.sent i).vp8Info.layerSync with
  | true =>
    obtain ⟨m, hm, hmi, hup⟩ := restart_before (hs i hi) hlayer (hrestart hsync)
    exact ⟨m, hm, latest_eq_some.2 ⟨by omega, hup, fun k h1 h2 => by omega⟩⟩
  | false =>
    have hnb : ¬(a.stream h r).Base i := fun hc => by
      rw [stream_base, temporalIdx, hlayer] at hc
      exact absurd hc (by decide)
    obtain ⟨j, hji, hsj, -, hall⟩ := (hs i hi).back hnb (stream_layerSync.trans hsync)
    -- from the frame that restored the sync on all are accepted, and it or the one before replaces
    have hstart : ∃ m ∈ accepted, m ≤ j ∧ (a.sent m).updates .golden = true ∧
        ∀ k, m ≤ k → k < i → k ∈ accepted := by
      have hj : j ∈ accepted := hall j (Nat.le_refl j) hji
      rcases hsj with hkey | hsync'
      · refine ⟨j, hj, Nat.le_refl j, ?_, hall⟩
        exact (layered j).restart ((layered j).key (stream_key.1 hkey))
      · rcases (layered j).synced (stream_layerSync.symm.trans hsync') with hup | ⟨hl, hlast⟩
        · exact ⟨j, hj, Nat.le_refl j, hup, hall⟩
        · obtain ⟨m, hm, hmj, hup⟩ := restart_before (hs j hj) hl hlast
          refine ⟨m, hm, by omega, hup, fun k h1 h2 => ?_⟩
          by_cases hk : k = m
          · exact hk ▸ hm
          · exact hall k (by omega) h2
    obtain ⟨m, -, hmj, hup, hrest⟩ := hstart
    obtain ⟨k, hk, hmk⟩ := exists_latest (p := fun k => (a.sent k).updates .golden = true)
      (n := i) hup (by omega)
    exact ⟨k, hrest k hmk (latest_eq_some.1 hk).1, hk⟩

/-- What an accepted frame uses is accepted. -/
theorem used_accepted (hs : ∀ i ∈ accepted, LayeredStream.Sound (a.stream h r) accepted i)
    (hi : i ∈ accepted) {b : Buffer} (hu : (a.sent i).uses b = true) :
    ∃ m ∈ accepted, a.encoderHolds b i = some m := by
  have hk := Encoded.not_key_of_uses hu
  cases b with
  | last => exact last_held (hs i hi) hk
  | golden => exact golden_held hs hi hu
  | altref => exact altref_held hs hi hk

/-- Whatever frames are lost: every buffer that an accepted frame may predict from has the same
frame in the decoder as in the encoder, and that frame is accepted as well. -/
theorem decodes (h : a.Distinct) (r : a.Received) {s : LayeredStream.Offered}
    (hr : (LayeredStream.closeOffers (a.stream h r)).Reachable s) :
    ∀ i ∈ s.accepted, ∀ b, (a.sent i).uses b = true → ∃ m ∈ s.accepted, m < i ∧
      a.encoderHolds b i = some m ∧ a.decoderHolds s.accepted b i = some m := by
  intro i hi b hu
  have hs := ((LayeredStream.closeOffers_inductive (a.stream h r)).reachable s hr).sound
  obtain ⟨m, hm, hheld⟩ := used_accepted hs hi hu
  obtain ⟨hmi, hup, -⟩ := latest_eq_some.1 hheld
  exact ⟨m, hm, hmi, hheld, latest_of_sub (fun k hk => hk.2) hheld ⟨hm, hup⟩⟩

end References

/-! ## A stream -/

/-- The frame in one packet. -/
def packed (f : Encoded) (i : Nat) : FrameBuffer where
  id := i
  session := {
    frameType := if f.isKey then .key else .delta
    packets := [{
      pkt := VCMPacket.ofRtp [] 0 i.toUInt16 true (if f.isKey then .key else .delta)
        { isFirstPacket := true, codec := .vp8 f.vp8Info }
      dataPtr := 0, sizeBytes := 0 }] }

/-- Every frame arrives as it was sent. -/
def received (a : Sending) : a.Received where
  frame i := packed (a.sent i) i
  isKey i := by
    have hkey : (packed (a.sent i) i).frameType = if (a.sent i).isKey then .key else .delta := rfl
    rw [FrameBuffer.isKey, hkey]
    cases (a.sent i).isKey <;> rfl
  pictureId _ := rfl
  temporalId _ := rfl
  layerSync _ := rfl
  tl0PicId _ := rfl

/-- Every fourth frame predicts from the first one, a key frame. -/
def fourths : Sending where
  tl0PicIdx := 254
  pictureId := 32766
  pictureId_lt := by decide
  output i := {
    capture := { timestamp := UInt32.ofNat i
                 request := if i % 4 = 0 ∧ 0 < i then .longTerm else .none }
    isKey := i == 0
    forced := fun h => by
      split at h
      · exact nomatch h
      · exact nomatch h }
  first := rfl

theorem fourths_distinct : fourths.Distinct := by
  intro i j hij _ _ hno hts
  have hbase : fourths.temporalIdx (4 * (i / 4 + 1)) = 0 := by
    refine (layered _).base ?_
    have hreq : (fourths.output (4 * (i / 4 + 1))).capture.request = .longTerm :=
      if_pos ⟨by omega, by omega⟩
    rw [Output.baseLayerSync, hreq]
    exact Bool.or_true _
  have hle : j ≤ 4 * (i / 4 + 1) := Nat.not_lt.1 fun hlt => hno _ (by omega) hlt hbase
  have hmod : j % 4294967296 = i % 4294967296 := by
    have := congrArg UInt32.toNat hts
    exact this
  omega

/-- Frames 3 and 6 are lost. The one behind 4 uses it, the one behind 6 is not accepted. -/
theorem decodes_fourths :
    (([0, 1, 2, 4, 5, 7].foldl (LayeredStream.offer (fourths.stream fourths_distinct
      (received fourths))) {}).accepted = [5, 4, 2, 1, 0]) ∧
    ∃ m ∈ [5, 4, 2, 1, 0], m < 5 ∧ fourths.encoderHolds .golden 5 = some m ∧
      fourths.decoderHolds [5, 4, 2, 1, 0] .golden 5 = some m := by
  have hacc : ([0, 1, 2, 4, 5, 7].foldl (LayeredStream.offer (fourths.stream fourths_distinct
      (received fourths))) {}).accepted = [5, 4, 2, 1, 0] := by
    decide
  have hstep {s : LayeredStream.Offered} {i : Nat} (hpos : s.pos ≤ i)
      (hgap : s.accepted.head?.all (fun l => i - l - 1 < 100) = true) :=
    LayeredStream.closeOffers_step (v := fourths.stream fourths_distinct (received fourths))
      hpos hgap
  have hr : (LayeredStream.closeOffers (fourths.stream fourths_distinct
      (received fourths))).Reachable ([0, 1, 2, 4, 5, 7].foldl (LayeredStream.offer
        (fourths.stream fourths_distinct (received fourths))) {}) :=
    ⟨{}, [0, 1, 2, 4, 5, 7], rfl,
      .cons (hstep (by decide) (by decide)) <|
      .cons (hstep (by decide) (by decide)) <|
      .cons (hstep (by decide) (by decide)) <|
      .cons (hstep (by decide) (by decide)) <|
      .cons (hstep (by decide) (by decide)) <|
      .cons (hstep (by decide) (by decide)) <| .nil _⟩
  have h := decodes fourths_distinct (received fourths) hr 5 (by rw [hacc]; decide) .golden
    (by decide)
  rw [hacc] at h
  exact ⟨hacc, h⟩

end Sending

end RtcCore.L3
