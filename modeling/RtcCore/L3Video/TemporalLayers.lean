import RtcCore.Core.LTS
import RtcCore.L3Video.FrameBuffer

/-!
# Two temporal layers: what `VCMDecodingState` lets through

A stream of frames in two temporal layers, offered to the decoding state in
order with any of them missing. A base frame goes by its TL0PICIDX, a frame of
layer 1 by its picture id, and the sticky `full_sync_` stands for "nothing was
skipped since the last key or layer-sync frame".

Results:
- `layers_sound`: as long as fewer than 100 frames lie between two accepted
  ones, every accepted base frame has its predecessor accepted, every accepted
  frame of layer 1 its base frame, and without layer sync every frame back to
  the latest key or layer-sync frame.
-/
namespace RtcCore.L3

/-- Frames 0, 1, … with picture ids of `bits` bits. The encoder puts key frames in the base layer
(webrtc/modules/video_coding/codecs/vp8/default_temporal_layers.cc:256-258). -/
structure LayeredStream where
  frame : Nat → FrameBuffer
  bits : Nat
  bits_eq : bits = 7 ∨ bits = 15
  pictureId_range : 0 ≤ (frame 0).session.pictureId ∧ (frame 0).session.pictureId < 2 ^ bits
  pictureId_succ : ∀ i, (frame (i + 1)).session.pictureId =
    ((frame i).session.pictureId + 1) % 2 ^ bits
  temporalId_eq : ∀ i, (frame i).session.temporalId = 0 ∨ (frame i).session.temporalId = 1
  tl0_range : 0 ≤ (frame 0).session.tl0PicId ∧ (frame 0).session.tl0PicId < 256
  tl0_succ : ∀ i, (frame (i + 1)).session.tl0PicId =
    if (frame (i + 1)).session.temporalId = 0 then ((frame i).session.tl0PicId + 1) % 256
    else (frame i).session.tl0PicId
  key_base : ∀ i, (frame i).isKey = true → (frame i).session.temporalId = 0

namespace LayeredStream

variable (v : LayeredStream)

def Base (i : Nat) : Prop := (v.frame i).session.temporalId = 0
def Key (i : Nat) : Prop := (v.frame i).isKey = true
def tl0 (i : Nat) : Int := (v.frame i).session.tl0PicId
def pictureId (i : Nat) : Int := (v.frame i).session.pictureId

/-- A frame no earlier one of its layer is needed for. -/
def Sync (i : Nat) : Prop := (v.frame i).isKey = true ∨ (v.frame i).session.layerSync = true

instance (i : Nat) : Decidable (v.Base i) := inferInstanceAs (Decidable (_ = _))
instance (i : Nat) : Decidable (v.Key i) := inferInstanceAs (Decidable (_ = _))
instance (i : Nat) : Decidable (v.Sync i) := inferInstanceAs (Decidable (_ ∨ _))

/-! ## The counters over a gap -/

/-- How many of the `n` frames behind `i` are base frames. -/
def basesAfter (i : Nat) : Nat → Nat
  | 0 => 0
  | n + 1 => basesAfter i n + if v.Base (i + n + 1) then 1 else 0

variable {v}

theorem pictureId_bounds (i : Nat) : 0 ≤ v.pictureId i ∧ v.pictureId i < 2 ^ v.bits := by
  have hpos : (0 : Int) < 2 ^ v.bits := Int.pow_pos (by decide)
  cases i with
  | zero => exact v.pictureId_range
  | succ i =>
    rw [pictureId, v.pictureId_succ]
    exact ⟨Int.emod_nonneg _ (by omega), Int.emod_lt_of_pos _ hpos⟩

theorem pictureId_add (i n : Nat) : v.pictureId (i + n) = (v.pictureId i + n) % 2 ^ v.bits := by
  induction n with
  | zero =>
    obtain ⟨h0, h1⟩ := pictureId_bounds (v := v) i
    rw [Nat.add_zero, Int.natCast_zero, Int.add_zero, Int.emod_eq_of_lt h0 h1]
  | succ n ih =>
    rw [← Nat.add_assoc, pictureId, v.pictureId_succ, ← pictureId, ih, Int.emod_add_emod,
      Int.add_assoc]
    rfl

theorem tl0_base {i : Nat} (h : v.Base (i + 1)) : v.tl0 (i + 1) = (v.tl0 i + 1) % 256 :=
  (v.tl0_succ i).trans (if_pos h)

theorem tl0_layer {i : Nat} (h : ¬v.Base (i + 1)) : v.tl0 (i + 1) = v.tl0 i :=
  (v.tl0_succ i).trans (if_neg h)

theorem tl0_bounds (i : Nat) : 0 ≤ v.tl0 i ∧ v.tl0 i < 256 := by
  induction i with
  | zero => exact v.tl0_range
  | succ i ih =>
    by_cases h : v.Base (i + 1)
    · rw [tl0_base h]
      omega
    · rw [tl0_layer h]
      exact ih

theorem tl0_add (i n : Nat) : v.tl0 (i + n) = (v.tl0 i + v.basesAfter i n) % 256 := by
  induction n with
  | zero =>
    have := tl0_bounds (v := v) i
    rw [Nat.add_zero, basesAfter]
    omega
  | succ n ih =>
    rw [← Nat.add_assoc, basesAfter]
    by_cases h : v.Base (i + n + 1)
    · rw [tl0_base h, if_pos h, ih]
      omega
    · rw [tl0_layer h, if_neg h, ih]
      rfl

theorem basesAfter_le (i n : Nat) : v.basesAfter i n ≤ n := by
  induction n with
  | zero => exact Nat.le_refl _
  | succ n ih =>
    rw [basesAfter]
    split <;> omega

theorem basesAfter_zero {i n : Nat} (h : v.basesAfter i n = 0) {k : Nat} (hik : i < k)
    (hkn : k ≤ i + n) : ¬v.Base k := by
  induction n with
  | zero => omega
  | succ n ih =>
    rw [basesAfter] at h
    by_cases hk : k = i + n + 1
    · intro hb
      rw [← hk, if_pos hb] at h
      omega
    · exact ih (by omega) (by omega)

/-- Every frame has a temporal id and an index. -/
theorem layer_present (i : Nat) : ¬((v.frame i).session.temporalId = kNoTemporalIdx ∨
    (v.frame i).session.tl0PicId = kNoTl0PicIdx) := by
  rintro (hc | hc)
  · rcases v.temporalId_eq i with ht | ht
    · rw [hc] at ht
      cases ht
    · rw [hc] at ht
      cases ht
  · have := (tl0_bounds (v := v) i).1
    rw [tl0, hc, kNoTl0PicIdx] at this
    omega

/-! ## The judgements of the decoding state -/

/-- The decoding state after frame `l`. -/
structure At (v : LayeredStream) (l : Nat) (d : DecodingState) : Prop where
  pictureId : d.pictureId = v.pictureId l
  temporalId : d.temporalId = (v.frame l).session.temporalId
  tl0PicId : d.tl0PicId = v.tl0 l
  started : d.inInitialState = false

variable {d : DecodingState} {l i : Nat}

theorem setState_at (d : DecodingState) (i : Nat) : At v i (d.setState (v.frame i)) :=
  ⟨rfl, rfl, rfl, rfl⟩

theorem usingPictureId_at (h : At v l d) (i : Nat) : d.usingPictureId (v.frame i) = true := by
  have h1 : (v.frame i).session.pictureId ≠ kNoPictureId := fun hc => by
    have := (pictureId_bounds (v := v) i).1
    rw [pictureId, hc, kNoPictureId] at this
    omega
  have h2 : d.pictureId ≠ kNoPictureId := fun hc => by
    have := (pictureId_bounds (v := v) l).1
    rw [← h.pictureId, hc, kNoPictureId] at this
    omega
  rw [DecodingState.usingPictureId, Bool.and_eq_true]
  exact ⟨bne_iff_ne.2 h1, bne_iff_ne.2 h2⟩

/-- The picture id of a frame less than 100 frames away tells whether it is the next one. -/
theorem continuousPictureId_at (h : At v l d) (hli : l < i) (hgap : i - l - 1 < 100) :
    d.continuousPictureId (v.frame i).session.pictureId = true ↔ i = l + 1 := by
  obtain ⟨n, rfl⟩ : ∃ n, i = l + n := ⟨i - l, by omega⟩
  have hb := pictureId_bounds (v := v) l
  have hadd := pictureId_add (v := v) l n
  rw [DecodingState.continuousPictureId, h.pictureId, ← pictureId, hadd]
  rcases v.bits_eq with hbits | hbits
  · rw [hbits] at hb ⊢
    have h7 : (2 : Int) ^ 7 = 128 := rfl
    rw [h7] at hb ⊢
    split
    · split
      · omega
      · rw [beq_iff_eq]
        omega
    · rw [beq_iff_eq]
      omega
  · rw [hbits] at hb ⊢
    have h15 : (2 : Int) ^ 15 = 32768 := rfl
    rw [h15] at hb ⊢
    split
    · split
      · rw [beq_iff_eq]
        omega
      · omega
    · rw [beq_iff_eq]
      omega

theorem continuousLayer_at (h : At v l d) (i : Nat) :
    d.continuousLayer (v.frame i).session.temporalId (v.frame i).session.tl0PicId = true ↔
      v.Base i ∧ v.tl0 i = (v.tl0 l + 1) % 256 := by
  have hl : d.tl0PicId ≠ kNoTl0PicIdx := fun hc => by
    have := (tl0_bounds (v := v) l).1
    rw [← h.tl0PicId, hc, kNoTl0PicIdx] at this
    omega
  rw [DecodingState.continuousLayer, if_neg (layer_present i), if_neg fun hc => hl hc.1,
    h.tl0PicId]
  change (if ¬v.Base i then false else _) = true ↔ _
  by_cases hb : v.Base i
  · rw [if_neg fun hc => hc hb, beq_iff_eq, eq_comm]
    exact ⟨fun hc => ⟨hb, hc⟩, fun hc => hc.2⟩
  · rw [if_pos hb]
    exact iff_of_false Bool.false_ne_true fun hc => hb hc.1

/-- The two ways a frame that is not a key frame is accepted. -/
theorem accepted_cases (h : At v l d) (hli : l < i) (hgap : i - l - 1 < 100) (hkey : ¬v.Key i)
    (hc : d.continuousFrame (v.frame i) = true) :
    (v.Base i ∧ ∀ k, l < k → k < i → ¬v.Base k) ∨
      (¬v.Base i ∧ i = l + 1 ∧ (d.fullSync = true ∨ (v.frame i).session.layerSync = true)) := by
  obtain ⟨n, rfl⟩ : ∃ n, i = l + (n + 1) := ⟨i - l - 1, by omega⟩
  have hadd := tl0_add (v := v) l (n + 1)
  have hle := basesAfter_le (v := v) l n
  have hl := tl0_bounds (v := v) l
  rw [basesAfter, Nat.add_assoc] at hadd
  have hkey : ¬(v.frame (l + (n + 1))).isKey = true := hkey
  rw [DecodingState.continuousFrame, if_neg hkey, h.started, if_neg Bool.false_ne_true] at hc
  by_cases hlayer : d.continuousLayer (v.frame (l + (n + 1))).session.temporalId
      (v.frame (l + (n + 1))).session.tl0PicId = true
  · -- a base frame with the next index: one of fewer than 256 can only be the next one
    obtain ⟨hb, htl0⟩ := (continuousLayer_at h _).1 hlayer
    rw [if_pos hb] at hadd
    exact .inl ⟨hb, fun k h1 h2 =>
      basesAfter_zero (v := v) (i := l) (n := n) (by omega) h1 (by omega)⟩
  · rw [if_neg hlayer] at hc
    have htl0 : v.tl0 (l + (n + 1)) = v.tl0 l := by
      by_cases heq : (v.frame (l + (n + 1))).session.tl0PicId = d.tl0PicId
      · exact heq.trans h.tl0PicId
      · rw [if_pos heq] at hc
        cases hc
    have hnb : ¬v.Base (l + (n + 1)) := fun hb => by
      rw [if_pos hb] at hadd
      omega
    rw [if_neg fun hne => hne (htl0.trans h.tl0PicId.symm)] at hc
    by_cases hsync : (!d.fullSync && !(v.frame (l + (n + 1))).session.layerSync) = true
    · rw [if_pos hsync] at hc
      cases hc
    · rw [if_neg hsync, if_pos (usingPictureId_at h _)] at hc
      refine .inr ⟨hnb, (continuousPictureId_at h hli hgap).1 hc, ?_⟩
      cases hf : d.fullSync with
      | true => exact .inl rfl
      | false =>
        rw [hf] at hsync
        cases hs : (v.frame (l + (n + 1))).session.layerSync with
        | true => exact .inr rfl
        | false =>
          rw [hs] at hsync
          exact absurd rfl hsync

/-- `full_sync_` behind an accepted frame: it can restore it, or it follows at once. -/
theorem fullSync_cases (h : At v l d) (hli : l < i) (hgap : i - l - 1 < 100)
    (hs : (d.setState (v.frame i)).fullSync = true) :
    v.Sync i ∨ (d.fullSync = true ∧ i = l + 1) := by
  change (d.updateSyncState (v.frame i)).fullSync = true at hs
  rw [DecodingState.updateSyncState, h.started, if_neg Bool.false_ne_true,
    if_neg (layer_present i)] at hs
  by_cases hsync : ((v.frame i).isKey || (v.frame i).session.layerSync) = true
  · exact .inl (Bool.or_eq_true_iff.1 hsync)
  · rw [if_neg hsync] at hs
    cases hf : d.fullSync with
    | false =>
      rw [hf, if_neg Bool.false_ne_true, hf] at hs
      cases hs
    | true =>
      rw [hf, if_pos rfl, if_pos (usingPictureId_at h i)] at hs
      split at hs
      · cases hs
      · exact .inr ⟨rfl, (continuousPictureId_at h hli hgap).1 hs⟩

/-! ## Runs -/

/-- The decoding state, the frames accepted so far, newest first, and the first frame that may
still be offered. -/
structure Offered where
  state : DecodingState := {}
  accepted : List Nat := []
  pos : Nat := 0

/-- `SetState` exactly on the frames that are continuous. -/
def offer (v : LayeredStream) (s : Offered) (i : Nat) : Offered :=
  if s.state.continuousFrame (v.frame i) then
    { state := s.state.setState (v.frame i), accepted := i :: s.accepted, pos := i + 1 }
  else { s with pos := i + 1 }

/-- Frames are offered in order, any of them may be missing. -/
def offers (v : LayeredStream) : LTS Offered Nat where
  init s := s = {}
  step s i s' := s.pos ≤ i ∧ s' = offer v s i

/-- Fewer than 100 frames lie between the accepted ones. -/
def closeOffers (v : LayeredStream) : LTS Offered Nat :=
  (offers v).within fun s i =>
    s.state.continuousFrame (v.frame i) = true → ∀ l, s.accepted.head? = some l → i - l - 1 < 100

/-- What the accepted frame `i` refers to is accepted as well. -/
structure Sound (v : LayeredStream) (accepted : List Nat) (i : Nat) : Prop where
  base : v.Base i → ¬v.Key i → ∃ j ∈ accepted, j < i ∧ v.Base j ∧
    (v.tl0 j + 1) % 256 = v.tl0 i ∧ ∀ k, j < k → k < i → ¬v.Base k
  layer : ¬v.Base i → ∃ j ∈ accepted, j < i ∧ v.Base j ∧ v.tl0 j = v.tl0 i ∧
    ∀ k, j < k → k < i → ¬v.Base k
  back : ¬v.Base i → (v.frame i).session.layerSync = false →
    ∃ j, j < i ∧ v.Sync j ∧ (∀ k, j < k → k < i → ¬v.Sync k) ∧ ∀ k, j ≤ k → k < i → k ∈ accepted

/-- What is known of the newest accepted frame `l`. -/
structure Newest (v : LayeredStream) (s : Offered) (l : Nat) : Prop where
  at_ : At v l s.state
  lt : l < s.pos
  base : ∃ j ∈ s.accepted, j ≤ l ∧ v.Base j ∧ ∀ k, j < k → k ≤ l → ¬v.Base k
  back : s.state.fullSync = true →
    ∃ j, j ≤ l ∧ v.Sync j ∧ ∀ k, j ≤ k → k ≤ l → k ∈ s.accepted

structure Inv (v : LayeredStream) (s : Offered) : Prop where
  fresh : s.accepted = [] → s.state.inInitialState = true
  newest : ∀ l, s.accepted.head? = some l → Newest v s l
  sound : ∀ i ∈ s.accepted, Sound v s.accepted i

theorem Sound.cons {accepted : List Nat} (h : Sound v accepted i) (j : Nat) :
    Sound v (j :: accepted) i where
  base hb hk := by
    obtain ⟨m, hm, rest⟩ := h.base hb hk
    exact ⟨m, List.mem_cons_of_mem _ hm, rest⟩
  layer hb := by
    obtain ⟨m, hm, rest⟩ := h.layer hb
    exact ⟨m, List.mem_cons_of_mem _ hm, rest⟩
  back hb hs := by
    obtain ⟨m, hm, hsync, hno, hall⟩ := h.back hb hs
    exact ⟨m, hm, hsync, hno, fun k h1 h2 => List.mem_cons_of_mem _ (hall k h1 h2)⟩

/-- The latest of the frames before `i` that can restore the sync. -/
theorem latest_sync {j i : Nat} (hj : v.Sync j) (hji : j < i) :
    ∃ m, j ≤ m ∧ m < i ∧ v.Sync m ∧ ∀ k, m < k → k < i → ¬v.Sync k := by
  induction i with
  | zero => omega
  | succ i ih =>
    by_cases hi : v.Sync i
    · exact ⟨i, by omega, by omega, hi, fun k h1 h2 => by omega⟩
    · have hne : j ≠ i := fun hc => hi (hc ▸ hj)
      obtain ⟨m, h1, h2, h3, h4⟩ := ih (by omega)
      refine ⟨m, h1, by omega, h3, fun k hk1 hk2 => ?_⟩
      by_cases hki : k = i
      · exact hki ▸ hi
      · exact h4 k hk1 (by omega)

theorem tl0_eq_of_no_base {j : Nat} (h : ∀ k, j < k → k ≤ l → ¬v.Base k) (hjl : j ≤ l) :
    v.tl0 l = v.tl0 j := by
  induction l with
  | zero => rw [Nat.le_zero.1 hjl]
  | succ l ih =>
    by_cases hj : j = l + 1
    · rw [hj]
    · rw [tl0_layer (h (l + 1) (by omega) (by omega))]
      exact ih (fun k h1 h2 => h k h1 (by omega)) (by omega)

/-- The first frame. -/
theorem key_newest (d : DecodingState) (accepted : List Nat) (hk : v.Key i) :
    Newest v { state := d.setState (v.frame i), accepted := i :: accepted, pos := i + 1 } i where
  at_ := setState_at d i
  lt := Nat.lt_succ_self i
  base := ⟨i, List.mem_cons_self, Nat.le_refl _, v.key_base i hk, fun k h1 h2 => by omega⟩
  back _ := ⟨i, Nat.le_refl _, .inl hk, fun k h1 h2 => by
    rw [Nat.le_antisymm h2 h1]
    exact List.mem_cons_self⟩

theorem key_sound (accepted : List Nat) (hk : v.Key i) : Sound v accepted i where
  base _ hc := absurd hk hc
  layer hc := absurd (v.key_base i hk) hc
  back hc := absurd (v.key_base i hk) hc

/-- A frame that is no key frame, behind `l`. -/
theorem accept_newest {s : Offered} (hn : Newest v s l) (hpos : s.pos ≤ i)
    (hgap : i - l - 1 < 100) (hk : ¬v.Key i) (hc : s.state.continuousFrame (v.frame i) = true) :
    Newest v (offer v s i) i ∧ Sound v (i :: s.accepted) i := by
  have hli : l < i := Nat.lt_of_lt_of_le hn.lt hpos
  obtain ⟨j, hj, hjl, hbase, hnone⟩ := hn.base
  have htl0 : v.tl0 l = v.tl0 j := tl0_eq_of_no_base hnone hjl
  have hback : s.state.fullSync = true → i = l + 1 →
      ∃ m, m < i ∧ v.Sync m ∧ (∀ k, m < k → k < i → ¬v.Sync k) ∧
        ∀ k, m ≤ k → k < i → k ∈ s.accepted := by
    intro hfull hi
    obtain ⟨m, hm, hsync, hall⟩ := hn.back hfull
    obtain ⟨m', h1, h2, h3, h4⟩ := latest_sync hsync (i := i) (by omega)
    exact ⟨m', h2, h3, h4, fun k hk1 hk2 => hall k (by omega) (by omega)⟩
  rw [offer, if_pos hc]
  have hcase := accepted_cases hn.at_ hli hgap hk hc
  refine ⟨⟨setState_at _ i, Nat.lt_succ_self i, ?_, fun hfull => ?_⟩, ?_⟩
  · rcases hcase with ⟨hb, -⟩ | ⟨hb, hi, -⟩
    · exact ⟨i, List.mem_cons_self, Nat.le_refl _, hb, fun k h1 h2 => by omega⟩
    · refine ⟨j, List.mem_cons_of_mem _ hj, by omega, hbase, fun k h1 h2 => ?_⟩
      by_cases hki : k = i
      · exact hki ▸ hb
      · exact hnone k h1 (by omega)
  · rcases fullSync_cases hn.at_ hli hgap hfull with hsync | ⟨hfull, hi⟩
    · exact ⟨i, Nat.le_refl _, hsync, fun k h1 h2 => by
        rw [Nat.le_antisymm h2 h1]
        exact List.mem_cons_self⟩
    · obtain ⟨m, hm, hsync, -, hall⟩ := hback hfull hi
      refine ⟨m, Nat.le_of_lt hm, hsync, fun k h1 h2 => ?_⟩
      by_cases hki : k = i
      · rw [hki]
        exact List.mem_cons_self
      · exact List.mem_cons_of_mem _ (hall k h1 (by omega))
  · rcases hcase with ⟨hb, hgapBase⟩ | ⟨hb, hi, hsync⟩
    · refine ⟨fun _ _ => ⟨j, List.mem_cons_of_mem _ hj, by omega, hbase, ?_, fun k h1 h2 => ?_⟩,
        fun hc => absurd hb hc, fun hc => absurd hb hc⟩
      · obtain ⟨n, rfl⟩ : ∃ n, i = n + 1 := ⟨i - 1, by omega⟩
        have hprev : v.tl0 n = v.tl0 l :=
          tl0_eq_of_no_base (fun k h1 h2 => hgapBase k h1 (by omega)) (by omega)
        rw [← htl0, ← hprev, tl0_base hb]
      · by_cases hkl : k ≤ l
        · exact hnone k h1 hkl
        · exact hgapBase k (by omega) h2
    · refine ⟨fun hc => absurd hc hb, fun _ => ?_, fun _ hns => ?_⟩
      · refine ⟨j, List.mem_cons_of_mem _ hj, by omega, hbase, ?_, fun k h1 h2 =>
          hnone k h1 (by omega)⟩
        subst hi
        rw [← htl0, tl0_layer hb]
      · have hfull : s.state.fullSync = true :=
          hsync.resolve_right fun hc => Bool.false_ne_true (hns.symm.trans hc)
        obtain ⟨m, h1, h2, h3, h4⟩ := hback hfull hi
        exact ⟨m, h1, h2, h3, fun k hk1 hk2 => List.mem_cons_of_mem _ (h4 k hk1 hk2)⟩

theorem closeOffers_inductive (v : LayeredStream) : (closeOffers v).Inductive (Inv v) where
  init s h := by
    cases h
    exact ⟨fun _ => rfl, fun l hl => (by cases hl), fun i hi => absurd hi List.not_mem_nil⟩
  step s i s' h hstep := by
    obtain ⟨hgap, hpos, rfl⟩ := hstep
    by_cases hc : s.state.continuousFrame (v.frame i) = true
    · have hboth : Newest v (offer v s i) i ∧ Sound v (i :: s.accepted) i := by
        by_cases hk : v.Key i
        · refine ⟨?_, key_sound _ hk⟩
          rw [offer, if_pos hc]
          exact key_newest _ _ hk
        · cases hh : s.accepted.head? with
          | none =>
            -- without a frame before it only a key frame is continuous
            have hinit := h.fresh (List.head?_eq_none_iff.1 hh)
            have hk' : ¬(v.frame i).isKey = true := hk
            rw [DecodingState.continuousFrame, if_neg hk', if_pos hinit] at hc
            cases hc
          | some l =>
            exact accept_newest (h.newest l hh) hpos (hgap hc l hh) hk hc
      have hoffer : (offer v s i).accepted = i :: s.accepted := by rw [offer, if_pos hc]
      refine ⟨fun he => ?_, fun l hl => ?_, fun k hk => ?_⟩
      · rw [hoffer] at he
        cases he
      · rw [hoffer, List.head?_cons] at hl
        cases hl
        exact hboth.1
      · rw [hoffer] at hk ⊢
        rcases List.mem_cons.1 hk with rfl | hk
        · exact hboth.2
        · exact (h.sound k hk).cons i
    · rw [offer, if_neg hc]
      refine ⟨h.fresh, fun l hl => ?_, h.sound⟩
      have hn := h.newest l hl
      exact ⟨hn.at_, Nat.lt_succ_of_lt (Nat.lt_of_lt_of_le hn.lt hpos), hn.base, hn.back⟩

theorem layers_sound {s : Offered} (hr : (closeOffers v).Reachable s) :
    ∀ i ∈ s.accepted, Sound v s.accepted i :=
  ((closeOffers_inductive v).reachable s hr).sound

/-! ## A stream whose layers alternate -/

/-- Frame `i` of it: a key frame first, then layers 1, 0, 1, 0, …; the first two of layer 1 can
restore the sync. -/
def alternatingFrame (i : Nat) : FrameBuffer where
  id := i
  session := {
    frameType := if i = 0 then .key else .delta
    packets := [{
      pkt := VCMPacket.ofRtp [] 0 i.toUInt16 true (if i = 0 then .key else .delta)
        { isFirstPacket := true
          codec := .vp8 {
            pictureId := (i % 128 : Nat), tl0PicIdx := (i / 2 % 256 : Nat), temporalIdx := (i % 2 : Nat)
            layerSync := i % 2 == 1 && decide (i < 4) } }
      dataPtr := 0, sizeBytes := 0 }] }

theorem alternatingFrame_session (i : Nat) :
    (alternatingFrame i).session.pictureId = (i % 128 : Nat) ∧
      (alternatingFrame i).session.tl0PicId = (i / 2 % 256 : Nat) ∧
      (alternatingFrame i).session.temporalId = (i % 2 : Nat) :=
  ⟨rfl, rfl, rfl⟩

def alternating : LayeredStream where
  frame := alternatingFrame
  bits := 7
  bits_eq := .inl rfl
  pictureId_range := by decide
  pictureId_succ i := by
    obtain ⟨h, -, -⟩ := alternatingFrame_session i
    obtain ⟨h', -, -⟩ := alternatingFrame_session (i + 1)
    rw [h, h']
    change _ = _ % 128
    omega
  temporalId_eq i := by
    obtain ⟨-, -, h⟩ := alternatingFrame_session i
    rw [h]
    omega
  tl0_range := by decide
  tl0_succ i := by
    obtain ⟨-, h, -⟩ := alternatingFrame_session i
    obtain ⟨-, h', ht⟩ := alternatingFrame_session (i + 1)
    rw [h, h', ht]
    split <;> omega
  key_base i h := by
    obtain ⟨-, -, ht⟩ := alternatingFrame_session i
    rw [ht]
    by_cases hi : i = 0
    · rw [hi]
      rfl
    · have hd : (alternatingFrame i).frameType = .delta := if_neg hi
      rw [FrameBuffer.isKey, hd] at h
      cases h

theorem closeOffers_step {s : Offered} (hpos : s.pos ≤ i)
    (hgap : s.accepted.head?.all (fun l => i - l - 1 < 100) = true) :
    (closeOffers v).step s i (offer v s i) := by
  refine ⟨fun _ l hl => ?_, hpos, rfl⟩
  rw [hl] at hgap
  exact of_decide_eq_true hgap

/-- Frame 3 is missing, so 5, which cannot restore the sync, is not accepted. -/
theorem lossy_sound :
    (([0, 1, 2, 4, 5].foldl (offer alternating) {}).accepted = [4, 2, 1, 0]) ∧
      ∀ i ∈ [4, 2, 1, 0], Sound alternating [4, 2, 1, 0] i := by
  have hacc : ([0, 1, 2, 4, 5].foldl (offer alternating) {}).accepted = [4, 2, 1, 0] := by
    decide
  have hr : (closeOffers alternating).Reachable ([0, 1, 2, 4, 5].foldl (offer alternating) {}) :=
    ⟨{}, [0, 1, 2, 4, 5], rfl,
      .cons (closeOffers_step (by decide) (by decide)) <|
      .cons (closeOffers_step (by decide) (by decide)) <|
      .cons (closeOffers_step (by decide) (by decide)) <|
      .cons (closeOffers_step (by decide) (by decide)) <|
      .cons (closeOffers_step (by decide) (by decide)) <| .nil _⟩
  have h := layers_sound hr
  rw [hacc] at h
  exact ⟨hacc, h⟩

end LayeredStream

end RtcCore.L3
