import RtcCore.L3Video.FrameState

/-!
# H.264 frames and the first-packet flag

`VCMSessionInfo` takes a frame to have one first packet. The H.264
depacketizer flags every packet that starts a NAL unit: the first FU-A
fragment, a single NAL unit and a STAP-A. So a frame has as many first
packets as the packetizer made FU-A series and groups, and the belief holds
when it made one.

Results:
* `first_packets`: the packetizer's first packet is flagged, and it is the
  only one exactly when there is one NAL unit or one STAP-A holds them all.
* `one_first_iff`: over every order of arrival of any of a frame's packets the
  asserts on the recorded numbers hold and `complete_` waits for every packet,
  exactly when the packetizer made one first packet and at most 32769 packets.
* `two_slices`: two slices in two packets.
-/
namespace RtcCore

open Bytes

/-! ## The flags of a packetized frame -/

namespace L1.H264

/-- `isFirstPacket` as the depacketizer sets it. -/
def isFirst (b : Bytes) : Bool := (parse b).video.isFirstPacket

theorem isFirst_fragment (payload : Bytes) (p : Packet) :
    isFirst (nextFragmentPacket payload p) = p.firstFragment := by
  have hx : nextFragmentPacket payload p = (p.header &&& fnriMask ||| kFuA) ::
      fuHeader p.header p.firstFragment p.lastFragment :: slice payload p.offset p.size := rfl
  have ht : parse (nextFragmentPacket payload p) = parseFuaNalu (nextFragmentPacket payload p) := by
    rw [parse, hx]; simp [getByte, fuA_type]
  obtain ⟨-, hS, -⟩ := fuHeader_spec p.header p.firstFragment p.lastFragment
  rw [isFirst, ht, hx]
  exact hS

/-- Behind its first fragment an FU-A series carries no S bit. -/
theorem fuALoop_rest (h : UInt8) (fo avg : Nat) : ∀ (fuel off len : Nat), fo + 1 < off →
    ∀ p ∈ fuALoop h fo avg fuel off len, p.firstFragment = false := by
  intro fuel
  induction fuel with
  | zero => intro off len _ p hp; exact absurd hp List.not_mem_nil
  | succ fuel ih =>
    intro off len hoff p hp
    simp only [fuALoop] at hp
    split at hp
    · rcases List.mem_cons.1 hp with rfl | hp
      · simp only [kNalHeaderSize, beq_eq_false_iff_ne, ne_eq]
        omega
      · exact ih _ _ (by omega) p hp
    · exact absurd hp List.not_mem_nil

theorem isFirst_fuA {payload : Bytes} {maxLen : Nat} {f : Fragment} (h3 : 3 ≤ maxLen)
    (hf : maxLen < f.length) :
    ∃ k, ((packetizeFuA payload maxLen f).map (nextFragmentPacket payload)).map isFirst =
      true :: List.replicate k false := by
  obtain ⟨ha, -, -⟩ := avg_bounds h3 (show maxLen ≤ f.length - 1 by omega)
  obtain ⟨n, hn⟩ : ∃ n, f.length = n + 2 := ⟨f.length - 2, by omega⟩
  simp only [packetizeFuA, kNalHeaderSize, hn, show n + 2 - 1 = n + 1 by omega] at ha ⊢
  generalize fuAAvgSize maxLen (n + 1) = avg at ha
  rw [fuALoop, if_pos (Nat.succ_pos n)]
  generalize hpl : (if n + 1 < avg then n + 1 else avg) = pl
  have hpos : 0 < pl := by subst hpl; split <;> omega
  have hrest := fuALoop_rest (getByte payload f.offset) f.offset avg n (f.offset + 1 + pl)
    (n + 1 - pl) (by omega)
  refine ⟨(fuALoop (getByte payload f.offset) f.offset avg n (f.offset + 1 + pl)
    (n + 1 - pl)).length, ?_⟩
  simp only [List.map_cons, List.map_map, isFirst_fragment, kNalHeaderSize, Nat.add_sub_cancel,
    beq_self_eq_true, List.cons.injEq, true_and]
  refine List.eq_replicate_iff.2 ⟨List.length_map .., fun b hb => ?_⟩
  obtain ⟨p, hp, rfl⟩ := List.mem_map.1 hb
  rw [Function.comp, isFirst_fragment]
  exact hrest p hp

theorem isFirst_group {payload : Bytes} {f : Fragment} (hw : f.WF payload) (fs : List Fragment) :
    isFirst (groupPayload payload f fs) = true := by
  have hle := hw.type_le
  have hfu : getByte payload f.offset &&& kTypeMask ≠ kFuA := fun e => by
    rw [e] at hle; exact absurd hle (by decide)
  cases fs with
  | nil =>
    have h0 := getByte_slice_zero payload f hw.nonempty
    simp [isFirst, groupPayload, parse, h0, hfu, parseSingleNalu]
  | cons g fs =>
    have htype : getByte (stapA payload f (g :: fs)) 0 &&& kTypeMask = kStapA := by
      simp [stapA, getByte, stapA_type]
    have : (getByte (stapA payload f (g :: fs)) 0 &&& kTypeMask == kFuA) = false := by
      rw [htype]; rfl
    rw [isFirst, groupPayload, parse, this]
    rfl

/-- The loop takes every unit that fits. -/
theorem stapALoop_all (payload : Bytes) : ∀ (rest : List Fragment) (left agg hdrs : Nat)
    (f : Fragment),
    f.length + hdrs + stapSize rest + (if agg = 0 ∧ rest ≠ [] then 3 else 0) ≤ left →
    (stapALoop payload left agg hdrs f rest).2 = [] := by
  intro rest
  induction rest with
  | nil =>
    intro left agg hdrs f h
    simp only [stapSize, List.map_nil, List.sum_nil, ne_eq, not_true_eq_false, and_false,
      if_false, Nat.add_zero] at h
    simp [stapALoop, h]
  | cons g rest ih =>
    intro left agg hdrs f h
    have hS : stapSize (g :: rest) = 2 + g.length + stapSize rest := by
      simp [stapSize, kLengthFieldSize]
    rw [hS] at h
    simp only [stapALoop, if_pos (show f.length + hdrs ≤ left by omega)]
    refine ih _ _ _ _ ?_
    simp only [Nat.add_eq_zero_iff, Nat.one_ne_zero, and_false, false_and, if_false, Nat.add_zero,
      kLengthFieldSize, kNalHeaderSize]
    by_cases ha : agg = 0
    · simp only [ha, ne_eq, reduceCtorEq, not_false_eq_true, and_self, if_true] at h ⊢
      omega
    · simp only [ha, false_and, if_false] at h ⊢
      omega

/-- One NAL unit, or all of them fit one STAP-A. -/
def OneGroup (maxLen : Nat) (frags : List Fragment) : Prop :=
  frags.length ≤ 1 ∨ kNalHeaderSize + stapSize frags ≤ maxLen

/-- The group takes all units exactly when they fit. -/
theorem group_all_iff {payload : Bytes} {maxLen : Nat} {f : Fragment}
    {rest taken rest' : List Fragment} (hr : rest = taken ++ rest')
    (he : (stapALoop payload maxLen 0 0 f rest).2 = rest')
    (hs : f.length + stapSize taken + (if taken ≠ [] then 3 else 0) ≤ maxLen) :
    rest' = [] ↔ OneGroup maxLen (f :: rest) := by
  have hS : stapSize (f :: rest) = 2 + f.length + stapSize rest := by
    simp [stapSize, kLengthFieldSize]
  unfold OneGroup
  rw [hS]
  simp only [kNalHeaderSize, List.length_cons]
  constructor
  · rintro rfl
    rw [List.append_nil] at hr
    subst hr
    cases rest with
    | nil => exact Or.inl (Nat.le_refl _)
    | cons g rest =>
      simp only [ne_eq, reduceCtorEq, not_false_eq_true, if_true] at hs
      exact Or.inr (by omega)
  · rintro (h | h)
    · have : rest = [] := List.eq_nil_of_length_eq_zero (by omega)
      rw [this] at hr
      exact (List.append_eq_nil_iff.1 hr.symm).2
    · rw [← he]
      refine stapALoop_all payload rest maxLen 0 0 f ?_
      split <;> omega

/-- The flags in the order of sending. -/
def firstFlags (payload : Bytes) (maxLen : Nat) (frags : List Fragment) : List Bool :=
  (packetize payload maxLen frags).1.map fun p => isFirst p.1

theorem generatePackets_flags {payload : Bytes} {maxLen : Nat} (h3 : 3 ≤ maxLen) : ∀ (n : Nat)
    (fs : List Fragment), fs.length ≤ n → (∀ f ∈ fs, f.WF payload) → fs ≠ [] →
    ∃ k more, ((sent payload (generatePackets payload maxLen n fs [])).map Prod.fst).map isFirst =
      true :: (List.replicate k false ++ more) ∧
      (more = [] ∨ ∃ tail, more = true :: tail) ∧ (more = [] ↔ OneGroup maxLen fs) := by
  intro n
  induction n with
  | zero => intro fs hn _ hne; exact absurd (List.eq_nil_of_length_eq_zero (by omega)) hne
  | succ n ih =>
    intro fs hn hw hne
    cases fs with
    | nil => exact absurd rfl hne
    | cons f rest =>
      have hrest : ∀ rest' : List Fragment, rest'.length ≤ n → (∀ g ∈ rest', g.WF payload) →
          ∃ more, ((sent payload (generatePackets payload maxLen n rest' [])).map
            Prod.fst).map isFirst = more ∧ (more = [] ∨ ∃ tail, more = true :: tail) ∧
            (more = [] ↔ rest' = []) := by
        intro rest' hl hw'
        by_cases he : rest' = []
        · subst he
          refine ⟨[], ?_, Or.inl rfl, iff_of_true rfl rfl⟩
          cases n <;> rfl
        · obtain ⟨k, more, h1, -, -⟩ := ih rest' hl hw' he
          exact ⟨_, h1, Or.inr ⟨_, rfl⟩, iff_of_false (List.cons_ne_nil _ _) he⟩
      simp only [List.length_cons] at hn
      simp only [generatePackets]
      split
      · rename_i hf
        obtain ⟨k, hk⟩ := @isFirst_fuA payload _ _ h3 hf
        obtain ⟨more, hm, hhead, hnil⟩ := hrest rest (by omega)
          fun g hg => hw g (List.mem_cons_of_mem _ hg)
        refine ⟨k, more, ?_, hhead, ?_⟩
        · rw [List.nil_append, generatePackets_append,
            sent_fuA payload _ _ _ _ (packetizeFuA_packets h3 hf), List.map_append, hk, hm]
          rfl
        · rw [hnil, OneGroup]
          constructor
          · rintro rfl
            exact Or.inl (Nat.le_refl _)
          · rintro (h | h)
            · exact List.eq_nil_of_length_eq_zero (by simp only [List.length_cons] at h; omega)
            · have : stapSize (f :: rest) = 2 + f.length + stapSize rest := by
                simp [stapSize, kLengthFieldSize]
              omega
      · rename_i hf
        obtain ⟨taken, rest', hr, he, hs⟩ := stapALoop_spec payload rest maxLen 0 0 f (by omega)
        have hall := group_all_iff hr (by rw [he]) (by simpa using hs)
        have hw' : ∀ g ∈ rest', g.WF payload := fun g hg =>
          hw g (List.mem_cons_of_mem _ (hr ▸ List.mem_append_right _ hg))
        have hlen : rest'.length ≤ n := by
          have := congrArg List.length hr
          rw [List.length_append] at this
          omega
        obtain ⟨more, hm, hhead, hnil⟩ := hrest rest' hlen hw'
        refine ⟨0, more, ?_, hhead, hnil.trans hall⟩
        simp only [packetizeStapA, he, List.nil_append, beq_self_eq_true]
        rw [generatePackets_append, sent_group, List.map_cons,
          isFirst_group (hw f (List.mem_cons_self ..)), hm]
        rfl

/-- **The first packets of a frame.** Packet 0 is flagged; no other one is
exactly when the frame is one NAL unit or fits one STAP-A. -/
theorem first_packets {payload : Bytes} {maxLen : Nat} {frags : List Fragment} (h3 : 3 ≤ maxLen)
    (hw : ∀ f ∈ frags, f.WF payload) :
    (∀ b, (firstFlags payload maxLen frags)[0]? = some b → b = true) ∧
      (OneGroup maxLen frags ↔
        ∀ i, 0 < i → ∀ b, (firstFlags payload maxLen frags)[i]? = some b → b = false) := by
  have hmap : firstFlags payload maxLen frags =
      ((sent payload (generatePackets payload maxLen frags.length frags [])).map
        Prod.fst).map isFirst := by
    rw [List.map_map]
    rfl
  by_cases hne : frags = []
  · subst hne
    have : firstFlags payload maxLen [] = [] := rfl
    rw [this]
    exact ⟨fun b hb => (nomatch hb), fun _ i _ b hb => (nomatch hb), fun _ => Or.inl (Nat.zero_le _)⟩
  obtain ⟨k, more, he, hhead, hnil⟩ := generatePackets_flags h3 _ frags (Nat.le_refl _) hw hne
  rw [hmap, he]
  refine ⟨fun b hb => by simpa using hb.symm, ?_⟩
  rw [← hnil]
  constructor
  · rintro rfl i hi b hb
    obtain ⟨j, rfl⟩ : ∃ j, i = j + 1 := ⟨i - 1, by omega⟩
    rw [List.append_nil, List.getElem?_cons_succ] at hb
    exact List.eq_of_mem_replicate (List.mem_of_getElem? hb)
  · intro hall
    rcases hhead with h | ⟨tail, rfl⟩
    · exact h
    · have := hall (k + 1) (Nat.succ_pos k) true (by
        rw [List.getElem?_cons_succ, List.getElem?_append_right (by simp)]
        simp)
      cases this

theorem parse_codec (b : Bytes) :
    (∃ h, (parse b).video.codec = .h264 h) ∧ (parse b).frameType ≠ .empty := by
  have htype : ∀ c : Bool, (if c then FrameType.key else .delta) ≠ .empty := by decide
  unfold parse
  split
  · exact ⟨⟨_, rfl⟩, htype _⟩
  · exact ⟨⟨_, rfl⟩, htype _⟩

end L1.H264

namespace L3

open Serial Session

/-! ## The asserts on the recorded numbers -/

namespace Session

/-- mirrors webrtc/modules/video_coding/main/source/session_info.cc:472, 478, 484-491 -/
def Info.recordAssertsHold (s : Info) (p : VCMPacket) : Bool :=
  if p.isFirstPacket then s.firstPacketSeqNum.isNone
  else if p.markerBit then s.lastPacketSeqNum.isNone
  else (s.firstPacketSeqNum.all fun f => isNewerSequenceNumber p.seqNum f) &&
    s.lastPacketSeqNum.all fun l => isNewerSequenceNumber l p.seqNum

/-- The asserts stand behind the three early returns. -/
def recordAssertsPass (s : Info) (p : VCMPacket) : Bool :=
  decide (p.frameType = .empty) || decide (s.packets.length = kMaxPacketsInSession) ||
    isDuplicate (scanFront s.packets p.seqNum) p.seqNum || s.recordAssertsHold p

def recordAssertsPassAll : Info → Bytes → List Arrival → Bool
  | _, _, [] => true
  | s, buf, a :: as =>
    let r := insertPacket s buf a.1 a.2.1 a.2.2
    recordAssertsPass s a.1 && recordAssertsPassAll r.2.1 r.2.2 as

end Session

/-! ## A frame and its packets -/

/-- An encoded frame given to `RtpPacketizerH264`. -/
structure H264Frame where
  payload : Bytes
  frags : List L1.H264.Fragment
  maxLen : Nat
  timestamp : UInt32
  base : UInt16
  wf : ∀ f ∈ frags, f.WF payload
  room : 3 ≤ maxLen

namespace H264Frame

variable (f : H264Frame)

def packets : List (Bytes × Bool) := (L1.H264.packetize f.payload f.maxLen f.frags).1

/-- Packet `i` as received; the marker is the last-packet flag. -/
def received (i : Nat) : Option VCMPacket :=
  f.packets[i]?.map fun b =>
    .ofParsed (L1.H264.parse b.1) f.timestamp (f.base + .ofNat i) b.2

/-- Some of the packets, in the order they come. -/
abbrev Order := List (Nat × DecodeErrorMode × FrameData)

def arrivals (order : Order) : List Arrival :=
  order.filterMap fun o => (f.received o.1).map fun p => (p, o.2)

/-- What `InsertPacket` believes of a frame, over every order of arrival of
any of its packets. -/
def Believed : Prop :=
  ∀ (buf : Bytes) (order : Order), (order.map Prod.fst).Nodup →
    recordAssertsPassAll {} buf (f.arrivals order) = true ∧
      ((insertAll {} buf (f.arrivals order)).2.1.complete = true →
        ∀ i < f.packets.length, i ∈ order.map Prod.fst)

variable {f}

/-- Packet `i` as the session sees it. -/
structure IsPacket (f : H264Frame) (i : Nat) (p : VCMPacket) : Prop where
  lt : i < f.packets.length
  seqNum : p.seqNum = f.base + .ofNat i
  flag : (L1.H264.firstFlags f.payload f.maxLen f.frags)[i]? = some p.isFirstPacket
  marker : p.markerBit = decide (i + 1 = f.packets.length)
  media : p.frameType ≠ .empty
  codec : p.codec = .h264

theorem isPacket {i : Nat} {p : VCMPacket} (h : f.received i = some p) : f.IsPacket i p := by
  obtain ⟨⟨b, l⟩, hget, rfl⟩ := Option.map_eq_some_iff.1 h
  obtain ⟨⟨hd, hc⟩, ht⟩ := L1.H264.parse_codec b
  have hlast := (L1.H264.sendAll_drains f.payload
    (L1.H264.setPayloadData f.payload f.maxLen f.frags)).2 i b l hget
  have hp : ∃ c, VCMPacket.ofParsed (L1.H264.parse b) f.timestamp (f.base + .ofNat i) l =
      { timestamp := f.timestamp, seqNum := f.base + .ofNat i
        data := (L1.H264.parse b).payload, markerBit := l
        frameType := (L1.H264.parse b).frameType, codec := .h264
        isFirstPacket := (L1.H264.parse b).video.isFirstPacket, completeNALU := c
        insertStartCode := (L1.H264.parse b).video.isFirstPacket
        codecSpecificHeader := (L1.H264.parse b).video } := by
    simp only [VCMPacket.ofParsed, VCMPacket.ofRtp, hc]
    exact ⟨_, rfl⟩
  obtain ⟨c, hp⟩ := hp
  rw [hp]
  refine ⟨(List.getElem?_eq_some_iff.1 hget).1, rfl, ?_, ?_, ht, rfl⟩
  · have hget : (L1.H264.packetize f.payload f.maxLen f.frags).1[i]? = some (b, l) := hget
    rw [L1.H264.firstFlags, List.getElem?_map, hget, Option.map_some, L1.H264.isFirst]
  · rw [Bool.eq_iff_iff, decide_eq_true_eq]
    exact hlast

theorem received_isSome {i : Nat} (h : i < f.packets.length) : ∃ p, f.received i = some p :=
  ⟨_, by rw [received, List.getElem?_eq_getElem h]; rfl⟩

/-- The packetizer made one first packet. -/
def OneFirst (f : H264Frame) : Prop := L1.H264.OneGroup f.maxLen f.frags

theorem IsPacket.zero {p : VCMPacket} (h : f.IsPacket 0 p) : p.isFirstPacket = true :=
  (L1.H264.first_packets f.room f.wf).1 _ h.flag

theorem IsPacket.first {i : Nat} {p : VCMPacket} (h : f.IsPacket i p) (hone : f.OneFirst) :
    p.isFirstPacket = decide (i = 0) := by
  by_cases hi : i = 0
  · subst hi
    rw [h.zero]
    rfl
  · rw [decide_eq_false hi]
    exact ((L1.H264.first_packets f.room f.wf).2.1 hone) i (by omega) _ h.flag

theorem newer_add {base : UInt16} {a b : Nat} (hab : b < a) (hd : a < b + 0x8000)
    (_ha : a < 65536) :
    isNewerSequenceNumber (base + .ofNat a) (base + .ofNat b) = true := by
  have hb := base.toNat_lt
  simp only [isNewerSequenceNumber, bne_iff_ne, ne_eq, Bool.and_eq_true, decide_eq_true_eq,
    UInt16.toNat_sub, UInt16.toNat_add, ← UInt16.toNat_inj, UInt16.toNat_ofNat']
  omega

theorem add_inj {base : UInt16} {a b : Nat} (ha : a < 65536) (hb : b < 65536) :
    base + .ofNat a = base + .ofNat b ↔ a = b := by
  rw [← dist_inj base, dist_add base ha, dist_add base hb]

/-! ## One first packet -/

/-- What the session knows when the packets `got` have come. -/
structure Gathered (f : H264Frame) (got : List Nat) (s : Info) : Prop where
  numbers : ∀ q ∈ s.packets, ∃ i ∈ got, i < f.packets.length ∧
    q.pkt.seqNum = f.base + .ofNat i
  first : ∀ v, s.firstPacketSeqNum = some v → v = f.base ∧ 0 ∈ got ∧ v ∈ seqNums s
  last : ∀ v, s.lastPacketSeqNum = some v → v = f.base + .ofNat (f.packets.length - 1) ∧
    f.packets.length - 1 ∈ got ∧ v ∈ seqNums s
  complete : s.complete = true → s.firstPacketSeqNum.isSome = true ∧
    s.lastPacketSeqNum.isSome = true ∧ inSequence s.packets = true
  few : s.packets.length ≤ kMaxPacketsInSession

variable {got : List Nat} {s : Info} {i : Nat} {p : VCMPacket}

theorem Gathered.mono (h : f.Gathered got s) (i : Nat) : f.Gathered (i :: got) s where
  numbers q hq := by
    obtain ⟨j, hj, hlt, he⟩ := h.numbers q hq
    exact ⟨j, List.mem_cons_of_mem _ hj, hlt, he⟩
  first v hv := by
    obtain ⟨h1, h2, h3⟩ := h.first v hv
    exact ⟨h1, List.mem_cons_of_mem _ h2, h3⟩
  last v hv := by
    obtain ⟨h1, h2, h3⟩ := h.last v hv
    exact ⟨h1, List.mem_cons_of_mem _ h2, h3⟩
  complete := h.complete
  few := h.few

section Step

variable (h : f.Gathered got s) (hp : f.IsPacket i p) (hone : f.OneFirst)
  (hn : f.packets.length ≤ 0x8001) (hnew : i ∉ got)

include h hp hone hn hnew

theorem recordAsserts_hold : s.recordAssertsHold p = true := by
  have hlt := hp.lt
  unfold Info.recordAssertsHold
  rw [hp.first hone, hp.marker]
  split
  · rename_i hi
    cases hf : s.firstPacketSeqNum with
    | none => rfl
    | some v =>
      rw [of_decide_eq_true hi] at hnew
      exact absurd (h.first v hf).2.1 hnew
  rename_i hi
  split
  · rename_i hm
    cases hl : s.lastPacketSeqNum with
    | none => rfl
    | some v =>
      have hm := of_decide_eq_true hm
      rw [show i = f.packets.length - 1 by omega] at hnew
      exact absurd (h.last v hl).2.1 hnew
  rename_i hm
  simp only [decide_eq_true_eq] at hi hm
  rw [Bool.and_eq_true, hp.seqNum]
  constructor
  · cases hf : s.firstPacketSeqNum with
    | none => rfl
    | some v =>
      have := @newer_add f.base i 0 (by omega) (by omega) (by omega)
      rw [Option.all_some, (h.first v hf).1]
      simpa using this
  · cases hl : s.lastPacketSeqNum with
    | none => rfl
    | some v =>
      rw [Option.all_some, (h.last v hl).1]
      exact newer_add (by omega) (by omega) (by omega)

theorem gathered_step (buf : Bytes) (mode : DecodeErrorMode) (d : FrameData) :
    recordAssertsPass s p = true ∧
      f.Gathered (i :: got) (insertPacket s buf p mode d).2.1 := by
  have hlt := hp.lt
  have hdup : isDuplicate (scanFront s.packets p.seqNum) p.seqNum = false := by
    refine Bool.eq_false_iff.2 fun hd => ?_
    obtain ⟨q, hq, hs, -⟩ := duplicate_mem hd
    obtain ⟨j, hj, hjn, hqs⟩ := h.numbers q hq
    rw [hp.seqNum, hqs, add_inj (by omega) (by omega)] at hs
    exact hnew (hs ▸ hj)
  refine ⟨?_, ?_⟩
  · rw [recordAssertsPass, recordAsserts_hold h hp hone hn hnew, Bool.or_true]
  by_cases hfull : s.packets.length = kMaxPacketsInSession
  · have : (insertPacket s buf p mode d).2.1 = s := by
      unfold insertPacket
      rw [if_neg hp.media, if_pos hfull]
    rw [this]
    exact h.mono i
  have ht : Taken s p := ⟨⟨hp.media, hfull, hdup⟩, Or.inl (Or.inr hp.codec)⟩
  obtain ⟨-, off, size, shift, hinfo⟩ := insertPacket_taken ht buf mode d
  have hinfo : (insertPacket s buf p mode d).2.1 = taken s p off size shift mode d := hinfo
  rw [hinfo]
  obtain ⟨hps, hfirst, hlast⟩ := taken_fields off size shift mode d ht
  have hcomp := taken_complete off size shift mode d ht
  have hself : p.seqNum ∈ seqNums (taken s p off size shift mode d) := by
    rw [seqNums, hps]
    exact List.mem_map.2 ⟨_, self_mem_placed, rfl⟩
  have hkeep : ∀ v, v ∈ seqNums s → v ∈ seqNums (taken s p off size shift mode d) := by
    intro v hv
    obtain ⟨q, hq, rfl⟩ := List.mem_map.1 hv
    obtain ⟨q', hq', hpkt⟩ := mem_placed_pkt off size shift hq
    rw [seqNums, hps]
    exact List.mem_map.2 ⟨q', hq', by rw [hpkt]⟩
  refine ⟨fun q hq => ?_, fun v hv => ?_, fun v hv => ?_, fun hc => ?_, ?_⟩
  · rw [hps] at hq
    rcases mem_placed hq with rfl | ⟨x, hx, hxq, -⟩
    · exact ⟨i, List.mem_cons_self .., hlt, hp.seqNum⟩
    · rw [hxq]
      exact (h.mono i).numbers x hx
  · rw [hfirst] at hv
    simp only [Info.trackWidening] at hv
    split at hv
    · split at hv
      · rename_i hi
        rw [hp.first hone, decide_eq_true_eq] at hi
        cases hv
        refine ⟨?_, hi ▸ List.mem_cons_self .., hself⟩
        rw [hp.seqNum, hi]
        simp
      · cases hv
    · rename_i w hw
      obtain ⟨h1, h2, h3⟩ := h.first w hw
      split at hv
      · rename_i hi
        rw [Bool.and_eq_true, hp.first hone, decide_eq_true_eq] at hi
        exact absurd (hi.1 ▸ h2) hnew
      · cases hv
        exact ⟨h1, List.mem_cons_of_mem _ h2, hkeep _ h3⟩
  · rw [hlast] at hv
    simp only [Info.trackWidening] at hv
    split at hv
    · split at hv
      · rename_i hi
        rw [hp.marker, decide_eq_true_eq] at hi
        cases hv
        have hi : i = f.packets.length - 1 := by omega
        exact ⟨by rw [hp.seqNum, hi], hi ▸ List.mem_cons_self .., hself⟩
      · cases hv
    · rename_i w hw
      obtain ⟨h1, h2, h3⟩ := h.last w hw
      split at hv
      · rename_i hi
        rw [Bool.and_eq_true, hp.marker, decide_eq_true_eq] at hi
        rw [show f.packets.length - 1 = i by omega] at h2
        exact absurd h2 hnew
      · cases hv
        exact ⟨h1, List.mem_cons_of_mem _ h2, hkeep _ h3⟩
  · rw [hcomp] at hc
    rw [hfirst, hlast, widening_first_known, widening_last_known, hps, inSequence_placed]
    split at hc
    · rename_i hk
      rw [endsKnown, Bool.and_eq_true] at hk
      exact ⟨hk.1, hk.2, hc⟩
    · rename_i hk
      obtain ⟨h1, h2, -⟩ := h.complete hc
      exact absurd (by rw [endsKnown, h1, h2]; rfl) hk
  · rw [hps, placed_length]
    have := h.few
    omega

end Step

theorem gathered_run (hone : f.OneFirst) (hn : f.packets.length ≤ 0x8001) : ∀ (order : Order)
    (buf : Bytes) (s : Info) (got : List Nat), f.Gathered got s →
    (order.map Prod.fst).Nodup → (∀ i ∈ order.map Prod.fst, i ∉ got) →
    recordAssertsPassAll s buf (f.arrivals order) = true ∧
      ∃ got', (∀ i ∈ got', i ∈ got ∨ i ∈ order.map Prod.fst) ∧
        f.Gathered got' (insertAll s buf (f.arrivals order)).2.1 := by
  intro order
  induction order with
  | nil => exact fun buf s got h _ _ => ⟨rfl, got, fun i hi => Or.inl hi, h⟩
  | cons o order ih =>
    intro buf s got h hnd hnew
    obtain ⟨i, mode, d⟩ := o
    rw [List.map_cons, List.nodup_cons] at hnd
    have hnew' : ∀ j ∈ order.map Prod.fst, j ∉ got := fun j hj =>
      hnew j (List.mem_cons_of_mem _ hj)
    cases hr : f.received i with
    | none =>
      have : f.arrivals ((i, mode, d) :: order) = f.arrivals order := by
        simp [arrivals, hr]
      rw [this]
      obtain ⟨ha, got', hg, hs⟩ := ih buf s got h hnd.2 hnew'
      exact ⟨ha, got', fun j hj => (hg j hj).imp_right (List.mem_cons_of_mem _), hs⟩
    | some p =>
      have : f.arrivals ((i, mode, d) :: order) = (p, mode, d) :: f.arrivals order := by
        simp [arrivals, hr]
      rw [this]
      obtain ⟨ha, hs⟩ := gathered_step h (isPacket hr) hone hn (hnew i (List.mem_cons_self ..)) buf
        mode d
      obtain ⟨ha', got', hg, hs'⟩ := ih (insertPacket s buf p mode d).2.2 _ (i :: got) hs hnd.2
        fun j hj hjg => (List.mem_cons.1 hjg).elim (fun e => hnd.1 (e ▸ hj)) (hnew' j hj)
      refine ⟨?_, got', fun j hj => ?_, hs'⟩
      · rw [recordAssertsPassAll, Bool.and_eq_true]
        exact ⟨ha, ha'⟩
      · rcases hg j hj with hj | hj
        · rcases List.mem_cons.1 hj with rfl | hj
          · exact Or.inr (List.mem_cons_self ..)
          · exact Or.inl hj
        · exact Or.inr (List.mem_cons_of_mem _ hj)

/-- A list in sequence from packet 0 to the last one holds them all. -/
theorem Gathered.all (h : f.Gathered got s) (hn : f.packets.length ≤ 0x8001)
    (hc : s.complete = true) : ∀ i < f.packets.length, i ∈ got := by
  intro i hi
  obtain ⟨hfirst, hlast, hseq⟩ := h.complete hc
  obtain ⟨v, hv⟩ := Option.isSome_iff_exists.1 hfirst
  obtain ⟨w, hw⟩ := Option.isSome_iff_exists.1 hlast
  obtain ⟨rfl, -, hfm⟩ := h.first v hv
  obtain ⟨rfl, -, hlm⟩ := h.last w hw
  obtain ⟨x, hx, hxs⟩ := List.mem_map.1 hfm
  obtain ⟨y, hy, hys⟩ := List.mem_map.1 hlm
  have hfew := h.few
  simp only [kMaxPacketsInSession] at hfew
  cases hps : s.packets with
  | nil => rw [hps] at hx; exact absurd hx List.not_mem_nil
  | cons q ps =>
    rw [hps] at hseq hx hy hfew
    -- seen from the front packet the distances count up, so it is packet 0
    have hk0 : key q.pkt.seqNum q = 0 := Serial.dist_self _
    have hkeys := @inSequence_keys q.pkt.seqNum q ps hseq (by rw [hk0]; omega)
    have hfront : q.pkt.seqNum = f.base := by
      obtain ⟨j, -, hj, hqs⟩ := h.numbers q (by rw [hps]; exact List.mem_cons_self ..)
      have hkx : key q.pkt.seqNum x ∈ (q :: ps).map (key q.pkt.seqNum) := List.mem_map_of_mem hx
      rw [hkeys, hk0, List.mem_range'_1, key, hxs, hqs] at hkx
      have hb := f.base.toNat_lt
      have : j = 0 := by
        have hlt := hkx.2
        simp only [Serial.dist, UInt16.toNat_sub, UInt16.toNat_add, UInt16.toNat_ofNat'] at hlt
        omega
      rw [hqs, this]
      simp
    rw [hfront, key, hfront, Serial.dist_self] at hkeys
    have hky : key f.base y ∈ (q :: ps).map (key f.base) := List.mem_map_of_mem hy
    rw [hkeys, List.mem_range'_1, key, hys, dist_add _ (by omega)] at hky
    have hmem : i ∈ (q :: ps).map (key f.base) := by
      rw [hkeys, List.mem_range'_1]
      omega
    obtain ⟨z, hz, hzk⟩ := List.mem_map.1 hmem
    obtain ⟨j, hj, hjn, hzs⟩ := h.numbers z (hps ▸ hz)
    rw [key, hzs, dist_add _ (by omega)] at hzk
    exact hzk ▸ hj

/-! ## Two first packets, or too many packets -/

/-- Packet 0 and then one that is flagged too, or lies half the circle on. -/
theorem asserts_fail {j : Nat} {p₀ p : VCMPacket} (h₀ : f.IsPacket 0 p₀) (h : f.IsPacket j p)
    (hj : 0 < j) (hj' : j ≤ 0x8000)
    (hbad : p.isFirstPacket = true ∨ j = 0x8000 ∧ j + 1 ≠ f.packets.length) (buf : Bytes)
    (mode : DecodeErrorMode) (d : FrameData) :
    recordAssertsPass (insertPacket {} buf p₀ mode d).2.1 p = false := by
  have ht : Taken {} p₀ := ⟨⟨h₀.media, by decide, rfl⟩, Or.inl (Or.inr h₀.codec)⟩
  obtain ⟨-, off, size, shift, hinfo⟩ := insertPacket_taken ht buf mode d
  have hinfo : (insertPacket {} buf p₀ mode d).2.1 = taken {} p₀ off size shift mode d := hinfo
  rw [hinfo]
  obtain ⟨hps, hfirst, -⟩ := taken_fields off size shift mode d ht
  have hps : (taken {} p₀ off size shift mode d).packets = [⟨p₀, off, size⟩] := hps
  have hfirst : (taken {} p₀ off size shift mode d).firstPacketSeqNum = some f.base := by
    rw [hfirst]
    simp only [Info.trackWidening, h₀.zero, if_true, h₀.seqNum]
    simp
  have hne : p₀.seqNum ≠ p.seqNum := by
    rw [h₀.seqNum, h.seqNum, ne_eq, add_inj (by omega) (by omega)]
    omega
  have hdup : isDuplicate (scanFront [⟨p₀, off, size⟩] p.seqNum) p.seqNum = false := by
    refine Bool.eq_false_iff.2 fun hd => ?_
    obtain ⟨q, hq, hs, -⟩ := duplicate_mem hd
    rw [List.mem_singleton.1 hq] at hs
    exact hne hs
  have hhold : (taken {} p₀ off size shift mode d).recordAssertsHold p = false := by
    unfold Info.recordAssertsHold
    rw [hfirst]
    split
    · rfl
    · rename_i hpf
      obtain ⟨rfl, hlast⟩ := hbad.resolve_left hpf
      rw [h.marker, decide_eq_false hlast, if_neg Bool.false_ne_true, Option.all_some, h.seqNum]
      have : isNewerSequenceNumber (f.base + .ofNat 0x8000) f.base = false := by
        have hb := f.base.toNat_lt
        simp only [isNewerSequenceNumber, Bool.and_eq_false_iff, decide_eq_false_iff_not,
          UInt16.toNat_sub, UInt16.toNat_add, UInt16.toNat_ofNat']
        omega
      rw [this, Bool.false_and]
  rw [recordAssertsPass, hps, hdup, hhold]
  simp [h.media, kMaxPacketsInSession]

theorem not_believed {j : Nat} (hj : 0 < j) (hj' : j ≤ 0x8000) (hlt : j < f.packets.length)
    (hbad : (L1.H264.firstFlags f.payload f.maxLen f.frags)[j]? = some true ∨
      j = 0x8000 ∧ j + 1 ≠ f.packets.length) : ¬ f.Believed := by
  intro hbel
  obtain ⟨p₀, hr₀⟩ := received_isSome (f := f) (i := 0) (by omega)
  obtain ⟨p, hr⟩ := received_isSome hlt
  have hp := isPacket hr
  have hbad' : p.isFirstPacket = true ∨ j = 0x8000 ∧ j + 1 ≠ f.packets.length :=
    hbad.imp_left fun he => Option.some.inj (hp.flag.symm.trans he)
  have := (hbel [] [(0, .noErrors, ⟨0, 0⟩), (j, .noErrors, ⟨0, 0⟩)] (by
    simp only [List.map_cons, List.map_nil, List.nodup_cons, List.mem_singleton, List.not_mem_nil,
      not_false_eq_true, List.nodup_nil, and_true]
    omega)).1
  have harr : f.arrivals [(0, .noErrors, ⟨0, 0⟩), (j, .noErrors, ⟨0, 0⟩)] =
      [(p₀, .noErrors, ⟨0, 0⟩), (p, .noErrors, ⟨0, 0⟩)] := by
    simp [arrivals, hr₀, hr]
  rw [harr] at this
  simp only [recordAssertsPassAll,
    asserts_fail (isPacket hr₀) hp hj hj' hbad' [] .noErrors ⟨0, 0⟩, Bool.false_and, Bool.and_false,
    Bool.false_eq_true] at this

/-- **One first packet.** The asserts on the recorded numbers hold and
`complete_` waits for every packet, whichever packets come in whichever order,
exactly when the packetizer made one first packet (one NAL unit, or one STAP-A
for all) and no more packets than the comparison of numbers can order. -/
theorem one_first_iff (f : H264Frame) :
    f.Believed ↔ f.OneFirst ∧ f.packets.length ≤ 0x8001 := by
  constructor
  · intro hbel
    have hn : f.packets.length ≤ 0x8001 := by
      refine Nat.le_of_not_lt fun hlt => ?_
      exact not_believed (f := f) (j := 0x8000) (by decide) (Nat.le_refl _) (by omega)
        (Or.inr ⟨rfl, by omega⟩) hbel
    refine ⟨(L1.H264.first_packets f.room f.wf).2.2 fun i hi b hb => ?_, hn⟩
    have hlt : i < f.packets.length := by
      have := (List.getElem?_eq_some_iff.1 hb).1
      rwa [L1.H264.firstFlags, List.length_map] at this
    cases b with
    | false => rfl
    | true => exact absurd hbel (not_believed hi (by omega) hlt (Or.inl hb))
  · rintro ⟨hone, hn⟩ buf order hnd
    have h0 : f.Gathered [] {} :=
      ⟨fun q hq => absurd hq List.not_mem_nil, fun v hv => (nomatch hv), fun v hv => (nomatch hv),
        fun hc => (nomatch hc), Nat.zero_le _⟩
    obtain ⟨ha, got, hg, hs⟩ := gathered_run hone hn order buf {} [] h0 hnd
      fun i _ => List.not_mem_nil
    refine ⟨ha, fun hc i hi => ?_⟩
    exact (hg i (hs.all hn hc i hi)).resolve_left List.not_mem_nil

/-- Two slices that do not fit one packet together. -/
def slices : H264Frame where
  payload := [0x41, 1, 2, 0x41, 3, 4]
  frags := [⟨0, 3⟩, ⟨3, 3⟩]
  maxLen := 6
  timestamp := 9
  base := 10
  wf := by
    intro f hf
    simp only [List.mem_cons, List.not_mem_nil, or_false] at hf
    rcases hf with rfl | rfl <;> exact ⟨by decide, by decide, by decide, by decide⟩
  room := by decide

/-- In order the second slice meets a session that has its first packet; alone
it makes the session complete. -/
theorem two_slices :
    slices.packets.length = 2 ∧
    recordAssertsPassAll {} [] (slices.arrivals [(0, .noErrors, ⟨0, 0⟩), (1, .noErrors, ⟨0, 0⟩)]) =
      false ∧
    (insertAll {} [] (slices.arrivals [(1, .noErrors, ⟨0, 0⟩)])).2.1.complete = true ∧
    ¬ slices.Believed := by
  have hasserts : recordAssertsPassAll {} []
      (slices.arrivals [(0, .noErrors, ⟨0, 0⟩), (1, .noErrors, ⟨0, 0⟩)]) = false := by decide
  refine ⟨by decide, hasserts, by decide, fun h => ?_⟩
  rw [(h [] _ (by decide)).1] at hasserts
  cases hasserts

end H264Frame

end L3

end RtcCore
