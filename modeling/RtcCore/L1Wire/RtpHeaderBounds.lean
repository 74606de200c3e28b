import RtcCore.L1Wire.RtpHeader

/-!
# RTP headers: what the parser accepts, and which octets it reads

`RtpHeaderParser::Parse` checks the fixed header, the CSRCs and the extent of the
header extension before it reads them. The walk over the elements of a one-byte
header extension does not check that the value of an element ends in the
extension, and the padding count is not compared with anything.

Results:
- `parse_accepts`, `parse_rejects`: what `Parse` returns.
- `walk_isSome_iff`: the walk reads behind the packet exactly if an element that
  it visits, of a registered type and with that type's length, ends behind it.
- `parse_bounded`: when header and padding are inside of the packet.
-/
namespace RtcCore.L1

open Bytes

namespace RtpHeaderParser

def csrcEnd (b : Bytes) : Nat := 12 + 4 * (getByte b 0 &&& 0x0f).toNat

def headerEnd (b : Bytes) : Nat :=
  if getByte b 0 &&& 0x10 = 0 then csrcEnd b
  else csrcEnd b + 4 + 4 * beValue (slice b (csrcEnd b + 2) 2)

structure Accepts (b : Bytes) : Prop where
  fixed : 12 ≤ b.length
  version : getByte b 0 >>> 6 = 2
  csrcs : csrcEnd b ≤ b.length
  extension : getByte b 0 &&& 0x10 ≠ 0 → csrcEnd b + 4 ≤ b.length
  header : headerEnd b ≤ b.length

/-- The last octet of a packet with padding. -/
def paddingCount (b : Bytes) : Nat :=
  if getByte b 0 &&& 0x20 = 0 then 0 else (getByte b (b.length - 1)).toNat

variable {b : Bytes} {m : Option RtpHeaderExtensionMap} {h₀ h : RTPHeader} {ok : Bool}

/-! ## Reads inside -/

theorem getElem?_getByte {i : Nat} (hi : i < b.length) : b[i]? = some (getByte b i) := by
  rw [getByte, List.getElem?_eq_getElem hi]
  rfl

theorem readBE_isSome {off n : Nat} (hin : off + n ≤ b.length) :
    readBE b off n = some (beValue (slice b off n)) := by
  rw [readBE, readAt, if_pos hin]
  rfl

theorem readBE_none {off n : Nat} (hout : b.length < off + n) : readBE b off n = none := by
  rw [readBE, readAt, if_neg (by omega)]
  rfl

theorem readCsrcs_isSome (n ptr : Nat) (hin : ptr + 4 * n ≤ b.length) :
    ∃ csrcs, readCsrcs b n ptr = some csrcs := by
  induction n generalizing ptr with
  | zero => exact ⟨[], rfl⟩
  | succ n ih =>
    obtain ⟨csrcs, hc⟩ := ih (ptr + 4) (by omega)
    rw [readCsrcs, readBE_isSome (by omega), hc]
    exact ⟨_, rfl⟩

/-! ## The fixed header and the extension block -/

/-- The header up to the CSRCs. -/
def fixedHeader (b : Bytes) (header : RTPHeader) (csrcs : List UInt32) : RTPHeader :=
  { header with
    markerBit := getByte b 1 &&& 0x80 != 0
    payloadType := getByte b 1 &&& 0x7f
    sequenceNumber := .ofNat (beValue (slice b 2 2))
    timestamp := .ofNat (beValue (slice b 4 4))
    ssrc := .ofNat (beValue (slice b 8 4))
    numCSRCs := getByte b 0 &&& 0x0f
    paddingLength := paddingCount b
    arrOfCSRCs := csrcs ++ header.arrOfCSRCs.drop (getByte b 0 &&& 0x0f).toNat
    headerLength := csrcEnd b
    extension := { header.extension with
      hasTransmissionTimeOffset := false, transmissionTimeOffset := 0
      hasAbsoluteSendTime := false, absoluteSendTime := 0
      hasAudioLevel := false, audioLevel := 0
      hasVideoRotation := false, videoRotation := 0 } }

theorem parse_fixedHeader (m : Option RtpHeaderExtensionMap) (h₀ : RTPHeader) (hlen : 12 ≤ b.length)
    (hv : getByte b 0 >>> 6 = 2) (hc : csrcEnd b ≤ b.length) : ∃ csrcs, parse b m h₀ =
      if getByte b 0 &&& 0x10 = 0 then some (true, fixedHeader b h₀ csrcs)
      else parseExtension b m (csrcEnd b) (fixedHeader b h₀ csrcs) := by
  rw [csrcEnd] at hc
  obtain ⟨csrcs, hcsrcs⟩ := readCsrcs_isSome (getByte b 0 &&& 0x0f).toNat 12 hc
  refine ⟨csrcs, ?_⟩
  rw [parse, if_neg (by omega), getElem?_getByte (show 0 < b.length by omega),
    getElem?_getByte (show 1 < b.length by omega), readBE_isSome (by omega),
    readBE_isSome (by omega), readBE_isSome (by omega)]
  dsimp only [bind, Option.bind]
  rw [if_neg (fun hne => hne hv), if_neg (by omega), hcsrcs, fixedHeader, paddingCount,
    getElem?_getByte (show b.length - 1 < b.length by omega)]
  by_cases hp : getByte b 0 &&& 0x20 = 0
  · rw [if_pos hp, if_pos hp]
    rfl
  · rw [if_neg hp, if_neg hp]
    rfl

/-- What the walk makes of the extension. -/
def extensionWalk (b : Bytes) (m : Option RtpHeaderExtensionMap) (ptr : Nat)
    (extension : RTPHeaderExtension) : Option RTPHeaderExtension :=
  match m with
  | none => some extension
  | some m =>
    if beValue (slice b ptr 2) = 0xBEDE then
      parseOneByteExtensionHeader b m (ptr + 4 + 4 * beValue (slice b (ptr + 2) 2))
        (4 * beValue (slice b (ptr + 2) 2) + 1) (ptr + 4) extension
    else some extension

theorem parseExtension_short {ptr : Nat} (hs : b.length < ptr + 4 ∨
    b.length < ptr + 4 + 4 * beValue (slice b (ptr + 2) 2)) :
    ∃ h', parseExtension b m ptr h = some (false, h') := by
  rw [parseExtension]
  dsimp only
  by_cases h4 : b.length - ptr < 4
  · rw [if_pos h4]
    exact ⟨_, rfl⟩
  · rw [if_neg h4, readBE_isSome (by omega), readBE_isSome (by omega)]
    dsimp only [bind, Option.bind]
    rw [if_pos (by omega)]
    exact ⟨_, rfl⟩

theorem parseExtension_eq {ptr : Nat} (h4 : ptr + 4 ≤ b.length)
    (hx : ptr + 4 + 4 * beValue (slice b (ptr + 2) 2) ≤ b.length) :
    parseExtension b m ptr h = (extensionWalk b m ptr h.extension).map fun extension =>
      (true, { h with
        extension := extension
        headerLength := h.headerLength + 4 + 4 * beValue (slice b (ptr + 2) 2) }) := by
  rw [parseExtension]
  dsimp only
  rw [if_neg (by omega), readBE_isSome (by omega), readBE_isSome (by omega)]
  dsimp only [bind, Option.bind]
  rw [if_neg (by omega)]
  cases m with
  | none => rfl
  | some m =>
    rw [extensionWalk]
    dsimp only
    split
    · cases parseOneByteExtensionHeader b m (ptr + 4 + 4 * beValue (slice b (ptr + 2) 2))
        (4 * beValue (slice b (ptr + 2) 2) + 1) (ptr + 4) h.extension <;> rfl
    · rfl

/-- The walk over the extension of a packet. -/
def walk (b : Bytes) (m : Option RtpHeaderExtensionMap) (extension : RTPHeaderExtension) :
    Option RTPHeaderExtension :=
  if getByte b 0 &&& 0x10 = 0 then some extension else extensionWalk b m (csrcEnd b) extension

theorem parse_accepts (m : Option RtpHeaderExtensionMap) (h₀ : RTPHeader) (ha : Accepts b) :
    ∃ csrcs, parse b m h₀ = (walk b m (fixedHeader b h₀ csrcs).extension).map fun extension =>
      (true, { fixedHeader b h₀ csrcs with
        extension := extension
        headerLength := headerEnd b }) := by
  obtain ⟨csrcs, hp⟩ := parse_fixedHeader m h₀ ha.fixed ha.version ha.csrcs
  refine ⟨csrcs, ?_⟩
  rw [hp, walk, headerEnd]
  by_cases hx : getByte b 0 &&& 0x10 = 0
  · rw [if_pos hx, if_pos hx, if_pos hx]
    rfl
  · have hend := ha.header
    rw [headerEnd, if_neg hx] at hend
    rw [if_neg hx, if_neg hx, if_neg hx, parseExtension_eq (ha.extension hx) hend]
    rfl

theorem parse_rejects (m : Option RtpHeaderExtensionMap) (h₀ : RTPHeader) (hn : ¬ Accepts b) :
    ∃ h, parse b m h₀ = some (false, h) := by
  by_cases hlen : b.length < 12
  · exact ⟨h₀, if_pos hlen⟩
  · by_cases hfix : getByte b 0 >>> 6 = 2 ∧ csrcEnd b ≤ b.length
    · obtain ⟨csrcs, hp⟩ := parse_fixedHeader m h₀ (by omega) hfix.1 hfix.2
      by_cases hx : getByte b 0 &&& 0x10 = 0
      · refine absurd ⟨by omega, hfix.1, hfix.2, fun hne => absurd hx hne, ?_⟩ hn
        rw [headerEnd, if_pos hx]
        exact hfix.2
      · rw [hp, if_neg hx]
        apply parseExtension_short
        by_contra hin
        refine hn ⟨by omega, hfix.1, hfix.2, fun _ => by omega, ?_⟩
        rw [headerEnd, if_neg hx]
        omega
    · rw [parse, if_neg hlen, getElem?_getByte (show 0 < b.length by omega),
        getElem?_getByte (show 1 < b.length by omega), readBE_isSome (by omega),
        readBE_isSome (by omega), readBE_isSome (by omega)]
      dsimp only [bind, Option.bind]
      by_cases hv : getByte b 0 >>> 6 = 2
      · have hc : 12 + 4 * (getByte b 0 &&& 0x0f).toNat > b.length := by
          have hlong := not_and.1 hfix hv
          rw [csrcEnd] at hlong
          omega
        rw [if_neg (fun hne => hne hv), if_pos hc]
        exact ⟨h₀, rfl⟩
      · rw [if_pos hv]
        exact ⟨h₀, rfl⟩

theorem parse_spec (hp : parse b m h₀ = some (ok, h)) :
    (ok = true ↔ Accepts b) ∧
      (ok = true → h.markerBit = (getByte b 1 &&& 0x80 != 0) ∧
        h.payloadType = getByte b 1 &&& 0x7f ∧
        h.sequenceNumber = .ofNat (beValue (slice b 2 2)) ∧ h.headerLength = headerEnd b) := by
  by_cases ha : Accepts b
  · obtain ⟨csrcs, heq⟩ := parse_accepts m h₀ ha
    rw [heq] at hp
    obtain ⟨ext, -, hp⟩ := Option.map_eq_some_iff.1 hp
    cases hp
    exact ⟨iff_of_true rfl ha, fun _ => ⟨rfl, rfl, rfl, rfl⟩⟩
  · obtain ⟨h', heq⟩ := parse_rejects m h₀ ha
    rw [heq] at hp
    cases hp
    exact ⟨iff_of_false Bool.false_ne_true ha, fun hok => absurd hok Bool.false_ne_true⟩

theorem headerEnd_bounds (ha : Accepts b) : 12 ≤ headerEnd b ∧ headerEnd b ≤ b.length := by
  refine ⟨?_, ha.header⟩
  rw [headerEnd, csrcEnd]
  split <;> omega

/-- What the parser accepts depends on the first octet and on those behind the fixed header. -/
theorem Accepts.congr {c : Bytes} (ha : Accepts b) (hlen : headerEnd b ≤ c.length)
    (h : ∀ i, i < headerEnd b → i = 0 ∨ 12 ≤ i → getByte c i = getByte b i) :
    Accepts c ∧ headerEnd c = headerEnd b := by
  obtain ⟨h12, hle⟩ := headerEnd_bounds ha
  have h0 : getByte c 0 = getByte b 0 := h 0 (by omega) (.inl rfl)
  have hcs : csrcEnd c = csrcEnd b := by rw [csrcEnd, h0, csrcEnd]
  have hext : getByte b 0 &&& 0x10 ≠ 0 → headerEnd b =
      csrcEnd b + 4 + 4 * beValue (slice b (csrcEnd b + 2) 2) := fun hx => if_neg hx
  have hcsle : csrcEnd b ≤ headerEnd b := by
    rw [headerEnd]
    split <;> omega
  have hend : headerEnd c = headerEnd b := by
    rw [headerEnd, h0, hcs]
    by_cases hx : getByte b 0 &&& 0x10 = 0
    · rw [if_pos hx, headerEnd, if_pos hx]
    · have hb := hext hx
      have hmin : 12 ≤ csrcEnd b := by rw [csrcEnd]; omega
      rw [if_neg hx, hb, slice_congr (by omega) (by omega) fun j hj =>
        h (csrcEnd b + 2 + j) (by omega) (.inr (by omega))]
  refine ⟨⟨by omega, h0 ▸ ha.version, by omega, fun hx => ?_, by omega⟩, hend⟩
  have := hext (h0 ▸ hx)
  omega

theorem parse_isSome (h₀ : RTPHeader) (ha : Accepts b) : ∃ r, parse b none h₀ = some r := by
  obtain ⟨csrcs, heq⟩ := parse_accepts none h₀ ha
  have hwalk : ∀ ext, walk b none ext = some ext := by
    intro ext
    rw [walk]
    split <;> rfl
  rw [heq, hwalk]
  exact ⟨_, rfl⟩

/-! ## The walk over the elements -/

def elementId (b : Bytes) (ptr : Nat) : UInt8 := (getByte b ptr &&& 0xf0) >>> 4

def elementLen (b : Bytes) (ptr : Nat) : UInt8 := getByte b ptr &&& 0x0f

/-- How many octets are skipped as padding: the counter has eight bits. -/
def zeros (b : Bytes) (ptr extensionEnd : Nat) : Nat :=
  ((slice b ptr (extensionEnd - ptr)).takeWhile (· = 0)).length % 256

def nextElement (b : Bytes) (extensionEnd ptr : Nat) : Nat :=
  let next := ptr + 1 + ((elementLen b ptr).toNat + 1)
  next + zeros b next extensionEnd

/-- The element has the length of the type that is registered for it, if any. -/
def Fitting (b : Bytes) (map : RtpHeaderExtensionMap) (ptr : Nat) : Prop :=
  elementId b ptr ≠ 15 ∧ ∀ type, map.getType (elementId b ptr) = some type →
    (elementLen b ptr).toNat + 2 = type.length

/-- From `ptr` on, the walk comes to the element at `p`: elements that do not fit end it. -/
inductive Visits (b : Bytes) (map : RtpHeaderExtensionMap) (extensionEnd : Nat) : Nat → Nat → Prop
  | here {ptr : Nat} (h : ptr < extensionEnd) : Visits b map extensionEnd ptr ptr
  | later {ptr p : Nat} (h : ptr < extensionEnd) (hf : Fitting b map ptr)
      (hv : Visits b map extensionEnd (nextElement b extensionEnd ptr) p) :
      Visits b map extensionEnd ptr p

/-- The value that is read for the element, if any, ends in the packet. -/
def ValueInside (b : Bytes) (map : RtpHeaderExtensionMap) (ptr : Nat) : Prop :=
  Fitting b map ptr → ∀ type, map.getType (elementId b ptr) = some type →
    ptr + type.length ≤ b.length

theorem parsePaddingBytes_eq : ∀ (left ptr : Nat) (z : UInt8), (0 < left → ptr + left ≤ b.length) →
    parsePaddingBytes b left ptr z =
      some (z + UInt8.ofNat ((slice b ptr left).takeWhile (· = 0)).length) := by
  intro left
  induction left with
  | zero =>
    intro ptr z _
    simp [parsePaddingBytes, slice]
  | succ left ih =>
    intro ptr z hin
    have hlt : ptr < b.length := by
      have := hin (Nat.succ_pos left)
      omega
    have hslice : slice b ptr (left + 1) = getByte b ptr :: slice b (ptr + 1) left := by
      rw [slice, slice, List.drop_eq_getElem_cons hlt, List.take_succ_cons, getByte,
        List.getElem?_eq_getElem hlt, Option.getD_some]
    rw [parsePaddingBytes, getElem?_getByte hlt, hslice, List.takeWhile_cons]
    dsimp only
    by_cases hz : getByte b ptr = 0
    · rw [if_neg (not_not_intro hz), if_pos (decide_eq_true hz), ih _ _ (by omega), List.length_cons]
      congr 1
      apply UInt8.toNat_inj.1
      simp only [UInt8.toNat_add, UInt8.toNat_ofNat', UInt8.reduceToNat]
      omega
    · rw [if_pos hz, if_neg (by simpa using hz)]
      simp

theorem parsePaddingBytes_count {ptr extensionEnd : Nat} (he : extensionEnd ≤ b.length) :
    ∃ n, parsePaddingBytes b (extensionEnd - ptr) ptr 0 = some n ∧
      n.toNat = zeros b ptr extensionEnd := by
  refine ⟨_, parsePaddingBytes_eq _ _ _ (by omega), ?_⟩
  rw [UInt8.zero_add, UInt8.toNat_ofNat']
  rfl

/-- What is read of one element. -/
theorem parseElement_cases (ptr : Nat) (len : UInt8) (h : RTPHeaderExtension)
    (type : RTPExtensionType) :
    (len.toNat + 2 ≠ type.length → parseElement b (ptr + 1) len h type = some none) ∧
    (len.toNat + 2 = type.length → b.length < ptr + type.length →
      parseElement b (ptr + 1) len h type = none) ∧
    (len.toNat + 2 = type.length → ptr + type.length ≤ b.length →
      ∃ h', parseElement b (ptr + 1) len h type = some (some h')) := by
  have hlen (n : UInt8) : len ≠ n ↔ len.toNat ≠ n.toNat := by rw [ne_eq, ← UInt8.toNat_inj]
  cases type <;> simp only [parseElement, RTPExtensionType.length, hlen, UInt8.reduceToNat] <;>
    refine ⟨fun hne => ?_, fun heq hout => ?_, fun heq hin => ?_⟩
  all_goals first
    | exact if_pos (by omega)
    | rw [if_neg (by omega), readBE_none (by omega)]
      rfl
    | rw [if_neg (by omega), readBE_isSome (by omega)]
      exact ⟨_, rfl⟩

section Walk

variable {map : RtpHeaderExtensionMap} {extensionEnd : Nat}

/-- Every round moves on, so fuel for each octet that is left is enough. -/
theorem walk_fuel : ∀ (fuel fuel' ptr : Nat) (h : RTPHeaderExtension), extensionEnd - ptr < fuel →
    extensionEnd - ptr < fuel' → parseOneByteExtensionHeader b map extensionEnd fuel ptr h =
      parseOneByteExtensionHeader b map extensionEnd fuel' ptr h := by
  intro fuel
  induction fuel with
  | zero => exact fun _ _ _ hf _ => absurd hf (Nat.not_lt_zero _)
  | succ fuel ih =>
    intro fuel' ptr h hf hf'
    obtain ⟨k, rfl⟩ : ∃ k, fuel' = k + 1 := ⟨fuel' - 1, by omega⟩
    have hrec : ∀ (n : Nat) (h : RTPHeaderExtension), ptr < n → ¬ extensionEnd ≤ ptr →
        parseOneByteExtensionHeader b map extensionEnd fuel n h =
          parseOneByteExtensionHeader b map extensionEnd k n h :=
      fun n h hn he => ih k n h (by omega) (by omega)
    rw [parseOneByteExtensionHeader, parseOneByteExtensionHeader]
    by_cases he : extensionEnd ≤ ptr
    · rw [if_pos he, if_pos he]
    · have hmove : ∀ (x n : UInt8), ptr < ptr + 1 + ((x &&& 0x0f).toNat + 1) + n.toNat :=
        fun x n => by omega
      simp only [hrec _ _ (hmove _ _) he]

theorem visits_iff {ptr : Nat} (hlt : ptr < extensionEnd) (P : Nat → Prop) :
    (∀ p, Visits b map extensionEnd ptr p → P p) ↔ P ptr ∧ (Fitting b map ptr →
      ∀ p, Visits b map extensionEnd (nextElement b extensionEnd ptr) p → P p) := by
  constructor
  · exact fun h => ⟨h ptr (.here hlt), fun hf p hv => h p (.later hlt hf hv)⟩
  · intro h p hv
    cases hv with
    | here => exact h.1
    | later _ hf hv => exact h.2 hf p hv

/-- The walk reads behind the packet exactly if the value of an element does that fits. -/
theorem walk_isSome_iff (he : extensionEnd ≤ b.length) : ∀ (fuel ptr : Nat)
    (h : RTPHeaderExtension), extensionEnd - ptr < fuel →
    ((parseOneByteExtensionHeader b map extensionEnd fuel ptr h).isSome = true ↔
      ∀ p, Visits b map extensionEnd ptr p → ValueInside b map p) := by
  intro fuel
  induction fuel with
  | zero => exact fun _ _ hf => absurd hf (Nat.not_lt_zero _)
  | succ fuel ih =>
    intro ptr h hf
    rw [parseOneByteExtensionHeader]
    by_cases hend : extensionEnd ≤ ptr
    · rw [if_pos hend]
      refine iff_of_true rfl fun p hv => ?_
      cases hv <;> omega
    · obtain ⟨n, hn, hzeros⟩ := @parsePaddingBytes_count b
        (ptr + 1 + ((elementLen b ptr).toNat + 1)) extensionEnd he
      have hnext : ptr + 1 + ((elementLen b ptr).toNat + 1) + n.toNat =
          nextElement b extensionEnd ptr := by
        rw [hzeros]
        rfl
      rw [if_neg hend, getElem?_getByte (by omega), visits_iff (by omega)]
      dsimp only
      rw [← elementId, ← elementLen, hn]
      dsimp only
      rw [hnext]
      have hmore := fun (h : RTPHeaderExtension) => ih (nextElement b extensionEnd ptr) h (by omega)
      by_cases h15 : elementId b ptr = 15
      · rw [if_pos h15]
        exact iff_of_true rfl ⟨fun hfit => absurd h15 hfit.1, fun hfit => absurd h15 hfit.1⟩
      · rw [if_neg h15]
        cases htype : map.getType (elementId b ptr) with
        | none =>
          have hfit : Fitting b map ptr := ⟨h15, by simp [htype]⟩
          have hin : ValueInside b map ptr := by simp [ValueInside, htype]
          dsimp only
          rw [hmore]
          exact ⟨fun hv => ⟨hin, fun _ => hv⟩, fun hv => hv.2 hfit⟩
        | some type =>
          obtain ⟨hwrong, hbehind, hread⟩ :=
            parseElement_cases (b := b) ptr (elementLen b ptr) h type
          by_cases hlen : (elementLen b ptr).toNat + 2 = type.length
          · have hfit : Fitting b map ptr := ⟨h15, by simpa [htype] using hlen⟩
            by_cases hval : ptr + type.length ≤ b.length
            · have hin : ValueInside b map ptr := by simpa [ValueInside, htype] using fun _ => hval
              obtain ⟨h', heq⟩ := hread hlen hval
              dsimp only
              rw [heq]
              dsimp only
              rw [hmore]
              exact ⟨fun hv => ⟨hin, fun _ => hv⟩, fun hv => hv.2 hfit⟩
            · dsimp only
              rw [hbehind hlen (by omega)]
              refine iff_of_false Bool.false_ne_true fun hv => hval ?_
              exact hv.1 hfit type htype
          · have hunfit : ¬ Fitting b map ptr := fun hfit => hlen (hfit.2 type htype)
            dsimp only
            rw [hwrong hlen]
            exact iff_of_true rfl
              ⟨fun hfit => absurd hfit hunfit, fun hfit => absurd hfit hunfit⟩

end Walk

/-! ## The whole header -/

/-- Every value that is read ends in the packet. -/
def ValuesInside (b : Bytes) (m : Option RtpHeaderExtensionMap) : Prop :=
  ∀ map, m = some map → getByte b 0 &&& 0x10 ≠ 0 → beValue (slice b (csrcEnd b) 2) = 0xBEDE →
    ∀ p, Visits b map (headerEnd b) (csrcEnd b + 4) p → ValueInside b map p

theorem walk_inside_iff (ha : Accepts b) (m : Option RtpHeaderExtensionMap)
    (extension : RTPHeaderExtension) :
    (walk b m extension).isSome = true ↔ ValuesInside b m := by
  rw [walk]
  by_cases hx : getByte b 0 &&& 0x10 = 0
  · rw [if_pos hx]
    exact iff_of_true rfl fun _ _ hne => absurd hx hne
  · have hend : headerEnd b = csrcEnd b + 4 + 4 * beValue (slice b (csrcEnd b + 2) 2) := if_neg hx
    rw [if_neg hx]
    cases m with
    | none => exact iff_of_true rfl fun _ hm => nomatch hm
    | some map =>
      rw [extensionWalk, ← hend]
      by_cases hp : beValue (slice b (csrcEnd b) 2) = 0xBEDE
      · rw [if_pos hp, walk_isSome_iff ha.header _ _ _ (by omega)]
        constructor
        · intro hv _ hm _ _
          cases hm
          exact hv
        · exact fun hv => hv map rfl hx hp
      · rw [if_neg hp]
        exact iff_of_true rfl fun _ _ _ hne => absurd hne hp

/-- `Parse` returns, and an accepted packet holds its header and its padding. -/
def Bounded (b : Bytes) (m : Option RtpHeaderExtensionMap) (h₀ : RTPHeader) : Prop :=
  ∃ ok h, parse b m h₀ = some (ok, h) ∧
    (ok = true → h.headerLength + h.paddingLength ≤ b.length)

instance : Decidable (Bounded b m h₀) :=
  decidable_of_iff ((parse b m h₀).any fun r =>
    !r.1 || decide (r.2.headerLength + r.2.paddingLength ≤ b.length)) <| by
    rw [Bounded]
    cases parse b m h₀ with
    | none => simp
    | some r =>
      obtain ⟨ok, h⟩ := r
      cases ok <;> simp

theorem bounded_iff (ha : Accepts b) (m : Option RtpHeaderExtensionMap) (h₀ : RTPHeader) :
    Bounded b m h₀ ↔ headerEnd b + paddingCount b ≤ b.length ∧ ValuesInside b m := by
  obtain ⟨csrcs, hp⟩ := parse_accepts m h₀ ha
  rw [← walk_inside_iff ha m (fixedHeader b h₀ csrcs).extension, Bounded, hp]
  cases walk b m (fixedHeader b h₀ csrcs).extension with
  | none =>
    refine iff_of_false ?_ fun h => Bool.false_ne_true h.2
    rintro ⟨_, _, heq, _⟩
    cases heq
  | some extension =>
    constructor
    · rintro ⟨_, _, heq, hin⟩
      cases heq
      exact ⟨hin rfl, rfl⟩
    · exact fun h => ⟨_, _, rfl, fun _ => h.1⟩

/-- What is left for the depacketizer.
mirrors webrtc/video_engine/vie_receiver.cc:276 and
webrtc/modules/rtp_rtcp/source/rtp_receiver_video.cc:61-62 -/
def payloadDataLength (rtpPacketLength : Nat) (h : RTPHeader) : UInt64 :=
  let payloadLength : UInt64 := .ofNat rtpPacketLength - .ofNat h.headerLength
  payloadLength - .ofNat h.paddingLength

theorem payloadDataLength_exact (hin : h.headerLength + h.paddingLength ≤ b.length)
    (hsize : b.length < 2 ^ 64) :
    (payloadDataLength b.length h).toNat = b.length - (h.headerLength + h.paddingLength) := by
  simp only [payloadDataLength, UInt64.toNat_sub, UInt64.toNat_ofNat']
  omega

/-- The loop over the elements ends. `Parse` stays inside of the packet exactly if the
padding count and the values of the visited elements do. -/
theorem parse_bounded (b : Bytes) (m : Option RtpHeaderExtensionMap) (h₀ : RTPHeader) :
    (∀ map extensionEnd ptr extension fuel, extensionEnd - ptr < fuel →
      parseOneByteExtensionHeader b map extensionEnd fuel ptr extension =
        parseOneByteExtensionHeader b map extensionEnd (extensionEnd - ptr + 1) ptr extension) ∧
    (Bounded b m h₀ ↔
      (Accepts b → headerEnd b + paddingCount b ≤ b.length ∧ ValuesInside b m)) := by
  refine ⟨fun map extensionEnd ptr extension fuel hf => ?_, ?_⟩
  · exact walk_fuel _ _ _ _ hf (Nat.lt_succ_self _)
  · by_cases ha : Accepts b
    · rw [bounded_iff ha]
      exact ⟨fun h _ => h, fun h => h ha⟩
    · obtain ⟨h, hp⟩ := parse_rejects m h₀ ha
      exact iff_of_true ⟨false, h, hp, fun hok => absurd hok Bool.false_ne_true⟩
        fun hacc => absurd hacc ha

/-- A padding count of 255 in a packet that is only the fixed header; an element of three
octets whose extension ends with its first one. -/
theorem parse_unbounded :
    ¬ Bounded [0xA0, 0, 0, 1, 0, 0, 0, 0, 0, 0, 0, 0xff] none {} ∧
    ¬ Bounded [0x90, 0, 0, 1, 0, 0, 0, 0, 0, 0, 0, 0, 0xBE, 0xDE, 0, 1, 0x10, 0xAA, 0, 0x32]
      (RtpHeaderExtensionMap.empty.register .absoluteSendTime 3) {} := by
  decide

end RtpHeaderParser

end RtcCore.L1
