import RtcCore.L1Wire.RtcpFeedback
import RtcCore.L1Wire.RtcpWalk

/-!
# Extended reports, and whole compounds

Results:
- `build_parsed`: iterating over a built compound delivers the items of the
  packets that fit, in order, and nothing else.
- `cname_percent_lost`: a name with a percent sign, which the builder takes and
  the parser does not.
-/
namespace RtcCore.L1.Rtcp

open Bytes

namespace Parser

/-! ## Extended reports -/

section Xr

variable {p : Parser} {inner rest : Bytes} {k : Nat} {is : List Item}

/-- As `Onward`, inside an extended report. -/
def XrOnward (inner rest : Bytes) (is : List Item) : Prop :=
  ∀ (p : Parser) (k : Nat), At p inner rest .xrItem k → Yields 2 p is

theorem xr_end (hk : Onward rest is) : XrOnward [] rest is :=
  fun _ _ h => h.ends (by simp) hk

/-- The header of a report block, and the switch on its type. -/
theorem parse_xrBlockHeader {blockType : UInt8} {n : Nat} (hn : n < 65536) {i : Item}
    {Q : Parser → Prop} (h : At p (createXrBlockHeader blockType n ++ inner) rest .xrItem k)
    (hk : ∀ q, At q inner rest .xrItem k → Delivers
      (if blockType = kBtReceiverReferenceTime then q.parseXrReceiverReferenceTimeItem n
        else if blockType = kBtDlrr then q.parseXrDlrr n
        else if blockType = kBtVoipMetric then q.parseXrVoipMetricItem n
        else q.parseXrUnsupportedBlockType n) i Q) : Delivers p.parseItem i Q := by
  have hl := h.length
  rw [List.length_append, show (createXrBlockHeader blockType n).length = 4 from rfl] at hl
  have hword : be16 n = assignUWord16 (UInt16.ofNat n) := by
    unfold assignUWord16
    rw [UInt16.toNat_ofNat', Nat.mod_eq_of_lt hn]
  unfold createXrBlockHeader at h
  rw [hword] at h
  simp only [List.append_assoc] at h
  unfold parseItem
  rw [h.state]
  show Delivers p.parseXrItem _ _
  unfold parseXrItem
  rw [if_neg (by omega)]
  refine h.u8 fun q h => ?_
  refine h.skip.u16 fun q h => ?_
  dsimp only
  rw [UInt16.toNat_ofNat', Nat.mod_eq_of_lt hn]
  exact hk q h

theorem xr_rrtr (b : Rrtr) (hk : XrOnward inner rest is) :
    XrOnward (createRrtr b ++ inner) rest
      ([.xrReceiverReferenceTime b.ntpMostSignificant b.ntpLeastSignificant] ++ is) := by
  intro p k h
  unfold createRrtr at h
  simp only [List.append_assoc] at h
  refine (h.item (by simp) (Q := fun q => At q inner rest .xrItem k)
    (parse_xrBlockHeader (by omega) h.reset fun q h => ?_) fun q hq => ?_).mono (by omega)
  · have hl := h.length
    simp only [List.length_append, assignUWord32_length] at hl
    rw [if_pos rfl]
    unfold parseXrReceiverReferenceTimeItem
    rw [if_neg (by omega)]
    refine h.u32 fun q h => ?_
    refine h.u32 fun q h => ?_
    exact h.deliver _ _
  · exact (hk q k hq).mono (by omega)

theorem createDlrrItem_length (i : DlrrItem) : (createDlrrItem i).length = 12 := rfl

theorem parse_dlrrItem {i : DlrrItem}
    (h : At p (createDlrrItem i ++ inner) rest .xrDlrrItem (k + 1)) :
    Delivers p.parseItem (.xrDlrrReportBlockItem i.ssrc i.lastRR i.delayLastRR)
      fun q => At q inner rest .xrDlrrItem k := by
  have hl := h.length
  rw [List.length_append, createDlrrItem_length] at hl
  have hb := h.blocks
  unfold createDlrrItem at h
  simp only [List.append_assoc] at h
  unfold parseItem
  rw [h.state]
  show Delivers p.parseXrDlrrItem _ _
  unfold parseXrDlrrItem
  rw [if_neg (by omega), if_neg (by omega)]
  refine h.u32 fun q h => ?_
  refine h.u32 fun q h => ?_
  refine h.u32 fun q h => ?_
  have := h.deliverCounted (.xrDlrrReportBlockItem i.ssrc i.lastRR i.delayLastRR)
  rw [h.state] at this
  exact this

/-- Behind the last item the parser is back among the report blocks. -/
theorem dlrr_end (h : At p inner rest .xrDlrrItem 0) (hk : XrOnward inner rest is) :
    Yields 3 p is := by
  refine h.again (by simp) (Q := fun q => At q inner rest .xrItem 0) ?_ fun q hq => hk q 0 hq
  unfold parseItem
  rw [h.reset.state]
  show Passes (parseXrDlrrItem _) _
  unfold parseXrDlrrItem
  rw [if_pos (show p.numberOfBlocks = 0 from h.blocks)]
  exact .some ⟨rfl, h.valid, h.bound, h.data, h.blockEnd, rfl, h.blocks⟩

theorem xr_dlrr (b : Capped DlrrItem kMaxNumberOfDlrrItems) (hk : XrOnward inner rest is) :
    XrOnward (createDlrr b.list ++ inner) rest (dlrrItems b.list ++ is) := by
  intro p k h
  have hc : b.list.length ≤ 100 := b.bound
  unfold createDlrr at h
  unfold dlrrItems
  cases hempty : b.list.isEmpty with
  | true =>
    rw [hempty] at h
    exact hk p k h
  | false =>
    rw [hempty] at h
    simp only [Bool.false_eq_true, if_false, List.append_assoc] at h ⊢
    refine (h.item (by simp)
      (Q := fun q => At q (b.list.flatMap createDlrrItem ++ inner) rest .xrDlrrItem b.list.length)
      (parse_xrBlockHeader (by omega) h.reset fun q h => ?_) fun q hq => ?_).mono (by omega)
    · rw [if_neg (by decide), if_pos rfl]
      unfold parseXrDlrr
      rw [if_neg (by omega), show 3 * b.list.length / 3 % 256 = b.list.length by omega]
      exact (h.setBlocks _).deliver _ _
    · have hat : At q (b.list.flatMap createDlrrItem ++ inner) rest .xrDlrrItem
          (0 + b.list.length * 1) := by
        rw [Nat.mul_one, Nat.zero_add]
        exact hq
      exact yields_items (by simp) b.list (fun _ _ _ _ _ hq => parse_dlrrItem hq)
        (fun q hq => (dlrr_end hq hk).mono (by omega)) hat

theorem createVoipMetric_length (m : VoipMetricItem) : (createVoipMetric m).length = 36 := by
  unfold createVoipMetric createXrBlockHeader
  simp only [List.length_append, assignUWord32_length, assignUWord16_length, assignUWord8_length,
    be16_length]

theorem xr_voipMetric (m : VoipMetricItem) (hk : XrOnward inner rest is) :
    XrOnward (createVoipMetric m ++ inner) rest ([.xrVoipMetric m] ++ is) := by
  intro p k h
  unfold createVoipMetric at h
  simp only [List.append_assoc] at h
  refine (h.item (by simp) (Q := fun q => At q inner rest .xrItem k)
    (parse_xrBlockHeader (by omega) h.reset fun q h => ?_) fun q hq => ?_).mono (by omega)
  · have hl := h.length
    simp only [List.length_append, assignUWord32_length, assignUWord16_length,
      assignUWord8_length] at hl
    rw [if_neg (by decide), if_neg (by decide), if_pos rfl]
    unfold parseXrVoipMetricItem
    rw [if_neg (by omega)]
    refine h.u32 fun q h => ?_
    refine h.u8 fun q h => ?_
    refine h.u8 fun q h => ?_
    refine h.u8 fun q h => ?_
    refine h.u8 fun q h => ?_
    refine h.u16 fun q h => ?_
    refine h.u16 fun q h => ?_
    refine h.u16 fun q h => ?_
    refine h.u16 fun q h => ?_
    refine h.u8 fun q h => ?_
    refine h.u8 fun q h => ?_
    refine h.u8 fun q h => ?_
    refine h.u8 fun q h => ?_
    refine h.u8 fun q h => ?_
    refine h.u8 fun q h => ?_
    refine h.u8 fun q h => ?_
    refine h.u8 fun q h => ?_
    refine h.u8 fun q h => ?_
    refine h.skip.u16 fun q h => ?_
    refine h.u16 fun q h => ?_
    refine h.u16 fun q h => ?_
    exact h.deliver _ _
  · exact (hk q k hq).mono (by omega)

/-- Report blocks in a row. -/
theorem xr_row {α : Type} {enc : α → Bytes} {items : α → List Item} (xs : List α)
    (step : ∀ x {inner : Bytes} {is : List Item}, XrOnward inner rest is →
      XrOnward (enc x ++ inner) rest (items x ++ is)) (hk : XrOnward inner rest is) :
    XrOnward (xs.flatMap enc ++ inner) rest (xs.flatMap items ++ is) := by
  induction xs with
  | nil => exact hk
  | cons x xs ih =>
    rw [List.flatMap_cons, List.flatMap_cons, List.append_assoc, List.append_assoc]
    exact step x ih

theorem createDlrr_length (items : List DlrrItem) : (createDlrr items).length =
    if items.isEmpty then 0 else 4 + 12 * items.length := by
  unfold createDlrr
  split
  · rfl
  · rw [List.length_append, flatMap_length createDlrrItem_length,
      show ∀ n, (createXrBlockHeader kBtDlrr n).length = 4 from fun _ => rfl]
    omega

theorem Xr.dlrrLength_eq (x : Xr) :
    x.dlrrLength = (x.dlrrBlocks.list.flatMap fun b => createDlrr b.list).length := by
  unfold Xr.dlrrLength
  generalize x.dlrrBlocks.list = bs
  have hfold : ∀ (bs : List (Capped DlrrItem kMaxNumberOfDlrrItems)) (n : Nat),
      bs.foldl (fun length b => if b.list.isEmpty then length else length + (4 + 12 * b.list.length)) n =
        n + (bs.flatMap fun b => createDlrr b.list).length := by
    intro bs
    induction bs with
    | nil => intro n; rfl
    | cons b bs ih =>
      intro n
      rw [List.foldl_cons, ih, List.flatMap_cons, List.length_append, createDlrr_length]
      cases b.list.isEmpty with
      | true => simp
      | false => simp; omega
  rw [hfold, Nat.zero_add]

theorem dlrr_words (bs : List (Capped DlrrItem kMaxNumberOfDlrrItems)) :
    (bs.flatMap fun b => createDlrr b.list).length % 4 = 0 := by
  induction bs with
  | nil => rfl
  | cons b bs ih =>
    rw [List.flatMap_cons, List.length_append, createDlrr_length]
    split <;> omega

theorem Xr.onward (x : Xr) (hmax : x.blockLength < 65536) (hk : Onward rest is) :
    Onward (x.block ++ rest) ((Packet.xr x).items ++ is) := by
  have hn : x.blockLength = 8 + 12 * x.rrtrBlocks.list.length + x.dlrrLength +
    36 * x.voipMetricBlocks.list.length := rfl
  rw [Xr.dlrrLength_eq] at hn
  have hw := dlrr_words x.dlrrBlocks.list
  have h1 := flatMap_length (show ∀ b, (createRrtr b).length = 12 from fun _ => rfl) x.rrtrBlocks.list
  have h2 := flatMap_length createVoipMetric_length x.voipMetricBlocks.list
  refine onward_block (by decide) ?_ (by omega) hmax fun p k h => ?_
  · simp only [List.length_append, assignUWord32_length, h1, h2]
    omega
  have hl := h.length
  simp only [List.length_append, assignUWord32_length, createHeader_length, h1, h2] at hl
  show Delivers p.parseXr _ _
  unfold parseXr
  rw [if_neg (by omega)]
  replace h := h.skipHeader
  simp only [List.append_assoc] at h
  refine h.u32 fun q h => ?_
  show Delivers _ _ fun q => Yields 4 q _
  refine (h.deliver _ _).mono fun q hq => ?_
  rw [show x.voipMetricBlocks.list.flatMap createVoipMetric =
    x.voipMetricBlocks.list.flatMap createVoipMetric ++ [] from (List.append_nil _).symm] at hq
  have hvoip := xr_row x.voipMetricBlocks.list (fun m _ _ h => xr_voipMetric m h) (xr_end hk)
  have hdlrr := xr_row x.dlrrBlocks.list (fun b _ _ h => xr_dlrr b h) hvoip
  have hy := xr_row x.rrtrBlocks.list (fun b _ _ h => xr_rrtr b h) hdlrr q k hq
  rw [← List.map_eq_flatMap, ← List.map_eq_flatMap, ← List.append_assoc, ← List.append_assoc] at hy
  exact hy.mono (by omega)

end Xr

end Parser

/-! ## Compounds -/

namespace Packet

/-- The bitrates in the packet have an exponent. -/
def representable : Packet → Prop
  | .tmmbr p => Parser.TmmbrItem.representable p.item
  | .tmmbn p => ∀ i ∈ p.items.list, Parser.TmmbrItem.representable i
  | .remb p => Parser.Remb.representable p
  | _ => True

/-- A report, with which a compound has to start. -/
def isReport : Packet → Bool
  | .senderReport _ => true
  | .receiverReport _ => true
  | _ => false

/-- Every kind of packet. -/
theorem onward {rest : Bytes} {is : List Item} (p : Packet) (hr : p.representable)
    (hmax : p.blockLength < 65536) (hk : Parser.Onward rest is) :
    Parser.Onward (p.block ++ rest) (p.items ++ is) := by
  cases p with
  | empty => exact hk
  | senderReport p => exact Parser.SenderReport.onward p hk
  | receiverReport p => exact Parser.ReceiverReport.onward p hk
  | ij p => exact Parser.Ij.onward p hk
  | sdes p => exact Parser.Sdes.onward p hmax hk
  | bye p => exact Parser.Bye.onward p hk
  | app p => exact Parser.App.onward p hk
  | pli p => exact Parser.Pli.onward p hk
  | sli p => exact Parser.Sli.onward p hk
  | nack p => exact Parser.Nack.onward p hmax hk
  | rpsi p => exact Parser.Rpsi.onward p hk
  | fir p => exact Parser.Fir.onward p hk
  | tmmbr p => exact Parser.Tmmbr.onward p hr hk
  | tmmbn p => exact Parser.Tmmbn.onward p hr hk
  | remb p => exact Parser.Remb.onward p hr hk
  | xr p => exact Parser.Xr.onward p hmax hk

end Packet

/-! ## What stands in the fields -/

section Fields

/-- The sequence numbers a field of a NACK names. -/
def NackField.numbers (f : NackField) : List UInt16 :=
  f.packetID :: ((List.range 16).filter fun i => f.bitMask.toNat.testBit i).map
    fun i => f.packetID + 1 + UInt16.ofNat i

theorem mem_numbers {f : NackField} {n : UInt16} : n ∈ f.numbers ↔ n = f.packetID ∨
    ∃ i < 16, f.bitMask.toNat.testBit i = true ∧ n = f.packetID + 1 + UInt16.ofNat i := by
  unfold NackField.numbers
  rw [List.mem_cons, List.mem_map]
  constructor
  · rintro (h | ⟨i, hi, rfl⟩)
    · exact Or.inl h
    · obtain ⟨h1, h2⟩ := List.mem_filter.1 hi
      exact Or.inr ⟨i, List.mem_range.1 h1, h2, rfl⟩
  · rintro (h | ⟨i, h1, h2, rfl⟩)
    · exact Or.inl h
    · exact Or.inr ⟨i, List.mem_filter.2 ⟨List.mem_range.2 h1, h2⟩, rfl⟩

theorem or_shift_toNat {mask : UInt16} {s : Nat} (hs : s < 16) :
    (mask ||| (1 <<< UInt16.ofNat s)).toNat = mask.toNat ||| 2 ^ s := by
  have hshift : ((1 : UInt16) <<< UInt16.ofNat s).toNat = 2 ^ s := by
    rw [UInt16.toNat_shiftLeft, UInt16.toNat_ofNat', show (1 : UInt16).toNat = 1 from rfl,
      Nat.shiftLeft_eq, show s % 2 ^ 16 % 16 = s by omega, Nat.one_mul]
    exact Nat.mod_eq_of_lt (Nat.pow_lt_pow_right (by omega) hs)
  rw [UInt16.toNat_or, hshift]

/-- One more number in the mask. -/
theorem mem_numbers_or {pid mask n : UInt16} {s : Nat} (hs : s < 16) :
    n ∈ (NackField.mk pid (mask ||| (1 <<< UInt16.ofNat s))).numbers ↔
      n ∈ (NackField.mk pid mask).numbers ∨ n = pid + 1 + UInt16.ofNat s := by
  have hbit : ∀ i, (mask ||| (1 <<< UInt16.ofNat s)).toNat.testBit i =
      (mask.toNat.testBit i || decide (s = i)) := by
    intro i
    rw [or_shift_toNat hs, Nat.testBit_or, Nat.testBit_two_pow]
  rw [mem_numbers, mem_numbers]
  constructor
  · rintro (h | ⟨i, hi, hb, rfl⟩)
    · exact Or.inl (Or.inl h)
    · rw [hbit, Bool.or_eq_true, decide_eq_true_eq] at hb
      rcases hb with hb | rfl
      · exact Or.inl (Or.inr ⟨i, hi, hb, rfl⟩)
      · exact Or.inr rfl
  · rintro ((h | ⟨i, hi, hb, rfl⟩) | rfl)
    · exact Or.inl h
    · exact Or.inr ⟨i, hi, by rw [hbit, hb]; rfl, rfl⟩
    · exact Or.inr ⟨s, hs, by rw [hbit]; simp, rfl⟩

/-- The numbers taken into the mask are those taken from the list. -/
theorem nackMask_numbers (pid n : UInt16) : ∀ (ns : List UInt16) (mask : UInt16),
    (n ∈ (NackField.mk pid (nackMask pid mask ns).1).numbers ∨ n ∈ (nackMask pid mask ns).2) ↔
      (n ∈ (NackField.mk pid mask).numbers ∨ n ∈ ns) := by
  intro ns
  induction ns with
  | nil => intro mask; rfl
  | cons x ns ih =>
    intro mask
    unfold nackMask
    dsimp only
    split
    · rename_i hs
      have hlt := (x - pid).toNat_lt
      have hx : x = pid + 1 + UInt16.ofNat (((x - pid).toNat : Int) - 1).toNat := by
        have hval : UInt16.ofNat (((x - pid).toNat : Int) - 1).toNat = x - pid - 1 := by
          apply UInt16.toNat_inj.1
          rw [UInt16.toNat_ofNat', UInt16.toNat_sub _ 1]
          show _ = (2 ^ 16 - 1 + (x - pid).toNat) % 2 ^ 16
          omega
        rw [hval]
        apply UInt16.toNat_inj.1
        simp only [UInt16.toNat_add, UInt16.toNat_sub]
        have := x.toNat_lt
        have := pid.toNat_lt
        show _ = (( pid.toNat + 1) % _ + _) % _
        have h1 : (1 : UInt16).toNat = 1 := rfl
        rw [h1]
        omega
      rw [ih, mem_numbers_or (by omega), ← hx, List.mem_cons, or_assoc]
    · rfl

theorem nackMask_length (pid : UInt16) : ∀ (ns : List UInt16) (mask : UInt16),
    (nackMask pid mask ns).2.length ≤ ns.length := by
  intro ns
  induction ns with
  | nil => intro mask; exact Nat.le_refl _
  | cons x ns ih =>
    intro mask
    unfold nackMask
    dsimp only
    split
    · exact Nat.le_trans (ih _) (Nat.le_succ _)
    · exact Nat.le_refl _

/-- A NACK names the numbers of its list. -/
theorem nackFields_numbers (n : UInt16) : ∀ (fuel : Nat) (ns : List UInt16), ns.length ≤ fuel →
    (n ∈ (nackFieldsFuel fuel ns).flatMap NackField.numbers ↔ n ∈ ns) := by
  intro fuel
  induction fuel with
  | zero =>
    intro ns h
    rw [List.length_eq_zero_iff.1 (Nat.le_zero.1 h)]
    rfl
  | succ fuel ih =>
    intro ns h
    cases ns with
    | nil => rfl
    | cons pid ns =>
      have hl := nackMask_length pid ns 0
      rw [List.length_cons] at h
      have hzero : n ∈ (NackField.mk pid 0).numbers ↔ n = pid := by
        rw [mem_numbers]
        simp
      unfold nackFieldsFuel
      dsimp only
      rw [List.flatMap_cons, List.mem_append, ih _ (by omega), nackMask_numbers, hzero, List.mem_cons]

/-- The picture id in a bit string: groups of seven bits. -/
def pictureIdOf (bits : Bytes) : Nat := bits.foldl (fun n b => n * 128 + b.toNat % 128) 0

theorem group_toNat (b : UInt8) : (0x80 ||| b).toNat % 128 = b.toNat % 128 := by
  rw [UInt8.toNat_or]
  show (2 ^ 7 ||| b.toNat) % 2 ^ 7 = b.toNat % 2 ^ 7
  rw [Nat.or_mod_two_pow, Nat.mod_self, Nat.zero_or]

theorem nativeBits_foldl (pid : UInt64) : ∀ (n acc : Nat), n < 10 →
    (nativeBits pid (n + 1)).foldl (fun n b => n * 128 + b.toNat % 128) acc =
      acc * 128 ^ (n + 1) + pid.toNat % 128 ^ (n + 1) := by
  intro n
  induction n with
  | zero =>
    intro acc _
    have hand : ∀ n : Nat, n &&& 127 = n % 128 := fun n => Nat.and_two_pow_sub_one_eq_mod n 7
    simp [nativeBits, hand]
  | succ n ih =>
    intro acc hn
    have hshift : (pid >>> UInt64.ofNat ((n + 1) * 7)).toUInt8.toNat % 128 =
        pid.toNat / 128 ^ (n + 1) % 128 := by
      rw [UInt64.toNat_toUInt8, UInt64.toNat_shiftRight, UInt64.toNat_ofNat',
        Nat.shiftRight_eq_div_pow, show (n + 1) * 7 % 2 ^ 64 % 64 = 7 * (n + 1) by omega, Nat.pow_mul]
      show pid.toNat / 128 ^ (n + 1) % 256 % 128 = _
      omega
    unfold nativeBits
    rw [List.foldl_cons, ih _ (by omega), group_toNat, hshift, Nat.pow_succ _ (n + 1), Nat.mod_mul,
      Nat.add_mul, Nat.mul_assoc, Nat.mul_comm 128, Nat.mul_comm (pid.toNat / _ % 128)]
    omega

theorem shifted_toNat (pid : UInt64) :
    ((pid >>> 7) &&& 0x1ffffffffffffff).toNat = pid.toNat / 128 := by
  rw [UInt64.toNat_and, UInt64.toNat_shiftRight]
  show pid.toNat >>> 7 &&& 2 ^ 57 - 1 = _
  rw [Nat.and_two_pow_sub_one_eq_mod, Nat.shiftRight_eq_div_pow]
  have := pid.toNat_lt
  omega

theorem requiredBytes_pow : ∀ (fuel : Nat) (pid : UInt64), pid.toNat < 128 ^ fuel →
    pid.toNat < 128 ^ requiredBytes fuel pid := by
  intro fuel
  induction fuel with
  | zero => intro pid h; exact h
  | succ fuel ih =>
    intro pid h
    have hshift := shifted_toNat pid
    unfold requiredBytes
    dsimp only
    split
    · have hlt := ih ((pid >>> 7) &&& 0x1ffffffffffffff) (by
        rw [hshift]
        rw [Nat.pow_succ] at h
        omega)
      rw [Nat.add_comm, Nat.pow_succ]
      rw [hshift] at hlt
      omega
    · rename_i hz
      have hz : ¬ 0 < ((pid >>> 7) &&& 0x1ffffffffffffff).toNat := hz
      rw [hshift] at hz
      omega

/-- An RPSI carries its picture id. -/
theorem pictureId_nativeBitString (b : Rpsi) :
    pictureIdOf b.nativeBitString = b.pictureId.toNat := by
  have hlt := requiredBytes_pow 10 b.pictureId (Nat.lt_trans b.pictureId.toNat_lt (by decide))
  have hle := Parser.requiredBytes_le b.pictureId 10
  obtain ⟨n, hn⟩ : ∃ n, requiredBytes 10 b.pictureId = n + 1 := by
    refine ⟨requiredBytes 10 b.pictureId - 1, ?_⟩
    have := (Parser.Rpsi.length_bounds b).1
    rw [Rpsi.nativeBitString, Parser.nativeBits_length] at this
    omega
  unfold pictureIdOf Rpsi.nativeBitString
  rw [hn] at hlt hle ⊢
  rw [nativeBits_foldl _ _ _ (by omega), Nat.zero_mul, Nat.zero_add, Nat.mod_eq_of_lt hlt]

end Fields

/-! ## The octets of a compound -/

namespace Packet

theorem block_length (p : Packet) : p.block.length = p.blockLength := by
  cases p with
  | empty => rfl
  | senderReport p =>
    show p.block.length = p.blockLength
    simp only [SenderReport.block, List.length_append, createHeader_length, assignUWord32_length,
      Parser.flatMap_length Parser.createReportBlock_length]
    unfold SenderReport.blockLength
    omega
  | receiverReport p =>
    show p.block.length = p.blockLength
    simp only [ReceiverReport.block, List.length_append, createHeader_length, assignUWord32_length,
      Parser.flatMap_length Parser.createReportBlock_length]
    unfold ReceiverReport.blockLength
    omega
  | ij p =>
    show p.block.length = p.blockLength
    simp only [Ij.block, List.length_append, createHeader_length,
      Parser.flatMap_length assignUWord32_length]
    unfold Ij.blockLength
    omega
  | sdes p =>
    show p.block.length = p.blockLength
    rw [Parser.Sdes.blockLength_eq, Sdes.block, List.length_append, createHeader_length]
  | bye p =>
    show p.block.length = p.blockLength
    simp only [Bye.block, List.length_append, createHeader_length, assignUWord32_length,
      Parser.flatMap_length assignUWord32_length]
    unfold Bye.blockLength
    omega
  | app p =>
    show p.block.length = p.blockLength
    simp only [App.block, List.length_append, createHeader_length, assignUWord32_length]
    unfold App.blockLength
    omega
  | pli p => rfl
  | sli p => rfl
  | nack p =>
    show p.block.length = kCommonFbFmtLength + 4 * p.nackFields.length
    simp only [Nack.block, createFeedback, List.length_append, createHeader_length,
      assignUWord32_length, Parser.flatMap_length Parser.createNackField_length]
    unfold kCommonFbFmtLength
    omega
  | rpsi p =>
    show p.block.length = kCommonFbFmtLength + (2 + p.nativeBitString.length + p.paddingBytes)
    simp only [Rpsi.block, createFeedback, List.length_append, createHeader_length,
      assignUWord32_length, assignUWord8_length, List.length_replicate]
    unfold kCommonFbFmtLength
    omega
  | fir p => rfl
  | tmmbr p => rfl
  | tmmbn p =>
    show p.block.length = kCommonFbFmtLength + 8 * p.items.list.length
    simp only [Tmmbn.block, createFeedback, List.length_append, createHeader_length,
      assignUWord32_length, Parser.flatMap_length Parser.createTmmbrItem_length]
    unfold kCommonFbFmtLength
    omega
  | remb p =>
    show p.block.length = (p.ssrcs.list.length + 5) * 4
    simp only [Remb.block, createFeedback, List.length_append, createHeader_length,
      assignUWord32_length, assignUWord8_length, List.length_cons, List.length_nil,
      Parser.flatMap_length assignUWord32_length]
    omega
  | xr p =>
    show p.block.length = p.blockLength
    simp only [Xr.block, List.length_append, createHeader_length, assignUWord32_length,
      Parser.flatMap_length Parser.createVoipMetric_length,
      Parser.flatMap_length (show ∀ b, (createRrtr b).length = 12 from fun _ => rfl)]
    unfold Xr.blockLength
    rw [Parser.Xr.dlrrLength_eq]
    omega

/-- The packet type in the header of the block. -/
def packetType : Packet → UInt8
  | .empty => 0
  | .senderReport _ => PT_SR
  | .receiverReport _ => PT_RR
  | .ij _ => PT_IJ
  | .sdes _ => PT_SDES
  | .bye _ => PT_BYE
  | .app _ => PT_APP
  | .pli _ | .sli _ | .rpsi _ | .fir _ | .remb _ => PT_PSFB
  | .nack _ | .tmmbr _ | .tmmbn _ => PT_RTPFB
  | .xr _ => PT_XR

theorem header_words {n : Nat} (hmin : 4 ≤ n) (hmax : n < 65536) :
    (blockToHeaderLength n + 1) * 4 < 65536 := by
  unfold blockToHeaderLength
  omega

theorem block_header {p : Packet} (hne : p ≠ .empty) (hmax : p.blockLength < 65536) :
    ∃ ic length body, p.block = createHeader ic p.packetType length ++ body ∧ ic.toNat ≤ 31 ∧
      (length + 1) * 4 < 65536 := by
  cases p with
  | empty => exact absurd rfl hne
  | senderReport p =>
    have hc : p.reportBlocks.list.length ≤ 31 := p.reportBlocks.bound
    exact ⟨_, _, _, rfl, by rw [Parser.toNat_count hc]; exact hc,
      header_words (by unfold SenderReport.blockLength; omega) hmax⟩
  | receiverReport p =>
    have hc : p.reportBlocks.list.length ≤ 31 := p.reportBlocks.bound
    exact ⟨_, _, _, rfl, by rw [Parser.toNat_count hc]; exact hc,
      header_words (by unfold ReceiverReport.blockLength; omega) hmax⟩
  | ij p =>
    have hc : p.ijItems.list.length ≤ 31 := p.ijItems.bound
    exact ⟨_, _, _, rfl, by rw [Parser.toNat_count hc]; exact hc, by omega⟩
  | sdes p =>
    have hc : p.chunks.list.length ≤ 31 := p.chunks.bound
    exact ⟨_, _, _, rfl, by rw [Parser.toNat_count hc]; exact hc,
      header_words (by rw [Parser.Sdes.blockLength_eq]; omega) hmax⟩
  | bye p =>
    have hc : p.csrcs.list.length ≤ 30 := p.csrcs.bound
    have hw : blockToHeaderLength p.blockLength = 1 + p.csrcs.list.length := by
      unfold blockToHeaderLength Bye.blockLength
      omega
    exact ⟨_, _, _, rfl, by rw [hw, Parser.toNat_count (by omega)]; omega, by omega⟩
  | app p => exact ⟨_, _, _, rfl, p.subType_le, header_words (by unfold App.blockLength; omega) hmax⟩
  | pli p => exact ⟨_, _, _, rfl, by decide, by decide⟩
  | sli p => exact ⟨_, _, _, rfl, by decide, by decide⟩
  | nack p => exact ⟨_, _, _, rfl, by decide, header_words (by unfold kCommonFbFmtLength; omega) hmax⟩
  | rpsi p => exact ⟨_, _, _, rfl, by decide, header_words (by unfold kCommonFbFmtLength; omega) hmax⟩
  | fir p => exact ⟨_, _, _, rfl, by decide, by decide⟩
  | tmmbr p => exact ⟨_, _, _, rfl, by decide, by decide⟩
  | tmmbn p => exact ⟨_, _, _, rfl, by decide, header_words (by unfold kCommonFbFmtLength; omega) hmax⟩
  | remb p =>
    have hc : p.ssrcs.list.length ≤ 255 := p.ssrcs.bound
    exact ⟨_, _, _, rfl, by decide, header_words (by unfold kCommonFbFmtLength; omega)
      (by unfold kCommonFbFmtLength; omega)⟩
  | xr p => exact ⟨_, _, _, rfl, by decide, header_words (by unfold Xr.blockLength; omega) hmax⟩

theorem isReport_iff (p : Packet) :
    p.isReport = (p.packetType == PT_SR || p.packetType == PT_RR) := by
  cases p <;> rfl

end Packet

namespace RtcpPacket

/-! ## The packets of a compound -/

mutual

/-- A packet and the packets appended to it, in the order they are created. -/
def packets : RtcpPacket → List Packet
  | .mk .empty appended => packetsOf appended
  | .mk p appended => p :: packetsOf appended

def packetsOf : List RtcpPacket → List Packet
  | [] => []
  | p :: ps => packets p ++ packetsOf ps

end

/-- The packets that fit behind `length` octets. -/
def written (maxLength : Nat) : Nat → List Packet → List Packet
  | _, [] => []
  | length, p :: ps =>
    if maxLength < length + p.blockLength then written maxLength length ps
    else p :: written maxLength (length + p.blockLength) ps

theorem create_empty (maxLength : Nat) (packet : Bytes) :
    Packet.empty.create maxLength packet = packet := by
  unfold Packet.create
  split
  · rfl
  · exact List.append_nil _

mutual

theorem createAndAddAppended_eq (maxLength : Nat) : ∀ (c : RtcpPacket) (packet : Bytes),
    createAndAddAppended maxLength c packet =
      c.packets.foldl (fun packet p => p.create maxLength packet) packet
  | .mk p appended, packet => by
    rw [createAndAddAppended, addAppended_eq]
    cases p with
    | empty => rw [create_empty, packets]
    | _ => rfl

theorem addAppended_eq (maxLength : Nat) : ∀ (cs : List RtcpPacket) (packet : Bytes),
    addAppended maxLength cs packet =
      (packetsOf cs).foldl (fun packet p => p.create maxLength packet) packet
  | [], packet => rfl
  | c :: cs, packet => by
    rw [addAppended, addAppended_eq, createAndAddAppended_eq, packetsOf, List.foldl_append]

end

mutual

theorem packets_ne_empty : ∀ (c : RtcpPacket), ∀ p ∈ c.packets, p ≠ .empty
  | .mk q appended, p, hp => by
    cases q with
    | empty => exact packetsOf_ne_empty appended p hp
    | _ =>
      rcases List.mem_cons.1 hp with rfl | hp
      · simp
      · exact packetsOf_ne_empty appended p hp

theorem packetsOf_ne_empty : ∀ (cs : List RtcpPacket), ∀ p ∈ packetsOf cs, p ≠ .empty
  | [], p, hp => absurd hp (by simp [packetsOf])
  | c :: cs, p, hp => by
    rw [packetsOf] at hp
    rcases List.mem_append.1 hp with hp | hp
    · exact packets_ne_empty c p hp
    · exact packetsOf_ne_empty cs p hp

end

theorem foldl_create (maxLength : Nat) : ∀ (ps : List Packet) (packet : Bytes),
    ps.foldl (fun packet p => p.create maxLength packet) packet =
      packet ++ (written maxLength packet.length ps).flatMap Packet.block := by
  intro ps
  induction ps with
  | nil => intro packet; exact (List.append_nil _).symm
  | cons p ps ih =>
    intro packet
    have hw : written maxLength packet.length (p :: ps) =
      if maxLength < packet.length + p.blockLength then written maxLength packet.length ps
      else p :: written maxLength (packet.length + p.blockLength) ps := rfl
    rw [List.foldl_cons, ih, hw]
    unfold Packet.create
    by_cases hfull : maxLength < packet.length + p.blockLength
    · simp only [if_pos hfull]
    · simp only [if_neg hfull]
      rw [List.length_append, p.block_length, List.flatMap_cons, List.append_assoc]

theorem written_fits {maxLength : Nat} : ∀ {ps : List Packet} {length : Nat} {p : Packet},
    p ∈ written maxLength length ps → p ∈ ps ∧ p.blockLength ≤ maxLength := by
  intro ps
  induction ps with
  | nil => intro length p hp; cases hp
  | cons q ps ih =>
    intro length p hp
    unfold written at hp
    split at hp
    · exact ⟨List.mem_cons_of_mem _ (ih hp).1, (ih hp).2⟩
    · rename_i hfit
      rcases List.mem_cons.1 hp with rfl | hp
      · exact ⟨List.mem_cons_self, by omega⟩
      · exact ⟨List.mem_cons_of_mem _ (ih hp).1, (ih hp).2⟩

variable (c : RtcpPacket) (maxLength : Nat)

/-- The packets in the buffer. -/
def built : List Packet := written maxLength 0 c.packets

theorem build_eq : c.build maxLength = (c.built maxLength).flatMap Packet.block := by
  unfold build built
  rw [createAndAddAppended_eq, foldl_create]
  rfl

/-- What a parser delivers: nothing for a compound that does not start with a
report, unless reduced-size packets are enabled. -/
def itemsBuilt (reduced : Bool) : List Item :=
  if reduced || ((c.built maxLength).head?.any Packet.isReport) then
    (c.built maxLength).flatMap Packet.items
  else []

theorem onward_built : ∀ (ps : List Packet), (∀ p ∈ ps, p.representable) →
    (∀ p ∈ ps, p.blockLength < 65536) →
    Parser.Onward (ps.flatMap Packet.block) (ps.flatMap Packet.items) := by
  intro ps
  induction ps with
  | nil => intro _ _ p k h; exact h.done
  | cons p ps ih =>
    intro hr hmax
    rw [List.flatMap_cons, List.flatMap_cons]
    refine p.onward (hr p List.mem_cons_self) (hmax p List.mem_cons_self) ?_
    exact ih (fun q hq => hr q (List.mem_cons_of_mem _ hq))
      fun q hq => hmax q (List.mem_cons_of_mem _ hq)

/-- `Validate` on a built compound. -/
theorem build_valid (reduced : Bool) {maxLength : Nat} (hmax : maxLength < 65536) :
    (Parser.new (c.build maxLength) reduced).validPacket =
      (!(c.built maxLength).isEmpty && (reduced || (c.built maxLength).head?.any Packet.isReport)) := by
  rw [build_eq]
  unfold Parser.new
  dsimp only
  cases hb : c.built maxLength with
  | nil => rfl
  | cons p ps =>
    have hp : p ∈ written maxLength 0 c.packets := by
      change p ∈ c.built maxLength
      rw [hb]
      exact List.mem_cons_self
    obtain ⟨hmem, hle⟩ := written_fits hp
    obtain ⟨ic, length, body, hblock, hic, hlen⟩ :=
      Packet.block_header (packets_ne_empty c p hmem) (by omega)
    have hparse : parseCommonHeader ((p :: ps).flatMap Packet.block) 0 =
        some ⟨ic.toNat, p.packetType, (length + 1) * 4⟩ := by
      have hdrop : ((p :: ps).flatMap Packet.block).drop 0 =
          createHeader ic p.packetType length ++ (body ++ ps.flatMap Packet.block) := by
        rw [List.drop_zero, List.flatMap_cons, hblock, List.append_assoc]
      exact Parser.parse_createHeader hdrop hic hlen
    rw [hparse]
    simp [Packet.isReport_iff, Bool.or_assoc]

/-- Iterating over the octets: the items in order, then `kRtcpNotValidCode`. -/
def Delivered (data : Bytes) (reduced : Bool) (items : List Item) : Prop :=
  ∀ k ≤ items.length, Returns ((Parser.new data reduced).calls k) fun q => q.packet = items[k]?

theorem build_delivered (reduced : Bool) {maxLength : Nat} (hmax : maxLength < 65536)
    (hr : ∀ p ∈ c.packets, p.representable) :
    Delivered (c.build maxLength) reduced (c.itemsBuilt maxLength reduced) := by
  have hv := build_valid c reduced hmax
  cases hvalid : (Parser.new (c.build maxLength) reduced).validPacket with
  | false =>
    have hitems : c.itemsBuilt maxLength reduced = [] := by
      unfold itemsBuilt
      rw [hvalid] at hv
      cases hb : c.built maxLength with
      | nil => simp
      | cons p ps =>
        rw [hb] at hv
        rw [if_neg (by simpa using hv.symm)]
    rw [hitems]
    intro k hk
    obtain rfl : k = 0 := by simpa using hk
    exact (Parser.new_invalid _ _ hvalid).mono fun q hq => hq.1
  | true =>
    have hitems : c.itemsBuilt maxLength reduced = (c.built maxLength).flatMap Packet.items := by
      unfold itemsBuilt
      rw [hvalid] at hv
      rw [if_pos (by simpa using (Bool.and_eq_true_iff.1 hv.symm).2)]
    have hat : Parser.At (Parser.new (c.build maxLength) reduced) []
        ((c.built maxLength).flatMap Packet.block) .topLevel 0 := by
      refine ⟨hvalid, Nat.zero_le _, ?_, rfl, rfl, rfl⟩
      exact build_eq c maxLength
    have hy := onward_built (c.built maxLength) (fun p hp => hr p (written_fits hp).1)
      (fun p hp => Nat.lt_of_le_of_lt (written_fits hp).2 hmax) _ _ hat
    intro k hk
    rw [hitems] at hk ⊢
    have hbegin : (Parser.new (c.build maxLength) reduced).calls 0 =
        (Parser.new (c.build maxLength) reduced).iterate := rfl
    have := hy.calls (by omega) 0 hbegin k hk
    rwa [Nat.zero_add] at this

/-- The parser delivers exactly the items of the packets that were built; the
fields of a NACK name the numbers of its list, and the bit string of an RPSI
holds its picture id. -/
theorem build_parsed (reduced : Bool) {maxLength : Nat} (hmax : maxLength < 65536)
    (hr : ∀ p ∈ c.packets, p.representable) :
    Delivered (c.build maxLength) reduced (c.itemsBuilt maxLength reduced) ∧
      (∀ b : Nack, ∀ n, n ∈ b.nackFields.flatMap NackField.numbers ↔ n ∈ b.nackList) ∧
      ∀ b : Rpsi, pictureIdOf b.nativeBitString = b.pictureId.toNat :=
  ⟨build_delivered c reduced hmax hr, fun _ n => nackFields_numbers n _ _ (Nat.le_refl _),
    pictureId_nativeBitString⟩

/-- A receiver report with a REMB of 300001 bit/s behind it: the mantissa has 18
bits. -/
theorem build_parsed_remb :
    ∃ c : RtcpPacket, (∀ p ∈ c.packets, p.representable) ∧
      Delivered (c.build IP_PACKET_SIZE) false
        [.rr 1 0, .psfbApp 1 0, .remb, .rembItem 300000 [2]] := by
  let c : RtcpPacket := .mk (.receiverReport ⟨1, [], by decide⟩)
    [.mk (.remb ⟨1, 300001, [2], by decide⟩) []]
  have hr : ∀ p ∈ c.packets, p.representable := by
    intro p hp
    have hp : p ∈ [Packet.receiverReport ⟨1, [], by decide⟩,
      Packet.remb ⟨1, 300001, [2], by decide⟩] := hp
    rcases List.mem_cons.1 hp with rfl | hp
    · trivial
    · rw [List.mem_singleton.1 hp]
      show (300001 : UInt32).toNat ≤ 0xFFFFC000
      decide
  have h := (c.build_parsed false (show IP_PACKET_SIZE < 65536 by decide) hr).1
  refine ⟨c, hr, ?_⟩
  have hitems : c.itemsBuilt IP_PACKET_SIZE false =
      [.rr 1 0, .psfbApp 1 0, .remb, .rembItem 300000 [2]] := by decide
  rwa [hitems] at h

/-- A source description with the name "%": the builder takes it, the parser
leaves the block without an item for it. -/
theorem cname_percent_lost :
    ¬ Delivered (build (.mk (.sdes ⟨⟨[⟨1, [0x25], by decide⟩], by decide⟩, by decide⟩) [])
        IP_PACKET_SIZE) true [.sdes, .sdesChunk 1 [0x25]] := by
  intro h
  obtain ⟨q, hq, hp⟩ := h 1 (by decide)
  have hnone : ((Parser.new (build (.mk (.sdes ⟨⟨[⟨1, [0x25], by decide⟩], by decide⟩, by decide⟩) [])
      IP_PACKET_SIZE) true).calls 1).bind (fun q => q.packet) = none := by decide
  rw [hq] at hnone
  rw [Option.bind_some, hp] at hnone
  cases hnone

end RtcpPacket

end RtcCore.L1.Rtcp
