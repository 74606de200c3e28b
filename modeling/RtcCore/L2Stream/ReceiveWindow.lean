import RtcCore.L2Stream.PseudoTcp

/-!
# The receive window of `PseudoTcp`

`parse` asks for 12 octets and reads 24. Behind that nothing is read outside of
the packet. `process` cuts a segment to the free space of the receive buffer,
not to the window, which `Recv` leaves behind the free space until it has grown
enough: a segment between the two takes the window below zero. Saved segments
count as inside of the window until the sequence numbers wrap or the buffer
shrinks.

Results:
- `receive_bounded`, `resizeReceiveBuffer_bounded`, `recv_bounded`: what touches
  the receive side keeps its bounds.
- `packets_bounded`: which packets are read inside, and the window in runs whose
  segments meet `Fits`.
-/
namespace RtcCore.L2

open Bytes

/-- What data that comes in changes. -/
structure ReceiveSide where
  rlist : List RSegment
  rcvNxt : Nat
  rcvWnd : Nat
  rbuf : FifoBuffer
  rwndScale : Nat
  shutdown : Bool

/-- A saved segment that ends inside of the window, or at a number that does not come. -/
def RSegment.Within (it : RSegment) (limit : Nat) : Prop :=
  it.seq + it.len ≤ limit ∨ 4294967296 ≤ it.seq + it.len

structure ReceiveSide.Bounded (r : ReceiveSide) : Prop where
  capacity : r.rbuf.bufferLength < 4294967296
  data : r.rbuf.dataLength ≤ r.rbuf.bufferLength
  window : r.rcvWnd ≤ r.rbuf.getWriteRemaining
  next : r.rcvNxt < 4294967296
  numbers : ∀ it ∈ r.rlist, it.seq < 4294967296 ∧ it.len < 4294967296
  saved : ∀ it ∈ r.rlist, it.Within (r.rcvNxt + r.rcvWnd)

namespace PseudoTcp

variable {env : Env} {s : PseudoTcp} {seg : Segment}

def receiveSide (s : PseudoTcp) : ReceiveSide :=
  ⟨s.rlist, s.rcvNxt, s.rcvWnd, s.rbuf, s.rwndScale, s.shutdown⟩

/-! ## What leaves the receive side alone -/

theorem side_of {α : Type} {r : α × PseudoTcp} {a : α} {t : PseudoTcp} {x : ReceiveSide}
    (h : r = (a, t)) (hr : r.2.receiveSide = x) : t.receiveSide = x := by
  rw [h] at hr
  exact hr

section Frame

variable (env s) (now : Nat)

theorem queue_side (data : Bytes) (bCtrl : Bool) :
    (s.queue data bCtrl).2.receiveSide = s.receiveSide := by
  rw [queue]
  split <;> rfl

theorem payload_side (offset len : Nat) :
    (s.payload env offset len).2.receiveSide = s.receiveSide := by
  rw [payload]
  split
  · rfl
  · split <;> rfl

theorem packet_side (seq : Nat) (flags : UInt8) (offset len : Nat) :
    (s.packet env seq flags offset len).2.receiveSide = s.receiveSide := by
  unfold packet
  dsimp only [PseudoTcp.now, tcpWritePacket]
  split <;> exact payload_side ..

theorem lowerMss_side (nTransmit fuel : Nat) :
    (lowerMss nTransmit fuel s).2.receiveSide = s.receiveSide := by
  induction fuel generalizing s with
  | zero => rfl
  | succ fuel ih =>
    unfold lowerMss
    dsimp only
    split
    · rfl
    · split
      · rfl
      · exact ih _

theorem transmitLoop_side (g : SSegment) (fuel nTransmit : Nat) :
    (transmitLoop env g fuel nTransmit s).2.receiveSide = s.receiveSide := by
  induction fuel generalizing nTransmit s with
  | zero => rfl
  | succ fuel ih =>
    unfold transmitLoop
    split
    rename_i heq
    have hp := side_of heq (packet_side ..)
    split
    · exact hp
    · exact hp
    · split
      · rename_i heq
        exact (side_of heq (lowerMss_side ..)).trans hp
      · rename_i heq
        exact (ih _ _).trans ((side_of heq (lowerMss_side ..)).trans hp)

theorem transmit_side (i : Nat) : (s.transmit env i now).2.receiveSide = s.receiveSide := by
  unfold transmit
  split
  · rfl
  · generalize (if s.state = .established then 15 else 30) = limit
    split
    · rfl
    · split
      · rename_i heq
        have hs := side_of heq (transmitLoop_side ..)
        exact hs
      · rename_i heq
        have hs := side_of heq (transmitLoop_side ..)
        exact hs

theorem sendAck_side (sflags : SendFlags) :
    (s.sendAck env sflags).receiveSide = s.receiveSide := by
  unfold sendAck
  split
  · rfl
  · split
    · exact packet_side ..
    · rfl

theorem splitAt_side (i n : Nat) (g : SSegment) :
    (s.splitAt i n g).receiveSide = s.receiveSide := by
  unfold splitAt
  split <;> rfl

theorem attemptLoop_side (fuel : Nat) (sflags : SendFlags) :
    (attemptLoop env now fuel sflags s).receiveSide = s.receiveSide := by
  induction fuel generalizing sflags s with
  | zero => rfl
  | succ fuel ih =>
    unfold attemptLoop
    split
    · exact sendAck_side ..
    · split
      · rfl
      · split
        · rfl
        · split
          · rfl
          · split
            · rename_i heq
              have hs := side_of heq ((transmit_side ..).trans (splitAt_side ..))
              exact hs
            · rename_i heq
              exact (ih _ _).trans (side_of heq ((transmit_side ..).trans (splitAt_side ..)))

theorem attemptSend_side (sflags : SendFlags) :
    (s.attemptSend env sflags).receiveSide = s.receiveSide := by
  unfold attemptSend
  dsimp only [PseudoTcp.now]
  rw [attemptLoop_side]
  split <;> rfl

theorem updateTimestamp_side : (s.updateTimestamp seg).receiveSide = s.receiveSide := by
  unfold updateTimestamp
  split <;> rfl

theorem updateRtt_side (tsecr : Nat) : (s.updateRtt now tsecr).receiveSide = s.receiveSide := by
  unfold updateRtt
  split
  · rfl
  · split <;> rfl

theorem ackedMore_side (nAcked : Nat) :
    (s.ackedMore env now nAcked).2.receiveSide = s.receiveSide := by
  unfold ackedMore
  split
  · split
    · rfl
    · split
      · rename_i heq
        have hs := side_of heq (transmit_side ..)
        exact hs
      · rename_i heq
        have hs := side_of heq (transmit_side ..)
        exact hs
  · rfl

theorem ackedAgain_side : (s.ackedAgain env now seg).2.receiveSide = s.receiveSide := by
  unfold ackedAgain
  dsimp only
  split
  · rfl
  · split
    · rfl
    · split
      · split
        · rename_i heq
          have hs := side_of heq (transmit_side ..)
          exact hs
        · rename_i heq
          have hs := side_of heq (transmit_side ..)
          exact hs
      · split <;> rfl

theorem acknowledge_side : (s.acknowledge env now seg).2.receiveSide = s.receiveSide := by
  unfold acknowledge
  split
  · exact (ackedMore_side ..).trans (updateRtt_side ..)
  · split
    · exact ackedAgain_side ..
    · rfl

theorem establish_side (bConnect : Bool) : (s.establish bConnect).receiveSide = s.receiveSide := by
  unfold establish
  split <;> rfl

theorem retransmit_side : (s.retransmit env now).2.receiveSide = s.receiveSide := by
  unfold retransmit
  split
  · split
    · rfl
    · split
      · rename_i heq
        have hs := side_of heq (transmit_side ..)
        exact hs
      · rename_i heq
        have hs := side_of heq (transmit_side ..)
        exact hs
  · rfl

theorem probe_side : (s.probe env now).2.receiveSide = s.receiveSide := by
  unfold probe
  split
  · split
    · rfl
    · exact packet_side ..
  · rfl

theorem delayedAck_side : (s.delayedAck env now).receiveSide = s.receiveSide := by
  unfold delayedAck
  split
  · exact packet_side ..
  · rfl

theorem notifyClock_side : (s.notifyClock env now).receiveSide = s.receiveSide := by
  unfold notifyClock
  split
  · rfl
  · split
    · rename_i heq
      have hs := side_of heq (retransmit_side ..)
      exact hs
    · rename_i heq
      have hr := side_of heq (retransmit_side ..)
      split
      · rename_i heq
        exact (side_of heq (probe_side ..)).trans hr
      · rename_i heq
        exact (delayedAck_side ..).trans ((side_of heq (probe_side ..)).trans hr)

theorem notifyMTU_side (mtu : Nat) : (s.notifyMTU mtu).receiveSide = s.receiveSide := by
  unfold notifyMTU
  dsimp only
  split <;> rfl

theorem connect_side : (s.connect env).receiveSide = s.receiveSide := by
  unfold connect
  split
  · rfl
  · exact (attemptSend_side ..).trans (queue_side ..)

theorem send_side (data : Bytes) : (s.send env data).2.receiveSide = s.receiveSide := by
  unfold send
  split
  · rfl
  · split
    · rfl
    · exact (attemptSend_side ..).trans (queue_side ..)

theorem readOptions_side (fuel : Nat) (data : Bytes) (specified : Bool) :
    (readOptions fuel data specified s).2.receiveSide = s.receiveSide := by
  induction fuel generalizing data specified s with
  | zero => cases data <;> rfl
  | succ fuel ih =>
    cases data with
    | nil => rfl
    | cons kind rest =>
      unfold readOptions
      split
      · rfl
      · split
        · exact ih _ _ _
        · dsimp only
          split
          · refine (ih _ _ _).trans ?_
            unfold applyOption
            split <;> rfl
          · rfl

end Frame

/-! ## The size of the buffer -/

/-- The size a receive buffer gets that is to have `newSize` octets. -/
def capacity (newSize : Nat) : Nat := (scaleFactor 32 newSize).2 * 2 ^ (scaleFactor 32 newSize).1

theorem scaleFactor_le (fuel newSize : Nat) :
    (scaleFactor fuel newSize).2 * 2 ^ (scaleFactor fuel newSize).1 ≤ newSize := by
  induction fuel generalizing newSize with
  | zero => exact Nat.le_of_eq (Nat.mul_one _)
  | succ fuel ih =>
    unfold scaleFactor
    split
    · have hle := ih (newSize / 2)
      dsimp only
      rw [Nat.pow_succ, ← Nat.mul_assoc]
      omega
    · exact Nat.le_of_eq (Nat.mul_one _)

/-- The saved segments fit into a receive buffer of the new size. -/
def ResizeFits (r : ReceiveSide) (newSize : Nat) : Prop :=
  r.rbuf.dataLength ≤ capacity newSize →
    ∀ it ∈ r.rlist, it.Within (r.rcvNxt + (capacity newSize - r.rbuf.dataLength))

theorem setCapacity_cases (f : FifoBuffer) (fresh : Memory) (size : Nat) :
    (size < f.dataLength ∧ f.setCapacity fresh size = none) ∨
      (f.dataLength ≤ size ∧ ∃ g, f.setCapacity fresh size = some g ∧
        g.dataLength = f.dataLength ∧ g.bufferLength = size) := by
  by_cases hd : f.dataLength > size
  · exact .inl ⟨hd, if_pos hd⟩
  · refine .inr ⟨Nat.le_of_not_lt hd, ?_⟩
    rw [FifoBuffer.setCapacity, if_neg hd]
    by_cases hs : size = f.bufferLength
    · rw [if_neg fun hne => hne hs]
      exact ⟨f, rfl, rfl, hs.symm⟩
    · rw [if_pos hs]
      exact ⟨_, rfl, rfl, rfl⟩

theorem resizeReceiveBuffer_bounded {newSize : Nat} (h : s.receiveSide.Bounded)
    (hn : newSize < 4294967296) (hfit : ResizeFits s.receiveSide newSize) :
    (s.resizeReceiveBuffer env newSize).receiveSide.Bounded := by
  have hcap : capacity newSize < 4294967296 := Nat.lt_of_le_of_lt (scaleFactor_le 32 newSize) hn
  obtain ⟨hc, hd, hw, hnx, hnum, hsave⟩ := h
  obtain ⟨hlt, heq⟩ | ⟨hle, g, heq, hdata, hlen⟩ :=
    setCapacity_cases s.rbuf (env.heap s.asked) (capacity newSize)
  · -- there is more data than that: the buffer stays
    have hside : (s.resizeReceiveBuffer env newSize).receiveSide = { s.receiveSide with
        rcvWnd := u32 s.rbuf.getWriteRemaining
        rwndScale := (scaleFactor 32 newSize).1 } := by
      rw [capacity] at heq
      unfold resizeReceiveBuffer
      dsimp only
      rw [heq]
      rfl
    have hfree : u32 s.rbuf.getWriteRemaining = s.rbuf.getWriteRemaining :=
      u32_ofNat (Nat.lt_of_le_of_lt (Nat.sub_le ..) hc)
    rw [hside, hfree]
    refine ⟨hc, hd, Nat.le_refl _, hnx, hnum, fun it hit => (hsave it hit).imp_left fun hin => ?_⟩
    exact Nat.le_trans hin (Nat.add_le_add_left hw _)
  · have hside : (s.resizeReceiveBuffer env newSize).receiveSide = { s.receiveSide with
        rbuf := g
        rcvWnd := u32 g.getWriteRemaining
        rwndScale := (scaleFactor 32 newSize).1 } := by
      rw [capacity] at heq
      unfold resizeReceiveBuffer
      dsimp only
      rw [heq]
      rfl
    have hfree : u32 g.getWriteRemaining = g.getWriteRemaining :=
      u32_ofNat (by rw [FifoBuffer.getWriteRemaining, hlen]; omega)
    rw [hside, hfree]
    refine ⟨by dsimp only; omega, by dsimp only; omega, Nat.le_refl _, hnx, hnum,
      fun it hit => ?_⟩
    have hin : it.Within (s.rcvNxt + (capacity newSize - s.rbuf.dataLength)) := hfit hle it hit
    rwa [← hlen, ← hdata] at hin

/-! ## Incoming data -/

theorem take_bounded {len : Nat} (h : s.receiveSide.Bounded) (hlen : len ≤ s.rcvWnd)
    (hnext : s.rcvNxt + len < 4294967296 ∨ ∀ it ∈ s.rlist, 4294967296 ≤ it.seq + it.len) :
    (s.take len).receiveSide.Bounded := by
  obtain ⟨hc, hd, hw, hnx, hnum, hsave⟩ := h
  simp only [receiveSide, FifoBuffer.getWriteRemaining] at hc hd hw hnx hnum hsave
  have hwnd : u32 (s.rcvWnd - len) = s.rcvWnd - len := u32_sub hlen (by omega)
  refine ⟨hc, ?_, ?_, u32_lt (s.rcvNxt + len), hnum, fun it hit => ?_⟩
  · simp only [receiveSide, take, FifoBuffer.consumeWriteBuffer]
    omega
  · simp only [receiveSide, take, FifoBuffer.consumeWriteBuffer, FifoBuffer.getWriteRemaining, hwnd]
    omega
  · simp only [receiveSide, take, hwnd]
    obtain hno | hall := hnext
    · rw [u32_add hno]
      refine (hsave it hit).imp_left fun hin => ?_
      omega
    · exact .inr (hall it hit)

/-- Saved segments that data has reached become readable. -/
theorem recovered_bounded (l : List RSegment) (sflags : SendFlags) (s : PseudoTcp)
    (h : { s.receiveSide with rlist := l }.Bounded) :
    (recovered l sflags s).2.receiveSide.Bounded := by
  induction l generalizing sflags s with
  | nil => exact h
  | cons it l ih =>
    have htail : { s.receiveSide with rlist := l }.Bounded :=
      ⟨h.capacity, h.data, h.window, h.next, fun x hx => h.numbers x (List.mem_cons_of_mem _ hx),
        fun x hx => h.saved x (List.mem_cons_of_mem _ hx)⟩
    obtain ⟨hseq, hlen⟩ := h.numbers it (List.mem_cons_self ..)
    have hin := h.saved it (List.mem_cons_self ..)
    unfold recovered
    split
    · rename_i hle
      split
      · rename_i hgt
        -- the end did not wrap: it would be in front of the start
        have hsum : it.seq + it.len < 4294967296 := by
          rw [u32] at hgt
          omega
        have hend : u32 (it.seq + it.len) = it.seq + it.len := u32_add hsum
        rw [hend] at hgt ⊢
        have hwin : it.seq + it.len ≤ s.rcvNxt + s.rcvWnd := hin.resolve_right (by omega)
        apply ih
        have ht := @take_bounded { s with rlist := l } (it.seq + it.len - s.rcvNxt) htail
          (by dsimp only; omega) (.inl (by dsimp only; omega))
        exact ht
      · exact ih _ _ htail
    · exact h

theorem writeOffset_lengths (f : FifoBuffer) (data : Bytes) (offset : Nat) :
    (((f.writeOffset data offset).map (·.2)).getD f).bufferLength = f.bufferLength ∧
      (((f.writeOffset data offset).map (·.2)).getD f).dataLength = f.dataLength := by
  rw [FifoBuffer.writeOffset]
  split
  · exact ⟨rfl, rfl⟩
  · exact ⟨rfl, rfl⟩

/-- Data at the next number is inside of the window; other data ends inside, or at a number
that does not come. -/
theorem receiveData_bounded {seq : Nat} {data : Bytes} {sflags : SendFlags}
    (h : s.receiveSide.Bounded) (hseq : seq < 4294967296) (hlen : data.length < 4294967296)
    (hnext : seq = s.rcvNxt → data.length ≤ s.rcvWnd ∧
      (s.rcvNxt + data.length < 4294967296 ∨ ∀ it ∈ s.rlist, 4294967296 ≤ it.seq + it.len))
    (hsaved : seq ≠ s.rcvNxt → RSegment.Within ⟨seq, data.length⟩ (s.rcvNxt + s.rcvWnd)) :
    (s.receiveData seq data sflags).2.receiveSide.Bounded := by
  obtain ⟨hb, hd⟩ := writeOffset_lengths s.rbuf data (u32 (seq - s.rcvNxt))
  have hwritten : { s.receiveSide with
      rbuf := ((s.rbuf.writeOffset data (u32 (seq - s.rcvNxt))).map Prod.snd).getD s.rbuf }.Bounded := by
    refine ⟨?_, ?_, ?_, h.next, h.numbers, h.saved⟩
    · rw [hb]
      exact h.capacity
    · rw [hb, hd]
      exact h.data
    · rw [FifoBuffer.getWriteRemaining, hb, hd]
      exact h.window
  unfold receiveData
  dsimp only
  split
  · rename_i heq
    obtain ⟨hin, hwrap⟩ := hnext heq
    exact recovered_bounded _ _ _ (take_bounded hwritten hin hwrap)
  · rename_i hne
    have hmem : ∀ it ∈ s.rlist.takeWhile (·.seq < seq) ++ ⟨seq, data.length⟩ ::
        s.rlist.dropWhile (·.seq < seq), it = ⟨seq, data.length⟩ ∨ it ∈ s.rlist := by
      intro it hit
      obtain hit | hit := List.mem_append.1 hit
      · exact .inr ((List.takeWhile_sublist _).subset hit)
      · exact (List.mem_cons.1 hit).imp_right fun hit => (List.dropWhile_sublist _).subset hit
    refine ⟨hwritten.capacity, hwritten.data, hwritten.window, h.next, fun it hit => ?_,
      fun it hit => ?_⟩
    · obtain rfl | hit := hmem it hit
      · exact ⟨hseq, hlen⟩
      · exact h.numbers it hit
    · obtain rfl | hit := hmem it hit
      · exact hsaved hne
      · exact h.saved it hit

/-! ## Incoming segments -/

/-- The numbers of a segment. -/
structure Segment.Valid (seg : Segment) : Prop where
  seq : seg.seq < 4294967296
  len : seg.len < 4294967296

theorem trim_data (hdata : seg.len ≤ seg.data.length) :
    (s.trimNew (s.trimOld seg)).len ≤ (s.trimNew (s.trimOld seg)).data.length := by
  have hold : (s.trimOld seg).len ≤ (s.trimOld seg).data.length := by
    unfold trimOld
    dsimp only
    split
    · split
      · dsimp only
        rw [List.length_drop]
        omega
      · exact Nat.zero_le _
    · exact hdata
  unfold trimNew
  dsimp only
  split
  · dsimp only
    split <;> omega
  · exact hold

theorem trim_flags : (s.trimNew (s.trimOld seg)).flags = seg.flags := by
  have hold : (s.trimOld seg).flags = seg.flags := by
    unfold trimOld
    dsimp only
    split
    · split <;> rfl
    · rfl
  unfold trimNew
  dsimp only
  split <;> exact hold

theorem trimOld_cases (seg : Segment) : (s.trimOld seg).len = 0 ∨
    (s.trimOld seg).seq = max seg.seq s.rcvNxt ∧
      (s.trimOld seg).seq + (s.trimOld seg).len = seg.seq + seg.len := by
  unfold trimOld
  dsimp only
  split
  · split
    · right
      dsimp only
      omega
    · exact .inl rfl
  · right
    omega

/-- What is left of the segment: nothing, or a part that starts at the next number if the
segment does not start behind it. -/
theorem trim_cases (hv : Segment.Valid seg) (hn : s.rcvNxt < 4294967296)
    (hf : s.rbuf.getWriteRemaining < 4294967296) {t : Segment}
    (ht : t = s.trimNew (s.trimOld seg)) :
    t.len = 0 ∨ t.seq = max seg.seq s.rcvNxt ∧ t.seq + t.len ≤ seg.seq + seg.len ∧
      (t.seq + t.len ≤ s.rcvNxt + s.rbuf.getWriteRemaining ∨
        s.rcvNxt < seg.seq ∧ 4294967296 ≤ t.seq + t.len) := by
  obtain ⟨hseq, hlen⟩ := hv
  obtain ⟨o, ho⟩ : ∃ o, o = s.trimOld seg := ⟨_, rfl⟩
  have hold := trimOld_cases (s := s) seg
  rw [← ho] at hold ht
  subst ht
  unfold trimNew
  dsimp only
  have hu : u32 (o.seq + o.len - s.rcvNxt) =
      ((o.seq + o.len - s.rcvNxt : Int) % 4294967296).toNat := rfl
  split
  · dsimp only
    split
    · omega
    · exact .inl rfl
  · omega

/-- The segment stays in the window, if its data is kept, and does not take the sequence
numbers around while segments are saved. -/
structure InWindow (r : ReceiveSide) (seg : Segment) : Prop where
  window : seg.flags &&& flagCtl = 0 → r.shutdown = false →
    seg.seq + seg.len ≤ r.rcvNxt + r.rcvWnd ∨ r.rcvWnd = r.rbuf.getWriteRemaining
  wrap : 4294967296 ≤ seg.seq + seg.len → r.rcvNxt < seg.seq ∨
    ∀ it ∈ r.rlist, 4294967296 ≤ it.seq + it.len

theorem receive_isSome (sflags : SendFlags) (hdata : seg.len ≤ seg.data.length) :
    ∃ r, s.receive seg sflags = some r := by
  have hread : readAt (s.trimNew (s.trimOld seg)).data 0 (s.trimNew (s.trimOld seg)).len =
      some (slice (s.trimNew (s.trimOld seg)).data 0 (s.trimNew (s.trimOld seg)).len) := by
    rw [readAt, if_pos]
    rw [Nat.zero_add]
    exact trim_data hdata
  unfold receive
  dsimp only
  rw [hread]
  split
  · exact ⟨_, rfl⟩
  · split
    · split <;> exact ⟨_, rfl⟩
    · exact ⟨_, rfl⟩

theorem receive_bounded {sflags : SendFlags} {r : SendFlags × PseudoTcp}
    (h : s.receiveSide.Bounded) (hv : Segment.Valid seg) (hin : InWindow s.receiveSide seg)
    (hr : s.receive seg sflags = some r) : r.2.receiveSide.Bounded := by
  obtain ⟨t, ht⟩ : ∃ t, t = s.trimNew (s.trimOld seg) := ⟨_, rfl⟩
  have hcases := trim_cases hv h.next (Nat.lt_of_le_of_lt (Nat.sub_le ..) h.capacity) ht
  have hflags : t.flags = seg.flags := ht ▸ trim_flags
  obtain ⟨hseq, hlen⟩ := hv
  have hnx := h.next
  simp only [receiveSide] at hnx
  unfold receive at hr
  dsimp only at hr
  rw [← ht] at hr
  split at hr
  · cases hr
    exact h
  rename_i hpos
  obtain ⟨hstart, hle, hend⟩ := hcases.resolve_left hpos
  -- data at the next number that goes around finds no saved segments
  have hnext : t.seq = s.rcvNxt → t.seq + t.len ≤ s.rcvNxt + s.rbuf.getWriteRemaining ∧
      (s.rcvNxt + t.len < 4294967296 ∨ ∀ it ∈ s.rlist, 4294967296 ≤ it.seq + it.len) := by
    intro heq
    refine ⟨hend.resolve_right fun hno => by omega, ?_⟩
    by_cases hsum : s.rcvNxt + t.len < 4294967296
    · exact .inl hsum
    · refine .inr ((hin.wrap (by omega)).resolve_left ?_)
      simp only [receiveSide]
      omega
  split at hr
  · split at hr
    · rename_i heq
      cases hr
      refine ⟨h.capacity, h.data, h.window, u32_lt (s.rcvNxt + t.len), h.numbers, ?_⟩
      intro it hit
      simp only [receiveSide]
      obtain hsum | hall := (hnext heq).2
      · rw [u32_add hsum]
        refine (h.saved it hit).imp_left fun hle => ?_
        simp only [receiveSide] at hle
        omega
      · exact .inr (hall it hit)
    · cases hr
      exact h
  · rename_i hignore
    obtain ⟨hctl, hopen⟩ := not_or.1 hignore
    have hopen : s.receiveSide.shutdown = false := eq_false_of_ne_true hopen
    have hwindow := hin.window (by rw [← hflags]; exact not_not.1 hctl) hopen
    simp only [receiveSide] at hwindow
    obtain ⟨data, hread, rfl⟩ := Option.map_eq_some_iff.1 hr
    have hsize : data.length = t.len := by
      rw [readAt] at hread
      split at hread
      · cases hread
        exact slice_length ‹_›
      · cases hread
    refine receiveData_bounded h (by omega) (by omega) (fun heq => ?_) fun hne => ?_
    · have hfree := (hnext heq).1
      rw [hsize]
      exact ⟨by omega, (hnext heq).2⟩
    · rw [hsize]
      obtain hle' | hwrap := hend
      · left
        dsimp only
        omega
      · exact .inr hwrap.2

/-! ## Connect messages -/

theorem readOptions_fst (s t : PseudoTcp) (fuel : Nat) (data : Bytes) (specified : Bool) :
    (readOptions fuel data specified s).1 = (readOptions fuel data specified t).1 := by
  induction fuel generalizing data specified s t with
  | zero => cases data <;> rfl
  | succ fuel ih =>
    cases data with
    | nil => rfl
    | cons kind rest =>
      unfold readOptions
      split
      · rfl
      · split
        · exact ih ..
        · dsimp only
          split
          · exact ih ..
          · rfl

/-- Every pass takes an octet at least. -/
theorem readOptions_fuel (s : PseudoTcp) (fuel fuel' : Nat) (data : Bytes) (specified : Bool)
    (h : data.length ≤ fuel) (h' : data.length ≤ fuel') :
    readOptions fuel data specified s = readOptions fuel' data specified s := by
  induction fuel generalizing fuel' data specified s with
  | zero =>
    cases data with
    | nil => cases fuel' <;> rfl
    | cons kind rest => exact absurd h (Nat.not_succ_le_zero _)
  | succ fuel ih =>
    cases data with
    | nil => cases fuel' <;> rfl
    | cons kind rest =>
      obtain ⟨k, rfl⟩ : ∃ k, fuel' = k + 1 := ⟨fuel' - 1, by rw [List.length_cons] at h'; omega⟩
      rw [List.length_cons] at h h'
      have hshort : ∀ n, (rest.tail.drop n).length ≤ rest.length := fun n => by
        rw [List.length_drop, List.length_tail]
        omega
      unfold readOptions
      split
      · rfl
      · split
        · exact ih _ _ _ _ (by omega) (by omega)
        · dsimp only
          split
          · have := hshort (rest.headD 0).toNat
            exact ih _ _ _ _ (by omega) (by omega)
          · rfl

/-- A connect message after which the receive buffer gets its default size. -/
structure Reverts (s : PseudoTcp) (seg : Segment) (options : Bytes) : Prop where
  control : seg.flags &&& flagCtl ≠ 0
  message : seg.len ≠ 0 ∧ seg.data[0]? = some 0 ∧ readAt seg.data 1 (seg.len - 1) = some options
  unspecified : (readOptions options.length options false s).1 = some false
  scaled : 0 < s.rwndScale

theorem parseOptions_side (env : Env) (s : PseudoTcp) (data : Bytes) :
    (s.parseOptions env data).receiveSide = s.receiveSide ∨
      (readOptions data.length data false s).1 = some false ∧ 0 < s.rwndScale ∧
        ∃ t : PseudoTcp, t.receiveSide = s.receiveSide ∧ (s.parseOptions env data).receiveSide =
          (t.resizeReceiveBuffer env defaultRcvBufSize).receiveSide := by
  have hside := readOptions_side s data.length data false
  unfold parseOptions
  split
  · rename_i t heq
    have ht := side_of heq hside
    have hscale : t.rwndScale = s.rwndScale := congrArg ReceiveSide.rwndScale ht
    rw [heq, hscale]
    split
    · exact .inr ⟨rfl, ‹_›, t, ht, rfl⟩
    · exact .inl ht
  · rename_i heq
    exact .inl (side_of heq hside)

theorem connected_side (env : Env) (s : PseudoTcp) (options : Bytes) :
    (s.connected env options).receiveSide = (s.parseOptions env options).receiveSide := by
  unfold connected
  dsimp only
  split
  · exact queue_side ..
  · split <;> rfl

theorem control_isSome (hdata : seg.len ≤ seg.data.length) : ∃ r, s.control env seg = some r := by
  unfold control
  split
  · exact ⟨_, rfl⟩
  · split
    · exact ⟨_, rfl⟩
    · rw [List.getElem?_eq_getElem (by omega), readAt, if_pos (by omega)]
      dsimp only [bind, Option.bind]
      split <;> exact ⟨_, rfl⟩

/-- A segment that is acceptable before its options were applied is acceptable after it. -/
theorem control_bounded {bConnect : Bool} {t : PseudoTcp} (h : s.receiveSide.Bounded)
    (hin : InWindow s.receiveSide seg)
    (hfit : ∀ options, s.Reverts seg options → ResizeFits s.receiveSide defaultRcvBufSize)
    (hc : s.control env seg = some (some (bConnect, t))) :
    t.receiveSide.Bounded ∧ InWindow t.receiveSide seg := by
  unfold control at hc
  split at hc
  · cases hc
    exact ⟨h, hin⟩
  · rename_i hctl
    split at hc
    · cases hc
    · rename_i hlen
      obtain ⟨code, hcode, hc⟩ := Option.bind_eq_some_iff.1 hc
      split at hc
      · rename_i hzero
        obtain ⟨options, hoptions, hc⟩ := Option.bind_eq_some_iff.1 hc
        cases hc
        rw [connected_side]
        obtain heq | ⟨hun, hscale, u, hu, heq⟩ := parseOptions_side env s options
        · rw [heq]
          exact ⟨h, hin⟩
        · have hrev := hfit options ⟨hctl, ⟨hlen, by rw [hcode, hzero], hoptions⟩, hun, hscale⟩
          rw [← hu] at h hrev hin
          rw [heq]
          refine ⟨resizeReceiveBuffer_bounded h (by decide) hrev, ?_, hin.wrap⟩
          exact fun hz => absurd hz hctl
      · cases hc

/-! ## Packets -/

theorem parse_short {buffer : Bytes} (h : 12 ≤ buffer.length) (h' : buffer.length < headerSize) :
    parse buffer = .none := by
  have hlast : bytesToLong buffer 20 = none := by
    rw [bytesToLong, readAt, if_neg (by rw [headerSize] at h'; omega)]
    rfl
  unfold parse
  rw [if_neg (by omega), hlast]
  simp

theorem parse_long {buffer : Bytes} (h : headerSize ≤ buffer.length) :
    parse buffer = some (some {
      conv := beValue (slice buffer 0 4)
      seq := beValue (slice buffer 4 4)
      ack := beValue (slice buffer 8 4)
      flags := getByte buffer 13
      wnd := beValue (slice buffer 14 2)
      tsval := beValue (slice buffer 16 4)
      tsecr := beValue (slice buffer 20 4)
      data := buffer.drop headerSize
      len := u32 (buffer.length - headerSize) }) := by
  rw [headerSize] at h
  have hread : ∀ off, off + 4 ≤ 24 → bytesToLong buffer off = some (beValue (slice buffer off 4)) := by
    intro off hoff
    rw [bytesToLong, readAt, if_pos (by omega)]
    rfl
  have hshort : bytesToShort buffer 14 = some (beValue (slice buffer 14 2)) := by
    rw [bytesToShort, readAt, if_pos (by omega)]
    rfl
  unfold parse
  rw [if_neg (by omega), hread 0 (by decide), hread 4 (by decide), hread 8 (by decide),
    hread 16 (by decide), hread 20 (by decide), hshort, List.getElem?_eq_getElem (by omega), getByte,
    List.getElem?_eq_getElem (by omega)]
  rfl

theorem parse_valid {buffer : Bytes} (hp : parse buffer = some (some seg)) :
    Segment.Valid seg ∧ seg.len ≤ seg.data.length ∧ headerSize + seg.len ≤ buffer.length := by
  by_cases h : headerSize ≤ buffer.length
  · rw [parse_long h] at hp
    cases hp
    have hlen : u32 (buffer.length - headerSize) ≤ buffer.length - headerSize := by
      rw [u32]
      omega
    refine ⟨⟨?_, u32_lt _⟩, ?_, ?_⟩
    · exact Nat.lt_of_lt_of_le (beValue_lt _) (by
        rw [slice_length (by rw [headerSize] at h; omega)]
        decide)
    · dsimp only
      rw [List.length_drop]
      exact hlen
    · dsimp only
      omega
  · by_cases h12 : 12 ≤ buffer.length
    · rw [parse_short h12 (by omega)] at hp
      cases hp
    · rw [parse, if_pos (by omega)] at hp
      cases hp

/-- Segments that keep the window right. -/
structure Fits (s : PseudoTcp) (seg : Segment) : Prop where
  inWindow : InWindow s.receiveSide seg
  reverts : ∀ options, s.Reverts seg options → ResizeFits s.receiveSide defaultRcvBufSize

theorem Fits.of_side {t : PseudoTcp} (h : s.Fits seg) (hside : t.receiveSide = s.receiveSide) :
    t.Fits seg := by
  refine ⟨hside ▸ h.inWindow, fun options hr => hside ▸ h.reverts options ?_⟩
  refine ⟨hr.control, hr.message, ?_, ?_⟩
  · rw [readOptions_fst s t]
    exact hr.unspecified
  · have hscale : t.rwndScale = s.rwndScale := congrArg ReceiveSide.rwndScale hside
    rw [← hscale]
    exact hr.scaled

theorem process_isSome (env : Env) (s : PseudoTcp) (hdata : seg.len ≤ seg.data.length) :
    ∃ r, s.process env seg = some r := by
  unfold process
  dsimp only [PseudoTcp.now]
  split
  · exact ⟨_, rfl⟩
  · split
    · exact ⟨_, rfl⟩
    · split
      · exact ⟨_, rfl⟩
      · split
        · rename_i hnone
          obtain ⟨_, hsome⟩ := control_isSome hdata
          rw [hsome] at hnone
          cases hnone
        · exact ⟨_, rfl⟩
        · split
          · exact ⟨_, rfl⟩
          · obtain ⟨_, hr⟩ := receive_isSome _ hdata
            rw [hr]
            exact ⟨_, rfl⟩

theorem process_bounded {r : Bool × PseudoTcp} (h : s.receiveSide.Bounded)
    (hv : Segment.Valid seg)
    (hfit : seg.conv = s.conv → s.state ≠ .closed → seg.flags &&& flagRst = 0 → s.Fits seg)
    (hp : s.process env seg = some r) : r.2.receiveSide.Bounded := by
  unfold process at hp
  dsimp only [PseudoTcp.now] at hp
  split at hp
  · cases hp
    exact h
  rename_i hconv
  split at hp
  · cases hp
    exact h
  rename_i hopen
  split at hp
  · cases hp
    exact h
  rename_i hrst
  obtain ⟨u, hu⟩ : ∃ u : PseudoTcp, u =
      { s with asked := s.asked + 1, lastrecv := u32 (env.now s.asked) } := ⟨_, rfl⟩
  have huside : u.receiveSide = s.receiveSide := by rw [hu]; rfl
  have hfit := (hfit (not_not.1 hconv) hopen (not_not.1 hrst)).of_side huside
  rw [← huside] at h
  rw [← hu] at hp
  split at hp
  · cases hp
  · cases hp
    exact h
  · rename_i hc
    obtain ⟨hb, hin⟩ := control_bounded h hfit.inWindow hfit.reverts hc
    split at hp
    · rename_i heq
      have hside := side_of heq ((acknowledge_side ..).trans (updateTimestamp_side ..))
      cases hp
      rw [hside]
      exact hb
    · rename_i heq
      have hside := side_of heq ((acknowledge_side ..).trans (updateTimestamp_side ..))
      obtain ⟨⟨sflags, t⟩, hr, rfl⟩ := Option.map_eq_some_iff.1 hp
      dsimp only
      rw [attemptSend_side]
      rw [← hside] at hb hin
      refine receive_bounded ?_ hv ?_ hr
      · rw [establish_side]
        exact hb
      · rw [establish_side]
        exact hin

theorem notifyPacket_isSome (env : Env) (s : PseudoTcp) (buffer : Bytes) :
    (s.notifyPacket env buffer).isSome = true ↔ buffer.length < 12 ∨ headerSize ≤ buffer.length := by
  unfold notifyPacket
  by_cases hmax : buffer.length > maxPacket
  · rw [if_pos hmax]
    exact iff_of_true rfl (.inr (Nat.le_trans (by decide) (Nat.le_of_lt hmax)))
  · rw [if_neg hmax]
    by_cases h12 : buffer.length < 12
    · rw [parse, if_pos h12]
      exact iff_of_true rfl (.inl h12)
    · by_cases h24 : headerSize ≤ buffer.length
      · have hp := parse_long h24
        obtain ⟨_, hr⟩ := process_isSome env s (parse_valid hp).2.1
        rw [hp]
        dsimp only
        rw [hr]
        exact iff_of_true rfl (.inr h24)
      · rw [parse_short (by omega) (by omega)]
        exact iff_of_false Bool.false_ne_true fun h => h.elim h12 h24

/-! ## Runs -/

theorem read_cases {f g : FifoBuffer} {bytes : Nat} {data : Bytes}
    (hr : f.read bytes = some (data, g)) :
    g.bufferLength = f.bufferLength ∧ g.dataLength ≤ f.dataLength := by
  rw [FifoBuffer.read] at hr
  obtain ⟨_, _, hr⟩ := Option.map_eq_some_iff.1 hr
  cases hr
  exact ⟨rfl, Nat.sub_le ..⟩

theorem recv_bounded (len : Nat) (h : s.receiveSide.Bounded) :
    (s.recv env len).2.receiveSide.Bounded := by
  unfold recv
  split
  · exact h
  · split
    · exact h
    · rename_i data g hread
      obtain ⟨hlen, hdata⟩ := read_cases hread
      obtain ⟨hc, hd, hw, hnx, hnum, hsave⟩ := h
      simp only [receiveSide, FifoBuffer.getWriteRemaining] at hc hd hw hnx hnum hsave
      dsimp only
      split
      · have hopen : ({ s with rbuf := g, rcvWnd := g.getWriteRemaining } :
            PseudoTcp).receiveSide.Bounded := by
          refine ⟨by simp only [receiveSide]; omega, by simp only [receiveSide]; omega,
            Nat.le_refl _, hnx, hnum, fun it hit => (hsave it hit).imp_left fun hin => ?_⟩
          simp only [receiveSide, FifoBuffer.getWriteRemaining]
          omega
        split
        · rw [attemptSend_side]
          exact hopen
        · exact hopen
      · refine ⟨by simp only [receiveSide]; omega, by simp only [receiveSide]; omega, ?_, hnx, hnum,
          hsave⟩
        simp only [receiveSide, FifoBuffer.getWriteRemaining]
        omega

/-- What a call has to meet for the window to stay right. -/
def Careful (s : PseudoTcp) : Call → Prop
  | .setOption .rcvbuf value => ResizeFits s.receiveSide (u32 value)
  | .notifyPacket buffer => buffer.length ≤ maxPacket →
      ∀ seg, parse buffer = some (some seg) → seg.conv = s.conv → s.state ≠ .closed →
        seg.flags &&& flagRst = 0 → s.Fits seg
  | _ => True

theorem call_bounded {c : Call} {t : PseudoTcp} (h : s.receiveSide.Bounded) (hc : s.Careful c)
    (hcall : s.call env c = some t) : t.receiveSide.Bounded := by
  cases c with
  | notifyPacket buffer =>
    obtain ⟨r, hr, rfl⟩ := Option.map_eq_some_iff.1 hcall
    unfold notifyPacket at hr
    split at hr
    · cases hr
      exact h
    · rename_i hmax
      split at hr
      · cases hr
      · cases hr
        exact h
      · rename_i hp
        exact process_bounded h (parse_valid hp).1 (hc (Nat.le_of_not_lt hmax) _ hp) hr
  | setOption opt value =>
    cases hcall
    cases opt with
    | rcvbuf => exact resizeReceiveBuffer_bounded h (u32_lt _) hc
    | nodelay => exact h
    | ackdelay => exact h
    | sndbuf => exact h
  | connect =>
    cases hcall
    rwa [connect_side]
  | send data =>
    cases hcall
    rwa [send_side]
  | recv len =>
    cases hcall
    exact recv_bounded len h
  | close =>
    cases hcall
    exact ⟨h.capacity, h.data, h.window, h.next, h.numbers, h.saved⟩
  | notifyMTU mtu =>
    cases hcall
    rwa [notifyMTU_side]
  | notifyClock now =>
    cases hcall
    rwa [notifyClock_side]

theorem create_bounded (conv now : Nat) (rmem smem : Memory) :
    (create conv now rmem smem).receiveSide.Bounded :=
  ⟨by simp only [create, receiveSide]; decide, Nat.zero_le _, Nat.le_refl _, Nat.two_pow_pos 32,
    nofun, nofun⟩

/-- Packets of 12 to 23 octets are read behind their end, and no others. In runs whose calls are
careful the window is never more than the free space. -/
theorem packets_bounded (env : Env) (s : PseudoTcp)
    (hr : ((calls env).within Careful).Reachable s) :
    s.rbuf.dataLength ≤ s.rbuf.bufferLength ∧ s.rcvWnd ≤ s.rbuf.getWriteRemaining ∧
    (∀ buffer, (s.notifyPacket env buffer).isSome = true ↔
      buffer.length < 12 ∨ headerSize ≤ buffer.length) ∧
    (∀ buffer seg, parse buffer = some (some seg) → headerSize + seg.len ≤ buffer.length) ∧
    (∀ data specified fuel, data.length ≤ fuel →
      readOptions fuel data specified s = readOptions data.length data specified s) := by
  have hind : ((calls env).within Careful).Inductive fun s => s.receiveSide.Bounded := by
    refine ⟨?_, fun s c t h hstep => call_bounded h hstep.1 hstep.2⟩
    rintro _ ⟨conv, now, rmem, smem, rfl⟩
    exact create_bounded ..
  have hb := hind.reachable s hr
  refine ⟨hb.data, hb.window, notifyPacket_isSome env s, fun buffer seg hp => ?_, ?_⟩
  · exact (parse_valid hp).2.2
  · exact fun data specified fuel hfuel => readOptions_fuel s _ _ _ _ hfuel (Nat.le_refl _)

/-- Every packet goes out, at time 0. -/
def quiet : Env := ⟨fun _ => 0, fun _ => .success, fun _ _ => 0⟩

/-- The packet of a segment of conversation 0 that acknowledges nothing. -/
def segmentPacket (seq flags : UInt8) (data : Bytes) : Bytes :=
  [0, 0, 0, 0, 0, 0, 0, seq, 0, 0, 0, 0, 0, flags, 0, 0, 0, 0, 0, 0, 0, 0, 0, 0] ++ data

theorem packets_bounded_listening :
    ∃ s, ((calls quiet).within Careful).Reachable s ∧ s.rcvNxt = 3 ∧
      s.rcvWnd ≤ s.rbuf.getWriteRemaining := by
  have hcall : ((create 0 0 (fun _ => 0) (fun _ => 0)).call quiet
      (.notifyPacket (segmentPacket 0 0 [1, 2, 3]))).map (·.rcvNxt) = some 3 := by
    decide
  obtain ⟨s, hs, hnext⟩ := Option.map_eq_some_iff.1 hcall
  have hcareful : Careful (create 0 0 (fun _ => 0) (fun _ => 0))
      (.notifyPacket (segmentPacket 0 0 [1, 2, 3])) := by
    intro _ seg hp _ _ _
    have hdata : parse (segmentPacket 0 0 [1, 2, 3]) = some (some
        ⟨0, 0, 0, 0, 0, [1, 2, 3], 3, 0, 0⟩) := by decide
    rw [hdata] at hp
    cases hp
    exact ⟨⟨fun _ _ => .inr rfl, fun h => absurd h (by decide)⟩,
      fun _ hr => absurd rfl hr.control⟩
  have hreach : ((calls quiet).within Careful).Reachable s :=
    ⟨_, _, ⟨0, 0, fun _ => 0, fun _ => 0, rfl⟩, .cons ⟨hcareful, hs⟩ (.nil s)⟩
  exact ⟨s, hreach, hnext, (packets_bounded quiet s hreach).2.1⟩

/-- Three octets come and are read, which does not move the window of five, then eight come. -/
def overrun : List Call :=
  [.setOption .rcvbuf 8, .connect, .notifyPacket (segmentPacket 0 2 [0]),
    .notifyPacket (segmentPacket 1 0 [1, 2, 3]), .recv 3,
    .notifyPacket (segmentPacket 4 0 [4, 5, 6, 7, 8, 9, 10, 11])]

/-- A packet of 23 octets is read behind its end; the window goes below zero. -/
theorem window_underflows :
    ((create 0 0 (fun _ => 0) (fun _ => 0)).notifyPacket quiet
      (List.replicate 23 0)).isSome = false ∧
    ∃ s, (calls quiet).Reachable s ∧ s.rcvWnd = 4294967293 ∧ s.rbuf.getWriteRemaining = 0 := by
  refine ⟨by decide, ?_⟩
  have hrun : (overrun.foldlM (call quiet) (create 0 0 (fun _ => 0) (fun _ => 0))).map
      (fun s => (s.rcvWnd, s.rbuf.getWriteRemaining)) = some (4294967293, 0) := by
    decide
  obtain ⟨s, hs, heq⟩ := Option.map_eq_some_iff.1 hrun
  obtain ⟨hw, hf⟩ := Prod.mk.inj heq
  exact ⟨s, ⟨_, _, ⟨0, 0, fun _ => 0, fun _ => 0, rfl⟩, LTS.Run.of_foldlM hs⟩, hw, hf⟩

end PseudoTcp

end RtcCore.L2
