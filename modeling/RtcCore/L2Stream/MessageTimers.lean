import RtcCore.L2Stream.MessageQueue

/-!
# The timer of a handler

A handler that posts one delayed message at a time has a timer. `Timer q p id
due now` says that the queue holds exactly one message for the handler, that it
waits for `due` or is ready, and that it is not ready before its time; the clock
may wrap. What other handlers do leaves it alone (`Keeps`), and the message that
`Get` returns in the end is not early (`Timer.taken`).
-/
namespace RtcCore.L2.MessageQueue

/-- The messages that are ready for a handler, and the delayed ones. -/
def readyFor (q : MessageQueue) (p : Nat) : List Message := q.msgq.filter (·.phandler == p)

def delayedFor (q : MessageQueue) (p : Nat) : List DelayedMessage :=
  q.dmsgq.filter (·.msg.phandler == p)

/-- There is no message for the handler. -/
structure Idle (q : MessageQueue) (p : Nat) : Prop where
  ready : q.readyFor p = []
  delayed : q.delayedFor p = []

/-- There is one message for the handler, to be ready when `due` has come. -/
inductive Timer (q : MessageQueue) (p : Nat) (id : UInt32) (due now : Nat) : Prop
  | delayed (d : DelayedMessage) (hd : q.delayedFor p = [d]) (hr : q.readyFor p = [])
      (hid : d.msg.messageId = id) (ht : d.msTrigger = .ofNat due)
  | ready (msg : Message) (hr : q.readyFor p = [msg]) (hd : q.delayedFor p = [])
      (hid : msg.messageId = id) (hdue : due ≤ now)

/-- The messages for the handler are the same. -/
structure Keeps (q q' : MessageQueue) (p : Nat) : Prop where
  ready : q'.readyFor p = q.readyFor p
  delayed : (q'.delayedFor p).Perm (q.delayedFor p)

variable {q q' : MessageQueue} {p a due now now' : Nat} {id : UInt32} {msg : Message}
  {tstamp : UInt32}

theorem Timer.mono (h : q.Timer p id due now) (hle : now ≤ now') : q.Timer p id due now' := by
  cases h with
  | delayed d hd hr hid ht => exact .delayed d hd hr hid ht
  | ready msg hr hd hid hdue => exact .ready msg hr hd hid (hdue.trans hle)

theorem Timer.keep (h : q.Timer p id due now) (hk : q.Keeps q' p) : q'.Timer p id due now := by
  cases h with
  | delayed d hd hr hid ht =>
    exact .delayed d (List.perm_singleton.1 (hd ▸ hk.delayed)) (hk.ready.trans hr) hid ht
  | ready msg hr hd hid hdue =>
    exact .ready msg (hk.ready.trans hr) (List.perm_nil.1 (hd ▸ hk.delayed)) hid hdue

theorem Idle.keep (h : q.Idle p) (hk : q.Keeps q' p) : q'.Idle p :=
  ⟨hk.ready.trans h.ready, List.perm_nil.1 (h.delayed ▸ hk.delayed)⟩

theorem Keeps.refl (q : MessageQueue) (p : Nat) : q.Keeps q p := ⟨rfl, .refl _⟩

/-! ## Posting and clearing -/

theorem keeps_post (h : msg.phandler ≠ p) : q.Keeps (q.post msg) p := by
  unfold post
  split
  · exact .refl q p
  · refine ⟨?_, .refl _⟩
    unfold readyFor
    rw [List.filter_append, List.filter_cons_of_neg (by simpa using h), List.filter_nil,
      List.append_nil]

theorem delayedFor_doDelayPost (hs : q.fStop = false) :
    ((q.doDelayPost tstamp msg).delayedFor p).Perm
      ((⟨tstamp, q.dmsgqNextNum, msg⟩ :: q.dmsgq).filter (·.msg.phandler == p)) := by
  unfold doDelayPost delayedFor
  rw [if_neg (by rw [hs]; exact Bool.false_ne_true)]
  exact (List.perm_orderedInsert _ _ _).filter _

theorem keeps_doDelayPost (h : msg.phandler ≠ p) : q.Keeps (q.doDelayPost tstamp msg) p := by
  cases hs : q.fStop with
  | true =>
    unfold doDelayPost
    rw [if_pos hs]
    exact .refl q p
  | false =>
    refine ⟨?_, ?_⟩
    · unfold doDelayPost
      split <;> rfl
    · have hperm : ((q.doDelayPost tstamp msg).delayedFor p).Perm _ := delayedFor_doDelayPost hs
      rwa [List.filter_cons_of_neg (by simpa using h)] at hperm

theorem timer_doDelayPost (h : q.Idle p) (hs : q.fStop = false) (hp : msg.phandler = p) :
    (q.doDelayPost (.ofNat due) msg).Timer p msg.messageId due now := by
  have hperm : ((q.doDelayPost (.ofNat due) msg).delayedFor p).Perm _ := delayedFor_doDelayPost hs
  rw [List.filter_cons_of_pos (by simpa using hp)] at hperm
  have hnil := h.delayed
  unfold delayedFor at hnil
  rw [hnil] at hperm
  refine .delayed _ (List.perm_singleton.1 hperm) ?_ rfl rfl
  have hready := h.ready
  unfold doDelayPost
  split <;> exact hready

theorem keeps_clear (ha : a ≠ 0) (h : a ≠ p) : q.Keeps (q.clear a MQID_ANY).2 p := by
  have hmatch (m : Message) : (!m.isMatch a MQID_ANY && m.phandler == p) = (m.phandler == p) := by
    unfold Message.isMatch
    by_cases hm : m.phandler = p
    · simp [hm, ha, h]
    · simp [hm]
  constructor
  · unfold readyFor clear
    dsimp only
    rw [List.filter_filter]
    exact List.filter_congr fun m _ => by rw [Bool.and_comm, hmatch]
  · unfold delayedFor clear
    dsimp only
    rw [List.filter_filter, List.filter_congr fun d _ => by rw [Bool.and_comm, hmatch]]

/-! ## Looking at the queue -/

/-- What was triggered is not early, where what waits is due within 24 days of the look. -/
theorem due_of_triggered {due look : Nat} (h : due < look + 2147483648)
    (ht : timeIsLater (.ofNat look) (.ofNat due) = false) : due ≤ look := by
  refine Nat.not_lt.1 fun hlt => ?_
  have hsub : (UInt32.ofNat due - UInt32.ofNat look).toNat = due - look := by
    rw [UInt32.toNat_sub, UInt32.toNat_ofNat', UInt32.toNat_ofNat']
    simp only [Nat.reducePow]
    omega
  unfold timeIsLater at ht
  rw [Bool.and_eq_false_iff, decide_eq_false_iff_not, decide_eq_false_iff_not,
    UInt32.lt_iff_toNat_lt, UInt32.lt_iff_toNat_lt, hsub] at ht
  simp only [UInt32.reduceToNat] at ht
  omega

/-- The message waits for the same time, or is ready as its time seems to have come. -/
theorem Timer.promote_cases (h : q.Timer p id due now) (look : UInt32) :
    (q.promote look).Timer p id due now ∨
      timeIsLater look (.ofNat due) = false ∧
        ∀ due' ≤ now, (q.promote look).Timer p id due' now := by
  have hsplit (d : DelayedMessage → Bool) :
      q.delayedFor p = (q.dmsgq.takeWhile d).filter (·.msg.phandler == p) ++
        (q.dmsgq.dropWhile d).filter (·.msg.phandler == p) := by
    unfold delayedFor
    rw [← List.filter_append, List.takeWhile_append_dropWhile]
  obtain ⟨t, ht⟩ : ∃ t, t = fun d : DelayedMessage => !timeIsLater look d.msTrigger := ⟨_, rfl⟩
  have hsplit := hsplit t
  have hready : (q.promote look).readyFor p = q.readyFor p ++
      ((q.dmsgq.takeWhile t).filter (·.msg.phandler == p)).map (·.msg) := by
    unfold readyFor MessageQueue.promote
    rw [List.filter_append, List.filter_map, ht]
    rfl
  have hdelayed : (q.promote look).delayedFor p =
      (q.dmsgq.dropWhile t).filter (·.msg.phandler == p) := by
    rw [ht]
    rfl
  cases h with
  | delayed d hd hr hid htrig =>
    rw [hd] at hsplit
    rcases List.append_eq_singleton_iff.1 hsplit.symm with ⟨h1, h2⟩ | ⟨h1, h2⟩
    · refine .inl (.delayed d (hdelayed.trans h2) ?_ hid htrig)
      rw [hready, hr, h1]
      rfl
    · refine .inr ⟨?_, fun due' hle => .ready d.msg ?_ (hdelayed.trans h2) hid hle⟩
      · have hmem : d ∈ (q.dmsgq.takeWhile t).filter (·.msg.phandler == p) :=
          h1 ▸ List.mem_singleton.2 rfl
        have hlater := List.mem_takeWhile_imp (List.mem_filter.1 hmem).1
        rw [ht] at hlater
        dsimp only at hlater
        rw [htrig] at hlater
        simpa using hlater
      · rw [hready, hr, h1]
        rfl
  | ready msg hr hd hid hle =>
    rw [hd] at hsplit
    obtain ⟨h1, h2⟩ := List.append_eq_nil_iff.1 hsplit.symm
    refine .inl (.ready msg ?_ (hdelayed.trans h2) hid hle)
    rw [hready, hr, h1]
    rfl

theorem Timer.promote (h : q.Timer p id due now) {look : Nat} (hlook : look ≤ now)
    (hdue : due < look + 2147483648) : (q.promote (.ofNat look)).Timer p id due now := by
  obtain h | ⟨htriggered, h⟩ := h.promote_cases (.ofNat look)
  · exact h
  · exact h due ((due_of_triggered hdue htriggered).trans hlook)

/-- However far ahead the time is, there still is a timer. -/
theorem Timer.exists_promote (h : q.Timer p id due now) (look : UInt32) :
    ∃ due', (q.promote look).Timer p id due' now := by
  obtain h | ⟨-, h⟩ := h.promote_cases look
  · exact ⟨due, h⟩
  · exact ⟨0, h 0 (Nat.zero_le now)⟩

theorem keeps_takeFront (h : q.takeFront = some (msg, q')) (hp : msg.phandler ≠ p) :
    q.Keeps q' p := by
  unfold takeFront at h
  split at h
  · cases h
  · rename_i hq
    cases h
    refine ⟨?_, .refl _⟩
    unfold readyFor
    rw [hq, List.filter_cons_of_neg (by simpa using hp)]

/-- The message for the handler comes when it is due, and was the only one. -/
theorem Timer.taken (ht : q.Timer p id due now) (h : q.takeFront = some (msg, q'))
    (hp : msg.phandler = p) : msg.messageId = id ∧ due ≤ now ∧ q'.Idle p := by
  unfold takeFront at h
  split at h
  · cases h
  rename_i rest hq
  cases h
  have hfront : q.readyFor p = msg :: rest.filter (·.phandler == p) := by
    unfold readyFor
    rw [hq, List.filter_cons_of_pos (by simpa using hp)]
  cases ht with
  | delayed d hd hr hid ht =>
    rw [hr] at hfront
    cases hfront
  | ready msg' hr hd hid hdue =>
    rw [hr] at hfront
    obtain ⟨rfl, hrest⟩ := List.cons.inj hfront
    exact ⟨hid, hdue, ⟨hrest.symm, hd⟩⟩

end RtcCore.L2.MessageQueue
