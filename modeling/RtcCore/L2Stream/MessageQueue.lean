import Mathlib.Data.List.Sort
import Mathlib.Data.List.TakeWhile
import RtcCore.Core.Int32
import RtcCore.Core.LTS

/-!
# The message queue of a thread

`rtc::MessageQueue` holds messages that are ready, in the order they came, and
messages that become ready at a time. Any thread posts and clears; `Get` and
`Peek` are for the thread of the queue. What happens between two locks of
`crit_` is one step here: the inner loop of `Get` locks once for every message
it looks at, and other threads may come in between. `ReceiveSends`, which `Get`
calls before each first pass, is not part of the queue, and the handlers it runs
do not peek.

`std::priority_queue` is kept as the list of what `top` and `pop` would return,
and the kept message with `fPeekKeep_` is one optional value. Handlers and data
are addresses, `NULL` is 0.

Results: no message is lost or made up, and messages are taken in the order they
became ready (`messages_conserved`); on a clock that does not wrap the delayed
ones become ready in the order of their times, never early, as soon as the queue
is looked at, and `Get` does not sleep past one (`timely`).
-/
namespace RtcCore.L2

def MQID_ANY : UInt32 := 0xFFFFFFFF

def MQID_DISPOSE : UInt32 := 0xFFFFFFFE

/-- mirrors webrtc/base/messagequeue.h:131-143 -/
structure Message where
  phandler : Nat := 0
  messageId : UInt32 := 0
  pdata : Nat := 0
  tsSensitive : UInt32 := 0
  deriving DecidableEq, Repr

/-- mirrors webrtc/base/messagequeue.h:135-138 -/
def Message.isMatch (m : Message) (handler : Nat) (id : UInt32) : Bool :=
  (handler == 0 || handler == m.phandler) && (id == MQID_ANY || id == m.messageId)

/-- mirrors webrtc/base/messagequeue.h:150-164 -/
structure DelayedMessage where
  msTrigger : UInt32
  num : UInt32
  msg : Message
  deriving DecidableEq, Repr

/-- `y < x`: the one that is triggered first has the higher priority.
mirrors webrtc/base/messagequeue.h:155-158 -/
def DelayedMessage.Before (x y : DelayedMessage) : Prop :=
  x.msTrigger < y.msTrigger ∨ x.msTrigger = y.msTrigger ∧ x.num < y.num

instance (x y : DelayedMessage) : Decidable (x.Before y) := inferInstanceAs (Decidable (_ ∨ _))

/-- mirrors webrtc/base/messagequeue.h:166-253 -/
structure MessageQueue where
  fStop : Bool := false
  msgPeek : Option Message := none
  msgq : List Message := []
  dmsgq : List DelayedMessage := []
  dmsgqNextNum : UInt32 := 0
  deriving DecidableEq, Repr

namespace MessageQueue

def kMaxMsgLatency : UInt32 := 150

def kForever : Int := -1

/-- mirrors webrtc/base/timeutils.cc:162-170 -/
def timeIsLater (earlier later : UInt32) : Bool :=
  -- `diff > 0` as an `int32`
  decide (0 < later - earlier) && decide (later - earlier < 0x80000000)

/-- mirrors webrtc/base/timeutils.cc:172-174 -/
def timeDiff (later earlier : UInt32) : Int := int32 (later.toNat - earlier.toNat)

variable (q : MessageQueue)

/-! ## Operations -/

/-- mirrors webrtc/base/messagequeue.cc:152-155 -/
def quit : MessageQueue := { q with fStop := true }

/-- mirrors webrtc/base/messagequeue.cc:161-163 -/
def restart : MessageQueue := { q with fStop := false }

/-- mirrors webrtc/base/messagequeue.cc:279-298 -/
def post (msg : Message) : MessageQueue :=
  if q.fStop then q else { q with msgq := q.msgq ++ [msg] }

/-- The message that `Post` makes. -/
def message (now : UInt32) (phandler : Nat) (id : UInt32) (pdata : Nat) (timeSensitive : Bool) :
    Message :=
  { phandler, messageId := id, pdata
    tsSensitive := if timeSensitive then now + kMaxMsgLatency else 0 }

/-- mirrors webrtc/base/messagequeue.cc:314-335 -/
def doDelayPost (tstamp : UInt32) (msg : Message) : MessageQueue :=
  if q.fStop then q
  else
    { q with
      dmsgq := q.dmsgq.orderedInsert (fun x y => ¬ y.Before x) ⟨tstamp, q.dmsgqNextNum, msg⟩
      dmsgqNextNum := q.dmsgqNextNum + 1 }

/-- The messages that were removed, and the queue. The delayed ones are in the order of their
times here, in the code in that of the heap.
mirrors webrtc/base/messagequeue.cc:353-400 -/
def clear (phandler : Nat) (id : UInt32) : List Message × MessageQueue :=
  let hit : Message → Bool := (·.isMatch phandler id)
  (q.msgPeek.toList.filter hit ++ q.msgq.filter hit ++ (q.dmsgq.map (·.msg)).filter hit,
    { q with
      msgPeek := q.msgPeek.filter fun m => !hit m
      msgq := q.msgq.filter fun m => !hit m
      dmsgq := q.dmsgq.filter fun d => !hit d.msg })

/-- What `Get` and `Peek` do first.
mirrors webrtc/base/messagequeue.cc:165-185 -/
def kept (peek : Bool) : Option (Message × MessageQueue) :=
  q.msgPeek.map fun m => (m, if peek then q else { q with msgPeek := none })

/-- Delayed messages that have been triggered become ready.
mirrors webrtc/base/messagequeue.cc:208-217 -/
def promote (msCurrent : UInt32) : MessageQueue :=
  let triggered (d : DelayedMessage) : Bool := !timeIsLater msCurrent d.msTrigger
  { q with
    msgq := q.msgq ++ (q.dmsgq.takeWhile triggered).map (·.msg)
    dmsgq := q.dmsgq.dropWhile triggered }

/-- How long the first delayed message stays so; after `promote` it is what the first pass
calculates.
mirrors webrtc/base/messagequeue.cc:209-211 -/
def cmsDelayNext (msCurrent : UInt32) : Int :=
  match q.dmsgq with
  | [] => kForever
  | d :: _ => timeDiff d.msTrigger msCurrent

/-- mirrors webrtc/base/messagequeue.cc:219-225 -/
def takeFront : Option (Message × MessageQueue) :=
  match q.msgq with
  | [] => none
  | m :: rest => some (m, { q with msgq := rest })

/-- What is done with a message that was taken; `none` is a message to dispose.
mirrors webrtc/base/messagequeue.cc:171-173,236-243 -/
def deliver (peek : Bool) (m : Message) : Option MessageQueue :=
  if m.messageId = MQID_DISPOSE then none
  else some (if peek then { q with msgPeek := some m } else q)

/-- Which is shorter, the delay wait or the asked wait?
mirrors webrtc/base/messagequeue.cc:248-257 -/
def cmsNext (cmsWait cmsElapsed cmsDelayNext : Int) : Int :=
  if cmsWait = kForever then cmsDelayNext
  else
    let cmsNext := max 0 (cmsWait - cmsElapsed)
    if cmsDelayNext ≠ kForever ∧ cmsDelayNext < cmsNext then cmsDelayNext else cmsNext

/-- mirrors webrtc/base/messagequeue.cc:337-351 -/
def getDelay (now : UInt32) : Int :=
  if q.msgq ≠ [] then 0
  else
    match q.dmsgq with
    | [] => kForever
    | d :: _ => max 0 (timeDiff d.msTrigger now)

/-- mirrors webrtc/base/messagequeue.h:212-215 -/
def size : Nat := q.msgq.length + q.dmsgq.length + if q.msgPeek.isSome then 1 else 0

/-- All messages that are in the queue. -/
def pending : List Message := q.msgPeek.toList ++ q.msgq ++ q.dmsgq.map (·.msg)

/-! ## What is in the queue -/

variable {q} {q' : MessageQueue} {m msg : Message} {now : UInt32}

/-- A message is accepted, unless the queue is quitting. -/
def accepted (q : MessageQueue) (msg : Message) : List Message := if q.fStop then [] else [msg]

theorem pending_post : (q.post msg).pending.Perm (q.pending ++ q.accepted msg) := by
  unfold post accepted
  split
  · rw [List.append_nil]
  · unfold pending
    refine List.perm_iff_count.2 fun a => ?_
    simp only [List.count_append]
    omega

theorem pending_doDelayPost {tstamp : UInt32} :
    (q.doDelayPost tstamp msg).pending.Perm (q.pending ++ q.accepted msg) := by
  unfold doDelayPost accepted
  split
  · rw [List.append_nil]
  · unfold pending
    dsimp only
    rw [List.append_assoc _ _ [msg]]
    refine List.Perm.append_left _ (((List.perm_orderedInsert _ _ _).map _).trans ?_)
    exact (List.perm_append_singleton _ _).symm

theorem pending_promote : (q.promote now).pending = q.pending := by
  unfold pending promote
  dsimp only
  rw [← List.append_assoc, List.append_assoc (_ ++ _), ← List.map_append,
    List.takeWhile_append_dropWhile]

theorem pending_takeFront (h : q.takeFront = some (m, q')) : q.pending.Perm (m :: q'.pending) := by
  unfold takeFront at h
  split at h
  · cases h
  · rename_i hq
    cases h
    unfold pending
    dsimp only
    rw [hq, List.append_assoc, List.append_assoc]
    exact List.perm_middle

theorem pending_kept {peek : Bool} (h : q.kept peek = some (m, q')) :
    q.pending.Perm (if peek then q'.pending else m :: q'.pending) := by
  obtain ⟨m', hm, heq⟩ := Option.map_eq_some_iff.1 h
  cases heq
  cases peek with
  | true => exact .refl _
  | false =>
    unfold pending
    rw [hm]
    exact .refl _

theorem pending_clear {phandler : Nat} {id : UInt32} :
    (q.clear phandler id).1 = q.pending.filter (·.isMatch phandler id) ∧
      (q.clear phandler id).2.pending = q.pending.filter fun m => !m.isMatch phandler id := by
  unfold clear pending
  dsimp only
  rw [List.filter_append, List.filter_append, List.filter_append, List.filter_append,
    Option.toList_filter, List.filter_map, List.filter_map]
  exact ⟨rfl, rfl⟩

/-! ## Runs -/

/-- What a thread does while it has the lock, or `Get` before it takes it. -/
inductive Call
  | post (msg : Message)
  | doDelayPost (tstamp : UInt32) (msg : Message)
  | clear (phandler : Nat) (id : UInt32)
  | quit
  | restart
  | kept (peek : Bool)
  /-- with the time, if it is a first pass -/
  | pass (peek : Bool) (msCurrent : Option UInt32)

/-- The queue and what happened to it. -/
structure History where
  queue : MessageQueue := {}
  posted : List Message := []
  /-- became ready, in that order -/
  ready : List Message := []
  /-- became ready later than posted, with `msCurrent` -/
  promoted : List (DelayedMessage × UInt32) := []
  disposed : List Message := []
  removed : List Message := []
  returned : List Message := []

namespace History

variable (h : History)

/-- A first pass moves what was triggered. -/
def promote (now : UInt32) : History :=
  let triggered := h.queue.dmsgq.takeWhile fun d => !timeIsLater now d.msTrigger
  { h with
    queue := h.queue.promote now
    ready := h.ready ++ triggered.map (·.msg)
    promoted := h.promoted ++ triggered.map (·, now) }

/-- Only a first pass has the time. -/
def look : Option UInt32 → History
  | none => h
  | some now => h.promote now

/-- A pass takes the first message that is ready, if there is one. -/
def take (peek : Bool) : History :=
  match h.queue.takeFront with
  | none => h
  | some (m, q) =>
    match q.deliver peek m with
    | none => { h with queue := q, disposed := h.disposed ++ [m] }
    | some q => { h with queue := q, returned := if peek then h.returned else h.returned ++ [m] }

def apply : Call → Option History
  | .post msg => some { h with
      queue := h.queue.post msg
      posted := h.posted ++ h.queue.accepted msg
      ready := h.ready ++ h.queue.accepted msg }
  | .doDelayPost tstamp msg => some { h with
      queue := h.queue.doDelayPost tstamp msg
      posted := h.posted ++ h.queue.accepted msg }
  | .clear phandler id => some { h with
      queue := (h.queue.clear phandler id).2
      removed := h.removed ++ (h.queue.clear phandler id).1 }
  | .quit => some { h with queue := h.queue.quit }
  | .restart => some { h with queue := h.queue.restart }
  | .kept peek => (h.queue.kept peek).map fun (m, q) =>
    { h with queue := q, returned := if peek then h.returned else h.returned ++ [m] }
  | .pass peek msCurrent =>
    -- `Get` is in the loop only if no message was kept
    if h.queue.msgPeek.isSome then none else some ((h.look msCurrent).take peek)

theorem apply_pass {h h' : History} {peek : Bool} {msCurrent : Option UInt32}
    (hs : h.apply (.pass peek msCurrent) = some h') :
    h.queue.msgPeek = none ∧ h' = (h.look msCurrent).take peek := by
  obtain ⟨hk, hs⟩ := Option.ite_none_left_eq_some.1 hs
  cases hs
  exact ⟨Option.not_isSome_iff_eq_none.1 hk, rfl⟩

/-! ## Conservation -/

/-- Where the messages are, and in what order. -/
structure Conserved : Prop where
  all : h.posted.Perm (h.returned ++ h.disposed ++ h.removed ++ h.queue.pending)
  order : (h.returned ++ h.queue.msgPeek.toList ++ h.queue.msgq).Sublist h.ready
  kept : ∀ m ∈ h.returned ++ h.queue.msgPeek.toList, m.messageId ≠ MQID_DISPOSE
  disposed : ∀ m ∈ h.disposed, m.messageId = MQID_DISPOSE

variable {h h' : History} {peek : Bool}

theorem Conserved.promote (hc : h.Conserved) (now : UInt32) : (h.promote now).Conserved where
  all := by
    unfold History.promote
    dsimp only
    rw [pending_promote]
    exact hc.all
  order := by
    unfold History.promote MessageQueue.promote
    dsimp only
    rw [← List.append_assoc]
    exact hc.order.append_right _
  kept := hc.kept
  disposed := hc.disposed

theorem Conserved.take (hc : h.Conserved) (hk : h.queue.msgPeek = none) (peek : Bool) :
    (h.take peek).Conserved := by
  unfold History.take
  cases htake : h.queue.takeFront with
  | none => exact hc
  | some r =>
    obtain ⟨m, q⟩ := r
    have hall := hc.all.trans ((pending_takeFront htake).append_left _)
    have horder := hc.order
    have hkept := hc.kept
    unfold takeFront at htake
    split at htake
    · cases htake
    rename_i rest hq
    cases htake
    rw [hk, Option.toList_none, List.append_nil] at horder hkept
    rw [hq] at horder
    unfold pending at hall
    rw [hk] at hall
    dsimp only
    unfold deliver
    by_cases hm : m.messageId = MQID_DISPOSE
    · rw [if_pos hm]
      refine ⟨?_, ?_, ?_, fun a ha => ?_⟩
      · refine hall.trans (List.perm_iff_count.2 fun a => ?_)
        unfold pending
        simp only [hk, List.count_append, List.count_cons, List.count_nil]
        omega
      · simp only [hk, Option.toList_none, List.append_nil]
        exact (List.Sublist.append_left (List.sublist_cons_self m rest) _).trans horder
      · simpa only [hk, Option.toList_none, List.append_nil] using hkept
      · rcases List.mem_append.1 ha with ha | ha
        · exact hc.disposed a ha
        · exact List.mem_singleton.1 ha ▸ hm
    · rw [if_neg hm]
      have hkept' : ∀ a ∈ h.returned ++ [m], a.messageId ≠ MQID_DISPOSE := fun a ha =>
        (List.mem_append.1 ha).elim (hkept a) fun ha => List.mem_singleton.1 ha ▸ hm
      cases peek with
      | false =>
        refine ⟨?_, ?_, ?_, hc.disposed⟩
        · refine hall.trans (List.perm_iff_count.2 fun a => ?_)
          unfold pending
          simp only [Bool.false_eq_true, if_false, hk, List.count_append, List.count_cons,
            List.count_nil]
          omega
        · simpa [hk] using horder
        · simpa [hk] using hkept'
      | true =>
        refine ⟨?_, ?_, hkept', hc.disposed⟩
        · refine hall.trans (List.perm_iff_count.2 fun a => ?_)
          unfold pending
          simp only [if_true, List.count_append, List.count_cons, List.count_nil,
            Option.toList_none, Option.toList_some]
          omega
        · simpa using horder

theorem Conserved.apply_kept (hc : h.Conserved) {m : Message} {q : MessageQueue}
    (hk : h.queue.kept peek = some (m, q)) :
    Conserved { h with queue := q, returned := if peek then h.returned else h.returned ++ [m] } := by
  have hall := hc.all.trans ((pending_kept hk).append_left _)
  obtain ⟨m', hm, heq⟩ := Option.map_eq_some_iff.1 hk
  cases heq
  cases peek with
  | true => exact hc
  | false =>
    have horder := hc.order
    have hkept := hc.kept
    rw [hm] at horder hkept
    refine ⟨?_, ?_, ?_, hc.disposed⟩
    · refine hall.trans (List.perm_iff_count.2 fun a => ?_)
      simp only [Bool.false_eq_true, if_false, List.count_append, List.count_cons, List.count_nil]
      omega
    · simpa using horder
    · simpa using hkept

theorem Conserved.clear (hc : h.Conserved) (phandler : Nat) (id : UInt32) :
    Conserved { h with
      queue := (h.queue.clear phandler id).2
      removed := h.removed ++ (h.queue.clear phandler id).1 } where
  all := by
    dsimp only
    rw [pending_clear.1, pending_clear.2, ← List.append_assoc _ h.removed,
      List.append_assoc _ (List.filter _ _)]
    exact hc.all.trans ((List.filter_append_perm _ _).symm.append_left _)
  order := by
    refine List.Sublist.trans ?_ hc.order
    refine List.Sublist.append (List.Sublist.append_left ?_ _) List.filter_sublist
    rw [MessageQueue.clear, Option.toList_filter]
    exact List.filter_sublist
  kept m hm := by
    refine hc.kept m ?_
    rcases List.mem_append.1 hm with hm | hm
    · exact List.mem_append_left _ hm
    · rw [MessageQueue.clear, Option.toList_filter] at hm
      exact List.mem_append_right _ (List.mem_filter.1 hm).1
  disposed := hc.disposed

theorem Conserved.post (hc : h.Conserved) (msg : Message) :
    Conserved { h with
      queue := h.queue.post msg
      posted := h.posted ++ h.queue.accepted msg
      ready := h.ready ++ h.queue.accepted msg } where
  all := by
    refine (hc.all.append_right _).trans ?_
    rw [List.append_assoc _ h.queue.pending]
    exact pending_post.symm.append_left _
  order := by
    unfold MessageQueue.post accepted
    split
    · exact hc.order.trans (List.sublist_append_left _ _)
    · dsimp only
      rw [← List.append_assoc]
      exact hc.order.append_right _
  kept := by
    unfold MessageQueue.post
    split <;> exact hc.kept
  disposed := hc.disposed

theorem Conserved.doDelayPost (hc : h.Conserved) (tstamp : UInt32) (msg : Message) :
    Conserved { h with
      queue := h.queue.doDelayPost tstamp msg
      posted := h.posted ++ h.queue.accepted msg } where
  all := by
    refine (hc.all.append_right _).trans ?_
    rw [List.append_assoc _ h.queue.pending]
    exact pending_doDelayPost.symm.append_left _
  order := by
    unfold MessageQueue.doDelayPost
    split <;> exact hc.order
  kept := by
    unfold MessageQueue.doDelayPost
    split <;> exact hc.kept
  disposed := hc.disposed

theorem Conserved.apply (hc : h.Conserved) {c : Call} (hs : h.apply c = some h') :
    h'.Conserved := by
  cases c with
  | post msg =>
    cases hs
    exact hc.post msg
  | doDelayPost tstamp msg =>
    cases hs
    exact hc.doDelayPost tstamp msg
  | clear phandler id =>
    cases hs
    exact hc.clear phandler id
  | quit =>
    cases hs
    exact ⟨hc.all, hc.order, hc.kept, hc.disposed⟩
  | restart =>
    cases hs
    exact ⟨hc.all, hc.order, hc.kept, hc.disposed⟩
  | kept peek =>
    obtain ⟨⟨m, q⟩, hk, rfl⟩ := Option.map_eq_some_iff.1 hs
    exact hc.apply_kept hk
  | pass peek msCurrent =>
    obtain ⟨hk, rfl⟩ := apply_pass hs
    cases msCurrent with
    | none => exact hc.take hk peek
    | some now => exact (hc.promote now).take hk peek

end History

/-- Any calls of any threads, in any order. -/
def calls : LTS History Call := .ofFn (· = {}) History.apply

/-- Every message that was accepted was returned by `Get`, disposed of, removed by `Clear`, or is
still there, once; they are returned in the order in which they became ready, and none of those to
dispose is. -/
theorem messages_conserved {h : History} (hr : calls.Reachable h) :
    h.posted.Perm (h.returned ++ h.disposed ++ h.removed ++ h.queue.pending) ∧
      (h.returned ++ h.queue.msgPeek.toList ++ h.queue.msgq).Sublist h.ready ∧
      (∀ m ∈ h.returned, m.messageId ≠ MQID_DISPOSE) ∧
      ∀ m ∈ h.disposed, m.messageId = MQID_DISPOSE := by
  have hc : h.Conserved := by
    refine LTS.Inductive.reachable (P := History.Conserved) ⟨?_, fun h c h' hc hs => hc.apply hs⟩ h hr
    rintro h rfl
    exact ⟨.refl _, .refl _, nofun, nofun⟩
  exact ⟨hc.all, hc.order, fun m hm => hc.kept m (List.mem_append_left _ hm), hc.disposed⟩

def served : List Call :=
  [.post ⟨1, 5, 0, 0⟩, .post ⟨0, MQID_DISPOSE, 7, 0⟩, .doDelayPost 10 ⟨2, 6, 0, 0⟩,
    .pass false (some 3), .pass true (some 12), .pass true none, .kept false]

/-- A message to dispose of between two that are returned, the second one after a `Peek`. -/
theorem messages_conserved_served : ∃ h, served.foldlM History.apply {} = some h ∧
    h.returned = [⟨1, 5, 0, 0⟩, ⟨2, 6, 0, 0⟩] ∧
    h.posted.Perm (h.returned ++ h.disposed ++ h.removed ++ h.queue.pending) := by
  have hfold : served.foldlM History.apply {} = some _ := rfl
  exact ⟨_, hfold, rfl, (messages_conserved ⟨{}, served, rfl, LTS.Run.of_foldlM hfold⟩).1⟩

/-! ## Time -/

theorem timeIsLater_iff {earlier later : UInt32} (h : later.toNat < earlier.toNat + 2147483648)
    (h' : earlier.toNat ≤ later.toNat + 2147483648) :
    timeIsLater earlier later = true ↔ earlier.toNat < later.toNat := by
  have he := earlier.toNat_lt
  have hl := later.toNat_lt
  unfold timeIsLater
  rw [Bool.and_eq_true, decide_eq_true_eq, decide_eq_true_eq, UInt32.lt_iff_toNat_lt,
    UInt32.lt_iff_toNat_lt, UInt32.toNat_sub]
  simp only [UInt32.reduceToNat, Nat.reducePow]
  omega

theorem timeDiff_eq {earlier later : UInt32} (h : earlier.toNat ≤ later.toNat)
    (h' : later.toNat < earlier.toNat + 2147483648) :
    timeDiff later earlier = later.toNat - earlier.toNat :=
  int32_of_fits (by omega) (by omega)

end MessageQueue

namespace DelayedMessage

variable {x y z : DelayedMessage}

theorem before_iff : x.Before y ↔ x.msTrigger.toNat < y.msTrigger.toNat ∨
    x.msTrigger.toNat = y.msTrigger.toNat ∧ x.num.toNat < y.num.toNat := by
  unfold Before
  rw [UInt32.lt_iff_toNat_lt, UInt32.lt_iff_toNat_lt, UInt32.toNat_inj]

theorem Before.trans (h : x.Before y) (h' : y.Before z) : x.Before z := by
  rw [before_iff] at *
  omega

theorem Before.le (h : x.Before y) : x.msTrigger.toNat ≤ y.msTrigger.toNat := by
  rw [before_iff] at h
  omega

/-- A message that can be told from all others is put where it belongs. -/
theorem orderedInsert_sorted {l : List DelayedMessage} (h : l.Pairwise Before)
    (hx : ∀ y ∈ l, y.num < x.num) :
    (l.orderedInsert (fun x y => ¬ y.Before x) x).Pairwise Before := by
  induction l with
  | nil => exact List.pairwise_singleton _ _
  | cons y l ih =>
    obtain ⟨hy, hl⟩ := List.pairwise_cons.1 h
    rw [List.orderedInsert]
    split
    · rename_i hyx
      have hxy : x.Before y := by
        have hnum := UInt32.lt_iff_toNat_lt.1 (hx y List.mem_cons_self)
        rw [before_iff] at *
        omega
      refine List.pairwise_cons.2 ⟨fun z hz => ?_, h⟩
      rcases List.mem_cons.1 hz with rfl | hz
      · exact hxy
      · exact hxy.trans (hy z hz)
    · rename_i hyx
      refine List.pairwise_cons.2 ⟨fun z hz => ?_, ih hl fun z hz => hx z (List.mem_cons_of_mem y hz)⟩
      rcases (List.mem_orderedInsert _).1 hz with rfl | hz
      · exact not_not.1 hyx
      · exact hy z hz

end DelayedMessage

namespace MessageQueue

/-- The queue and the clock. -/
structure Clocked where
  history : History := {}
  time : Nat := 0
  /-- what the last first pass had for the time -/
  msCurrent : Nat := 0

namespace Clocked

variable (s : Clocked)

def lastLook (s : Clocked) : Call → Nat
  | .pass _ (some now) => now.toNat
  | _ => s.msCurrent

/-- A call at a time. -/
def step (l : Nat × Call) : Option Clocked :=
  (s.history.apply l.2).map fun h => { history := h, time := l.1, msCurrent := s.lastLook l.2 }

/-- The clock does not wrap. What is posted is for now or later, not more than 12 days, and less
than 2^32 messages were; a first pass has the time of 12 days ago or less, and comes before a
message waits for 24 days. -/
def Allows (l : Nat × Call) : Prop :=
  s.time ≤ l.1 ∧
    match l.2 with
    | .doDelayPost tstamp _ => l.1 ≤ tstamp.toNat ∧ tstamp.toNat < l.1 + 1073741824 ∧
        s.history.queue.dmsgqNextNum + 1 ≠ 0
    | .pass _ (some now) => s.msCurrent ≤ now.toNat ∧ now.toNat ≤ l.1 ∧
        l.1 < now.toNat + 1073741824 ∧
        ∀ d ∈ s.history.queue.dmsgq, now.toNat ≤ d.msTrigger.toNat + 2147483648
    | _ => True

/-- Promoted messages and those that wait, in one order. -/
structure Timely : Prop where
  sorted : (s.history.promoted.map Prod.fst ++ s.history.queue.dmsgq).Pairwise DelayedMessage.Before
  due : ∀ p ∈ s.history.promoted, p.1.msTrigger.toNat ≤ p.2.toNat
  looked : ∀ p ∈ s.history.promoted, p.2.toNat ≤ s.msCurrent
  numbered : ∀ d ∈ s.history.promoted.map Prod.fst ++ s.history.queue.dmsgq,
    d.num < s.history.queue.dmsgqNextNum
  ahead : ∀ d ∈ s.history.queue.dmsgq, d.msTrigger.toNat < s.time + 1073741824
  clock : s.msCurrent ≤ s.time

variable {s} {s' : Clocked} {h : History} {t : Nat}

/-- What touches neither the delayed messages nor the numbers. -/
theorem Timely.same (ht : s.Timely) (hp : h.promoted = s.history.promoted)
    (hd : h.queue.dmsgq.Sublist s.history.queue.dmsgq)
    (hn : h.queue.dmsgqNextNum = s.history.queue.dmsgqNextNum) (hle : s.time ≤ t) :
    Timely { history := h, time := t, msCurrent := s.msCurrent } where
  sorted := by
    dsimp only
    rw [hp]
    exact ht.sorted.sublist (hd.append_left _)
  due p hmem := ht.due p (hp ▸ hmem)
  looked p hmem := ht.looked p (hp ▸ hmem)
  numbered d hmem := by
    dsimp only at hmem ⊢
    rw [hp] at hmem
    rw [hn]
    exact ht.numbered d ((hd.append_left _).subset hmem)
  ahead d hmem := lt_of_lt_of_le (ht.ahead d (hd.subset hmem)) (by dsimp only; omega)
  clock := ht.clock.trans hle

theorem take_same (h : History) (peek : Bool) : (h.take peek).promoted = h.promoted ∧
    (h.take peek).queue.dmsgq = h.queue.dmsgq ∧
    (h.take peek).queue.dmsgqNextNum = h.queue.dmsgqNextNum := by
  unfold History.take takeFront
  split
  · exact ⟨rfl, rfl, rfl⟩
  · rename_i m q hq
    split at hq
    · cases hq
    · cases hq
      split
      · exact ⟨rfl, rfl, rfl⟩
      · rename_i q' hq'
        unfold deliver at hq'
        split at hq'
        · cases hq'
        · cases hq'
          cases peek <;> exact ⟨rfl, rfl, rfl⟩

theorem Timely.doDelayPost (ht : s.Timely) {tstamp : UInt32} {msg : Message}
    (hs : s.step (t, .doDelayPost tstamp msg) = some s')
    (ha : s.Allows (t, .doDelayPost tstamp msg)) : s'.Timely := by
  cases hs
  obtain ⟨hle, htime, hahead, hnum⟩ := ha
  dsimp only at hle htime hahead hnum
  unfold MessageQueue.doDelayPost
  by_cases hstop : s.history.queue.fStop = true
  · simp only [hstop, if_true]
    exact ht.same rfl (List.Sublist.refl _) rfl hle
  simp only [hstop, Bool.false_eq_true, if_false]
  have hnext : s.history.queue.dmsgqNextNum.toNat + 1 = (s.history.queue.dmsgqNextNum + 1).toNat := by
    have hlt := s.history.queue.dmsgqNextNum.toNat_lt
    have hne : (s.history.queue.dmsgqNextNum + 1).toNat ≠ 0 := fun h0 =>
      hnum (UInt32.toNat_inj.1 (by simpa using h0))
    rw [UInt32.toNat_add] at hne ⊢
    simp only [UInt32.reduceToNat, Nat.reducePow] at hne ⊢
    omega
  obtain ⟨fresh, hfresh⟩ : ∃ d : DelayedMessage, d = ⟨tstamp, s.history.queue.dmsgqNextNum, msg⟩ :=
    ⟨_, rfl⟩
  have hmem {d : DelayedMessage} : d ∈ s.history.queue.dmsgq.orderedInsert
      (fun x y => ¬ y.Before x) fresh ↔ d = fresh ∨ d ∈ s.history.queue.dmsgq :=
    List.mem_orderedInsert _
  have hnumbered : ∀ d ∈ s.history.promoted.map Prod.fst ++ s.history.queue.dmsgq,
      d.num < fresh.num := by
    rw [hfresh]
    exact ht.numbered
  rw [← hfresh]
  obtain ⟨hsorted, hwait, hacross⟩ := List.pairwise_append.1 ht.sorted
  refine ⟨List.pairwise_append.2 ⟨hsorted, ?_, ?_⟩, ht.due, ht.looked, ?_, ?_, ht.clock.trans hle⟩
  · exact DelayedMessage.orderedInsert_sorted hwait fun d hd =>
      hnumbered d (List.mem_append_right _ hd)
  · intro d hd e he
    rcases hmem.1 he with rfl | he
    · -- it was promoted at a time that is not later than now
      obtain ⟨p, hp, rfl⟩ := List.mem_map.1 hd
      have hdue := (ht.due p hp).trans ((ht.looked p hp).trans (ht.clock.trans hle))
      have hnum := UInt32.lt_iff_toNat_lt.1 (hnumbered p.1 (List.mem_append_left _ hd))
      have htrigger : e.msTrigger = tstamp := by rw [hfresh]
      rw [DelayedMessage.before_iff, htrigger]
      omega
    · exact hacross d hd e he
  · intro d hd
    rw [UInt32.lt_iff_toNat_lt]
    dsimp only at hd ⊢
    rcases List.mem_append.1 hd with hd | hd
    · have := UInt32.lt_iff_toNat_lt.1 (ht.numbered d (List.mem_append_left _ hd))
      omega
    · rcases hmem.1 hd with rfl | hd
      · rw [hfresh]
        dsimp only
        omega
      · have := UInt32.lt_iff_toNat_lt.1 (ht.numbered d (List.mem_append_right _ hd))
        omega
  · intro d hd
    rcases hmem.1 hd with rfl | hd
    · rw [hfresh]
      exact hahead
    · exact lt_of_lt_of_le (ht.ahead d hd) (by dsimp only; omega)

/-- What is not triggered is later than the time of the look. -/
theorem later_of_dropWhile {l : List DelayedMessage} {now : UInt32}
    (hsorted : l.Pairwise DelayedMessage.Before)
    (hahead : ∀ d ∈ l, d.msTrigger.toNat < now.toNat + 2147483648)
    (hlate : ∀ d ∈ l, now.toNat ≤ d.msTrigger.toNat + 2147483648) :
    ∀ d ∈ l.dropWhile fun d => !timeIsLater now d.msTrigger, now.toNat < d.msTrigger.toNat := by
  induction l with
  | nil => exact nofun
  | cons x l ih =>
    obtain ⟨hx, hl⟩ := List.pairwise_cons.1 hsorted
    have hiff := timeIsLater_iff (hahead x List.mem_cons_self) (hlate x List.mem_cons_self)
    rw [List.dropWhile_cons]
    split
    · exact ih hl (fun d hd => hahead d (List.mem_cons_of_mem x hd))
        fun d hd => hlate d (List.mem_cons_of_mem x hd)
    · rename_i hlater
      have hlt := hiff.1 (by simpa using hlater)
      intro d hd
      rcases List.mem_cons.1 hd with rfl | hd
      · exact hlt
      · exact lt_of_lt_of_le hlt (hx d hd).le

theorem Timely.pass (ht : s.Timely) {peek : Bool} {now : UInt32}
    (hs : s.step (t, .pass peek (some now)) = some s') (ha : s.Allows (t, .pass peek (some now))) :
    s'.Timely ∧ ∀ d ∈ s'.history.queue.dmsgq, now.toNat < d.msTrigger.toNat ∧
      d.msTrigger.toNat < now.toNat + 2147483648 := by
  obtain ⟨h', happ, rfl⟩ := Option.map_eq_some_iff.1 hs
  obtain ⟨-, rfl⟩ := History.apply_pass happ
  obtain ⟨hle, hmono, hnow, hslack, hlate⟩ := ha
  dsimp only at hle hmono hnow hslack hlate
  obtain ⟨hp, hd, hn⟩ := take_same (s.history.promote now) peek
  have hahead : ∀ d ∈ s.history.queue.dmsgq, d.msTrigger.toNat < now.toNat + 2147483648 :=
    fun d hd => by
      have := ht.ahead d hd
      omega
  have hsplit : ((s.history.promote now).promoted.map Prod.fst ++
      (s.history.promote now).queue.dmsgq) =
      s.history.promoted.map Prod.fst ++ s.history.queue.dmsgq := by
    unfold History.promote MessageQueue.promote
    dsimp only
    rw [List.map_append, List.map_map, List.append_assoc]
    congr 1
    exact (congrArg (· ++ _) (List.map_id _)).trans List.takeWhile_append_dropWhile
  have hfresh : ∀ p ∈ (s.history.promote now).promoted, p ∈ s.history.promoted ∨
      p.2 = now ∧ p.1.msTrigger.toNat ≤ now.toNat := by
    intro p hp
    rcases List.mem_append.1 hp with hp | hp
    · exact .inl hp
    · obtain ⟨d, hd, rfl⟩ := List.mem_map.1 hp
      have hdue := List.mem_takeWhile_imp hd
      have hin := (List.takeWhile_sublist _).subset hd
      refine .inr ⟨rfl, Nat.not_lt.1 fun hlt => ?_⟩
      rw [(timeIsLater_iff (hahead d hin) (hlate d hin)).2 hlt] at hdue
      cases hdue
  have hsub : (s.history.promote now).queue.dmsgq.Sublist s.history.queue.dmsgq :=
    List.dropWhile_sublist _
  refine ⟨⟨?_, ?_, ?_, ?_, ?_, hnow⟩, ?_⟩
  · dsimp only [History.look]
    rw [hp, hd, hsplit]
    exact ht.sorted
  · dsimp only [History.look]
    rw [hp]
    exact fun p hmem => (hfresh p hmem).elim (ht.due p) fun h => h.1 ▸ h.2
  · dsimp only [History.look, lastLook]
    rw [hp]
    exact fun p hmem => (hfresh p hmem).elim (fun h => (ht.looked p h).trans hmono)
      fun h => le_of_eq (congrArg UInt32.toNat h.1)
  · dsimp only [History.look]
    rw [hp, hd, hn, hsplit]
    exact ht.numbered
  · dsimp only [History.look]
    rw [hd]
    exact fun d hmem => lt_of_lt_of_le (ht.ahead d (hsub.subset hmem)) (by omega)
  · dsimp only [History.look]
    rw [hd]
    have hwait := (List.pairwise_append.1 ht.sorted).2.1
    exact fun d hmem => ⟨later_of_dropWhile hwait hahead hlate d hmem, hahead d (hsub.subset hmem)⟩

theorem Timely.step (ht : s.Timely) {l : Nat × Call} (hs : s.step l = some s')
    (ha : s.Allows l) : s'.Timely := by
  obtain ⟨t, c⟩ := l
  cases c with
  | post msg =>
    cases hs
    refine ht.same rfl ?_ ?_ ha.1 <;> (dsimp only; unfold MessageQueue.post; split)
    · exact List.Sublist.refl _
    · exact List.Sublist.refl _
    · rfl
    · rfl
  | doDelayPost tstamp msg => exact ht.doDelayPost hs ha
  | clear phandler id =>
    cases hs
    exact ht.same rfl List.filter_sublist rfl ha.1
  | quit =>
    cases hs
    exact ht.same rfl (List.Sublist.refl _) rfl ha.1
  | restart =>
    cases hs
    exact ht.same rfl (List.Sublist.refl _) rfl ha.1
  | kept peek =>
    obtain ⟨h', happ, rfl⟩ := Option.map_eq_some_iff.1 hs
    obtain ⟨⟨m, q⟩, hk, rfl⟩ := Option.map_eq_some_iff.1 happ
    obtain ⟨m', -, heq⟩ := Option.map_eq_some_iff.1 hk
    cases heq
    cases peek <;> exact ht.same rfl (List.Sublist.refl _) rfl ha.1
  | pass peek msCurrent =>
    cases msCurrent with
    | some now => exact (ht.pass hs ha).1
    | none =>
      obtain ⟨h', happ, rfl⟩ := Option.map_eq_some_iff.1 hs
      obtain ⟨-, rfl⟩ := History.apply_pass happ
      obtain ⟨hp, hd, hn⟩ := take_same s.history peek
      exact ht.same hp (hd ▸ List.Sublist.refl _) hn ha.1

end Clocked

/-- Calls at times of a clock. -/
def clocked : LTS Clocked (Nat × Call) := (LTS.ofFn (· = {}) Clocked.step).within Clocked.Allows

theorem clocked_timely : clocked.Inductive Clocked.Timely where
  init := by
    rintro s rfl
    exact ⟨.nil, nofun, nofun, nofun, nofun, Nat.le_refl 0⟩
  step _ _ _ ht hs := ht.step hs.2 hs.1

/-- Where messages wait, `Get` waits until the first of them is triggered, or less. -/
theorem cmsNext_le {q : MessageQueue} {now : UInt32}
    (hsorted : q.dmsgq.Pairwise DelayedMessage.Before)
    (hahead : ∀ d ∈ q.dmsgq, now.toNat < d.msTrigger.toNat ∧
      d.msTrigger.toNat < now.toNat + 2147483648) (cmsWait cmsElapsed : Int) :
    ∀ d ∈ q.dmsgq, 0 ≤ cmsNext cmsWait cmsElapsed (q.cmsDelayNext now) ∧
      now.toNat + cmsNext cmsWait cmsElapsed (q.cmsDelayNext now) ≤ d.msTrigger.toNat := by
  intro d hd
  unfold cmsDelayNext
  cases hq : q.dmsgq with
  | nil =>
    rw [hq] at hd
    cases hd
  | cons x l =>
    rw [hq] at hd hsorted hahead
    obtain ⟨hlt, hlt'⟩ := hahead x List.mem_cons_self
    have hle : x.msTrigger.toNat ≤ d.msTrigger.toNat := by
      rcases List.mem_cons.1 hd with rfl | hd
      · exact Nat.le_refl _
      · exact ((List.pairwise_cons.1 hsorted).1 d hd).le
    dsimp only
    rw [timeDiff_eq hlt.le hlt']
    unfold cmsNext kForever
    split
    · omega
    · dsimp only
      split <;> omega

/-- On a clock that does not wrap, the delayed messages become ready in the order of their times
and, at one time, of their posting, none before its time; after a first pass none is left whose time
has come, and `Get` does not sleep past the time of one. -/
theorem timely {s : Clocked} (hr : clocked.Reachable s) :
    (s.history.promoted.map Prod.fst).Pairwise DelayedMessage.Before ∧
      (∀ p ∈ s.history.promoted, p.1.msTrigger.toNat ≤ p.2.toNat) ∧
      ∀ t peek now s', clocked.step s (t, .pass peek (some now)) s' →
        ∀ d ∈ s'.history.queue.dmsgq, now.toNat < d.msTrigger.toNat ∧
          ∀ cmsWait cmsElapsed,
            let cmsNext := cmsNext cmsWait cmsElapsed (s'.history.queue.cmsDelayNext now)
            0 ≤ cmsNext ∧ now.toNat + cmsNext ≤ d.msTrigger.toNat := by
  have ht := clocked_timely.reachable s hr
  refine ⟨(List.pairwise_append.1 ht.sorted).1, ht.due, fun t peek now s' hs d hd => ?_⟩
  obtain ⟨ht', hahead⟩ := ht.pass hs.2 hs.1
  exact ⟨(hahead d hd).1, fun cmsWait cmsElapsed =>
    cmsNext_le (List.pairwise_append.1 ht'.sorted).2.1 hahead cmsWait cmsElapsed d hd⟩

/-- Two messages, of which the one posted last is triggered first. -/
def twoTimers : Clocked where
  history := {
    queue := { dmsgq := [⟨20, 1, {}⟩, ⟨30, 0, {}⟩], dmsgqNextNum := 2 }
    posted := [{}, {}] }
  time := 6

theorem timely_two :
    ∃ s', clocked.step twoTimers (25, .pass false (some 24)) s' ∧
      s'.history.queue.dmsgq = [⟨30, 0, {}⟩] ∧
      ∀ d ∈ s'.history.queue.dmsgq, 24 < d.msTrigger.toNat ∧
        ∀ cmsWait cmsElapsed,
          let cmsNext := cmsNext cmsWait cmsElapsed (s'.history.queue.cmsDelayNext 24)
          0 ≤ cmsNext ∧ 24 + cmsNext ≤ d.msTrigger.toNat := by
  have hr : clocked.Run {} [(5, .doDelayPost 30 {}), (6, .doDelayPost 20 {})] twoTimers :=
    .cons ⟨⟨by decide, by decide, by decide, by decide⟩, rfl⟩ <|
    .cons ⟨⟨by decide, by decide, by decide, by decide⟩, rfl⟩ (.nil _)
  obtain ⟨s', hs⟩ : ∃ s', twoTimers.step (25, .pass false (some 24)) = some s' := ⟨_, rfl⟩
  have hstep : clocked.step twoTimers (25, .pass false (some 24)) s' :=
    ⟨⟨by decide, by decide, by decide, by decide, by decide⟩, hs⟩
  refine ⟨s', hstep, ?_, (timely ⟨{}, _, rfl, hr⟩).2.2 25 false 24 s' hstep⟩
  cases hs
  rfl

end MessageQueue

end RtcCore.L2
