import RtcCore.L2Stream.MessageTimers
import RtcCore.L4P2p.TurnServer

/-!
# STUN requests and their timers

`StunRequestManager` sends requests and sends them again until a response comes
or they time out. All of it runs on one thread: each request has a message in
the queue of the thread (`MessageQueue`), for the time when it is due to be sent
again, and `OnMessage` is what the thread calls with that message. The thread
has other handlers, which post what they like.

Addresses of handlers are used again after a handler is deleted, so a message
that is left over would be for whoever is there next. A handler runs without
time going by. What the callbacks of a request do is up to its class; here they
may start further requests. The thread does not quit or peek.

`requests_` is kept in the order of the sends, its key is the transaction id of
the request.

Result: every message of the queue is for a handler that is there, and each
request has exactly one; a request is sent at most as often as its class says,
in the intervals of its class, with the same message, and has at most one
outcome, after which it is not sent again (`requests_sound`).
-/
namespace RtcCore.L4.StunRequests

open Bytes L1.Stun L2 Turn

def MSG_STUN_SEND : UInt32 := 1

def MAX_SENDS : Nat := 9

def DELAY_UNIT : Nat := 100

def DELAY_MAX_FACTOR : Nat := 16

def CONNECTION_RESPONSE_TIMEOUT : Nat := 5 * 1000

/-- The classes with a `GetNextDelay` of their own: `StunRequest`, `ConnectionRequest` and the
`AllocateRequest` of a relay. -/
inductive Kind where
  | stun
  | connection
  | relay
  deriving DecidableEq, Repr

/-- mirrors webrtc/p2p/base/stunrequest.h:76-133 -/
structure StunRequest where
  kind : Kind
  /-- what `msg_->CreateNew` makes -/
  cls : MessageClass
  msg : StunMessage
  count : Nat := 0
  timeout : Bool := false
  tstamp : UInt32 := 0
  /-- tells it from the others that were at its address -/
  serial : Nat

/-- mirrors webrtc/p2p/base/stunrequest.cc:195-201, webrtc/p2p/base/port.cc:841-846 and
webrtc/p2p/base/relayport.cc:778-784 -/
def StunRequest.getNextDelay (r : StunRequest) : Nat × StunRequest :=
  match r.kind with
  | .stun =>
    (DELAY_UNIT * min (1 <<< r.count) DELAY_MAX_FACTOR,
      { r with count := r.count + 1, timeout := r.timeout || r.count + 1 == MAX_SENDS })
  | .connection => (CONNECTION_RESPONSE_TIMEOUT, { r with timeout := true })
  | .relay =>
    (100 * max (1 <<< r.count) 2,
      { r with count := r.count + 1, timeout := r.timeout || r.count + 1 == 5 })

/-- What happens to a request. -/
inductive Event where
  | sendPacket (msg : StunMessage)
  | onResponse
  | onErrorResponse
  | onTimeout
  deriving DecidableEq, Repr

structure Entry where
  serial : Nat
  time : Nat
  event : Event

/-- A request to be sent, as `Construct` leaves it, with where it was allocated. -/
structure NewRequest where
  address : Nat
  kind : Kind
  cls : MessageClass
  msg : StunMessage
  delay : Nat

/-- The manager with the queue of its thread, and the other handlers of the thread.
mirrors webrtc/p2p/base/stunrequest.h:28-72 -/
structure StunRequestManager where
  thread : MessageQueue := {}
  requests : List (Nat × StunRequest) := []
  others : List Nat := []
  time : Nat := 0
  /-- all requests so far, and what happened to them, the last first -/
  created : List (Kind × StunMessage) := []
  log : List Entry := []

namespace StunRequestManager

variable (m : StunRequestManager)

/-! ## Operations -/

def addresses : List Nat := m.requests.map Prod.fst

def request? (p : Nat) : Option StunRequest := (m.requests.find? (·.1 == p)).map (·.2)

/-- `requests_.find(id)` -/
def find? (id : Bytes) : Option (Nat × StunRequest) :=
  m.requests.find? (·.2.msg.transactionId == id)

def signal (r : StunRequest) (event : Event) : StunRequestManager :=
  { m with log := ⟨r.serial, m.time, event⟩ :: m.log }

/-- `thread_->PostDelayed(delay, request, MSG_STUN_SEND, NULL)` -/
def postDelayed (p delay : Nat) : StunRequestManager :=
  let msg : Message := { phandler := p, messageId := MSG_STUN_SEND }
  { m with thread := m.thread.doDelayPost (.ofNat (m.time + delay)) msg }

/-- The destructor of a request, with `Remove`.
mirrors webrtc/p2p/base/stunrequest.cc:56-64,147-154 -/
def delete (p : Nat) : StunRequestManager :=
  { m with
    requests := m.requests.filter fun e => e.1 ≠ p
    thread := (m.thread.clear p MQID_ANY).2 }

/-- `OnMessage` of a request that has not timed out.
mirrors webrtc/p2p/base/stunrequest.cc:185-192 -/
def transmit (p : Nat) (r : StunRequest) : StunRequestManager :=
  let m := m.signal r (.sendPacket r.msg)
  let (delay, r') := { r with tstamp := .ofNat m.time }.getNextDelay
  let requests := m.requests.map fun e => if e.1 = p then (p, r') else e
  ({ m with requests } : StunRequestManager).postDelayed p delay

/-- `none`: an assertion fails, or there is something at the address.
mirrors webrtc/p2p/base/stunrequest.cc:42-54 -/
def sendDelayed (new : NewRequest) : Option StunRequestManager :=
  if new.address = 0 ∨ new.address ∈ m.addresses ∨ new.address ∈ m.others ∨
      (m.find? new.msg.transactionId).isSome then none
  else
    let r : StunRequest :=
      { kind := new.kind, cls := new.cls, msg := new.msg, serial := m.created.length }
    let m := { m with
      requests := m.requests ++ [(new.address, r)]
      created := m.created ++ [(new.kind, new.msg)] }
    if new.delay > 0 then some (m.postDelayed new.address new.delay)
    else if m.thread.fStop then some m
    else some (m.transmit new.address r)

/-- The requests that a callback starts. -/
def sendAll (started : List NewRequest) : Option StunRequestManager :=
  started.foldlM sendDelayed m

/-- mirrors webrtc/p2p/base/stunrequest.cc:175-193 -/
def onMessage (p : Nat) (r : StunRequest) (started : List NewRequest) :
    Option StunRequestManager :=
  if r.timeout then ((m.signal r .onTimeout).sendAll started).map (·.delete p)
  else some (m.transmit p r)

/-- The responses to a request.
mirrors webrtc/p2p/base/stun.cc:867-873 -/
def responseTo (type : UInt16) (msg : StunMessage) : Option Event :=
  if !isStunRequestType type then none
  else if msg.type = type ||| 0x100 then some .onResponse
  else if msg.type = type ||| 0x110 then some .onErrorResponse
  else none

/-- mirrors webrtc/p2p/base/stunrequest.cc:78-96 -/
def checkResponse (msg : StunMessage) (started : List NewRequest) :
    Option (Bool × StunRequestManager) :=
  match m.find? msg.transactionId with
  | none => some (false, m)
  | some (p, r) =>
    match responseTo r.msg.type msg with
    | none => some (false, m)
    | some event => ((m.signal r event).sendAll started).map fun m => (true, m.delete p)

/-- mirrors webrtc/p2p/base/stunrequest.cc:98-121 -/
def checkData (data : Bytes) (started : List NewRequest) : Option (Bool × StunRequestManager) :=
  if data.length < 20 then some (false, m)
  else
    match m.find? ((data.drop 8).take 12) with
    | none => some (false, m)
    | some (_, r) =>
      match StunMessage.read r.cls data with
      | none => some (false, m)
      | some response => m.checkResponse response started

/-- mirrors webrtc/p2p/base/stunrequest.cc:66-76 -/
def clear : StunRequestManager := m.addresses.foldl delete m

/-! ## The thread -/

inductive Label where
  | send (new : NewRequest)
  /-- a pass of `Get`, and `Dispatch` -/
  | pass (msCurrent : Option Nat) (started : List NewRequest)
  | data (data : Bytes) (started : List NewRequest)
  | clear
  /-- what the other handlers do -/
  | create (a : Nat)
  | destroy (a : Nat)
  | post (msg : Message)
  | postAt (tstamp : UInt32) (msg : Message)

/-- `phandler->OnMessage` for what `Get` returned. -/
def dispatch (msg : Message) (started : List NewRequest) : Option StunRequestManager :=
  if msg.messageId = MQID_DISPOSE then some m
  else
    match m.request? msg.phandler with
    | none => some m
    | some r => m.onMessage msg.phandler r started

/-- Only a first pass has the time. -/
def look : Option Nat → MessageQueue
  | none => m.thread
  | some now => m.thread.promote (.ofNat now)

def pass (msCurrent : Option Nat) (started : List NewRequest) : Option StunRequestManager :=
  match (m.look msCurrent).takeFront with
  | none => some { m with thread := m.look msCurrent }
  | some (msg, thread) => ({ m with thread } : StunRequestManager).dispatch msg started

/-- What another handler posts for itself, or an object to dispose of. -/
def isOther (msg : Message) : Bool :=
  msg.phandler = 0 ∧ msg.messageId = MQID_DISPOSE ∨ msg.phandler ∈ m.others

/-- The guards: the clock goes on, a first pass has the time of 12 days ago or less, a handler is
created where there is none and clears its messages when it is destroyed. -/
def step (l : Nat × Label) : Option StunRequestManager :=
  if l.1 < m.time then none
  else
    let m := { m with time := l.1 }
    match l.2 with
    | .send new => m.sendDelayed new
    | .pass msCurrent started =>
      if msCurrent.all fun now => now ≤ m.time ∧ m.time < now + 1073741824 then
        m.pass msCurrent started
      else none
    | .data data started => (m.checkData data started).map (·.2)
    | .clear => some m.clear
    | .create a =>
      if a = 0 ∨ a ∈ m.addresses ∨ a ∈ m.others then none
      else some { m with others := a :: m.others }
    | .destroy a =>
      if a ∈ m.others then
        some { m with others := m.others.filter (· ≠ a), thread := (m.thread.clear a MQID_ANY).2 }
      else none
    | .post msg =>
      if m.isOther msg then some { m with thread := m.thread.post msg } else none
    | .postAt tstamp msg =>
      if m.isOther msg then some { m with thread := m.thread.doDelayPost tstamp msg } else none

/-! ## What becomes of a request -/

/-- What happened to a request, the last first. -/
def trace (n : Nat) : List Entry := m.log.filter (·.serial == n)

end StunRequestManager

/-- How often a request is sent. -/
def Kind.maxSends : Kind → Nat
  | stun => 9
  | connection => 1
  | relay => 5

/-- How long it waits after it was sent `n + 1` times. -/
def Kind.interval : Kind → Nat → Nat
  | stun, n => 100 * min (2 ^ n) 16
  | connection, _ => 5000
  | relay, n => 100 * max (2 ^ n) 2

/-- Sent again and again, in the intervals of the class. -/
inductive Paced (k : Kind) (msg : StunMessage) : List Entry → Prop
  | nil : Paced k msg []
  | send {l : List Entry} {e : Entry} (h : Paced k msg l) (he : e.event = .sendPacket msg)
      (hlt : l.length < k.maxSends)
      (ht : ∀ e', l.head? = some e' → e'.time + k.interval (l.length - 1) ≤ e.time) :
      Paced k msg (e :: l)

/-- With at most one outcome, at the end. -/
inductive Course (k : Kind) (msg : StunMessage) : List Entry → Prop
  | paced {l : List Entry} (h : Paced k msg l) : Course k msg l
  | answered {l : List Entry} {o : Entry} (h : Paced k msg l)
      (ho : o.event = .onResponse ∨ o.event = .onErrorResponse) : Course k msg (o :: l)
  | timedOut {l : List Entry} {o : Entry} (h : Paced k msg l) (ho : o.event = .onTimeout)
      (hl : l.length = k.maxSends)
      (ht : ∀ e, l.head? = some e → e.time + k.interval (l.length - 1) ≤ o.time) :
      Course k msg (o :: l)

/-- The fields of a request that was sent `n` times. -/
structure Counts (r : StunRequest) (n : Nat) : Prop where
  count : r.kind ≠ .connection → r.count = n
  timeout : r.timeout = decide (n = r.kind.maxSends)
  le : n ≤ r.kind.maxSends

/-- A request that is due again at `due`. -/
structure Progress (l : List Entry) (r : StunRequest) (due : Nat) : Prop where
  paced : Paced r.kind r.msg l
  counts : Counts r l.length
  spaced : ∀ e, l.head? = some e → e.time + r.kind.interval (l.length - 1) ≤ due

theorem getNextDelay_spec {r : StunRequest} {n : Nat} (h : Counts r n) (hr : r.timeout = false) :
    r.getNextDelay.1 = r.kind.interval n ∧ Counts r.getNextDelay.2 (n + 1) ∧
      r.getNextDelay.2.kind = r.kind ∧ r.getNextDelay.2.msg = r.msg ∧
      r.getNextDelay.2.serial = r.serial := by
  have hlt : n < r.kind.maxSends := lt_of_le_of_ne h.le (of_decide_eq_false (h.timeout ▸ hr))
  obtain ⟨kind, cls, msg, count, timeout, tstamp, serial⟩ := r
  have hcount := h.count
  dsimp only at hr hcount hlt
  subst hr
  cases kind with
  | stun =>
    obtain rfl := hcount nofun
    refine ⟨?_, ⟨fun _ => rfl, Bool.false_or _, hlt⟩, rfl, rfl, rfl⟩
    rw [StunRequest.getNextDelay, Nat.one_shiftLeft]
    rfl
  | connection =>
    obtain rfl : n = 0 := Nat.lt_one_iff.1 hlt
    exact ⟨rfl, ⟨fun hc => absurd rfl hc, rfl, Nat.le_refl 1⟩, rfl, rfl, rfl⟩
  | relay =>
    obtain rfl := hcount nofun
    refine ⟨?_, ⟨fun _ => rfl, Bool.false_or _, hlt⟩, rfl, rfl, rfl⟩
    rw [StunRequest.getNextDelay, Nat.one_shiftLeft]
    rfl

theorem interval_lt {k : Kind} {n : Nat} (h : n < k.maxSends) : k.interval n < 1073741824 := by
  cases k with
  | stun =>
    have : min (2 ^ n) 16 ≤ 16 := Nat.min_le_right _ _
    change 100 * min (2 ^ n) 16 < _
    omega
  | connection => exact (by decide : 5000 < 1073741824)
  | relay =>
    have hle : 2 ^ n ≤ 2 ^ 5 := Nat.pow_le_pow_right (by decide) h.le
    have : max (2 ^ n) 2 ≤ 32 := Nat.max_le.2 ⟨hle, by decide⟩
    change 100 * max (2 ^ n) 2 < _
    omega

/-! ## Invariant -/

/-- The request at `p` has its timer, which is not far ahead once it was sent. -/
def Live (q : MessageQueue) (now : Nat) (l : List Entry) (p : Nat) (r : StunRequest) : Prop :=
  ∃ due, q.Timer p MSG_STUN_SEND due now ∧ (l ≠ [] → due < now + 1073741824) ∧ Progress l r due

section Live

variable {q q' : MessageQueue} {now now' look p due : Nat} {l : List Entry} {r : StunRequest}

theorem Live.keep (h : Live q now l p r) (hk : q.Keeps q' p) : Live q' now l p r := by
  obtain ⟨due, ht, hdue, hp⟩ := h
  exact ⟨due, ht.keep hk, hdue, hp⟩

theorem Live.mono (h : Live q now l p r) (hle : now ≤ now') : Live q now' l p r := by
  obtain ⟨due, ht, hdue, hp⟩ := h
  exact ⟨due, ht.mono hle, fun hl => (hdue hl).trans_le (Nat.add_le_add_right hle _), hp⟩

/-- Before the first send any time will do. -/
theorem Progress.unsent (h : Progress [] r due) (due' : Nat) : Progress [] r due' :=
  ⟨h.paced, h.counts, nofun⟩

theorem Live.promote (h : Live q now l p r) (hlook : look ≤ now) (hage : now < look + 1073741824) :
    Live (q.promote (.ofNat look)) now l p r := by
  obtain ⟨due, ht, hdue, hp⟩ := h
  by_cases hl : l = []
  · subst hl
    obtain ⟨due', ht'⟩ := ht.exists_promote (.ofNat look)
    exact ⟨due', ht', fun hl => absurd rfl hl, hp.unsent due'⟩
  · have := hdue hl
    exact ⟨due, ht.promote hlook (by omega), hdue, hp⟩

end Live

namespace StunRequestManager

/-- The message is for somebody. -/
def Known (m : StunRequestManager) (msg : Message) : Prop :=
  m.isOther msg = true ∨ msg.phandler ∈ m.addresses

/-- All is well but for the timers of the requests at `out`. -/
structure Sound (m : StunRequestManager) (out : List Nat) : Prop where
  running : m.thread.fStop = false
  noPeek : m.thread.msgPeek = none
  nodup : m.addresses.Nodup
  apart : ∀ p ∈ m.addresses, p ≠ 0 ∧ p ∉ m.others
  others : 0 ∉ m.others
  known : ∀ msg ∈ m.thread.pending, m.Known msg
  serials : (m.requests.map fun e => e.2.serial).Nodup
  created : ∀ e ∈ m.requests, m.created[e.2.serial]? = some (e.2.kind, e.2.msg)
  courses : ∀ n k msg, m.created[n]? = some (k, msg) → Course k msg (m.trace n)
  fresh : ∀ n, m.created.length ≤ n → m.trace n = []
  live : ∀ e ∈ m.requests, e.1 ∉ out → Live m.thread m.time (m.trace e.2.serial) e.1 e.2

variable {m m' : StunRequestManager} {out : List Nat} {p : Nat} {r : StunRequest} {due : Nat}

theorem trace_signal (n : Nat) (r : StunRequest) (event : Event) :
    (m.signal r event).trace n =
      if r.serial = n then ⟨r.serial, m.time, event⟩ :: m.trace n else m.trace n := by
  unfold signal trace
  rw [List.filter_cons]
  by_cases h : r.serial = n
  · simp [h]
  · simp [h]

/-- Only the queue changes. -/
theorem Sound.setThread {out' : List Nat} (hs : m.Sound out) {q : MessageQueue}
    (hrun : q.fStop = false) (hpeek : q.msgPeek = none)
    (hknown : ∀ msg ∈ q.pending, m.Known msg)
    (hkeep : ∀ e ∈ m.requests, e.1 ∉ out' → e.1 ∉ out ∧
      (Live m.thread m.time (m.trace e.2.serial) e.1 e.2 →
        Live q m.time (m.trace e.2.serial) e.1 e.2)) :
    Sound { m with thread := q } out' where
  running := hrun
  noPeek := hpeek
  nodup := hs.nodup
  apart := hs.apart
  others := hs.others
  known := hknown
  serials := hs.serials
  created := hs.created
  courses := hs.courses
  fresh := hs.fresh
  live e he hout := by
    obtain ⟨hin, hk⟩ := hkeep e he hout
    exact hk (hs.live e he hin)

/-- No message is for an address where nothing is. -/
theorem Sound.idle (hs : m.Sound out) (h0 : p ≠ 0) (hp : p ∉ m.addresses) (ho : p ∉ m.others) :
    m.thread.Idle p := by
  have hnone : ∀ msg ∈ m.thread.pending, msg.phandler ≠ p := by
    intro msg hmsg hh
    rcases hs.known msg hmsg with h | h
    · unfold isOther at h
      rw [decide_eq_true_eq, hh] at h
      exact h.elim (fun h => h0 h.1) ho
    · exact hp (hh ▸ h)
  unfold MessageQueue.pending at hnone
  constructor
  · refine List.filter_eq_nil_iff.2 fun msg hmsg hh => hnone msg ?_ (eq_of_beq hh)
    exact List.mem_append_left _ (List.mem_append_right _ hmsg)
  · refine List.filter_eq_nil_iff.2 fun d hd hh => hnone d.msg ?_ (eq_of_beq hh)
    exact List.mem_append_right _ (List.mem_map_of_mem hd)

theorem mem_requests (hs : m.Sound out) (he : (p, r) ∈ m.requests) {e : Nat × StunRequest}
    (he' : e ∈ m.requests) (h : e.1 = p) : e = (p, r) :=
  List.inj_on_of_nodup_map hs.nodup he' he h

theorem serial_ne (hs : m.Sound out) (he : (p, r) ∈ m.requests) {e : Nat × StunRequest}
    (he' : e ∈ m.requests) (h : e.1 ≠ p) : r.serial ≠ e.2.serial := by
  intro hser
  exact h (congrArg Prod.fst (List.inj_on_of_nodup_map hs.serials he' he hser.symm))

theorem Sound.weaken {out' : List Nat} (hs : m.Sound out) (h : out ⊆ out') : m.Sound out' :=
  { hs with live := fun e he hout => hs.live e he fun hin => hout (h hin) }

/-! ## What the operations keep -/

theorem Sound.signal (hs : m.Sound out) (he : (p, r) ∈ m.requests) (hp : p ∈ out) {event : Event}
    (hc : Course r.kind r.msg (⟨r.serial, m.time, event⟩ :: m.trace r.serial)) :
    (m.signal r event).Sound out where
  running := hs.running
  noPeek := hs.noPeek
  nodup := hs.nodup
  apart := hs.apart
  others := hs.others
  known := hs.known
  serials := hs.serials
  created := hs.created
  courses n k msg hn := by
    rw [trace_signal]
    by_cases h : r.serial = n
    · subst h
      have hcreated := (hs.created _ he).symm.trans hn
      cases hcreated
      rw [if_pos rfl]
      exact hc
    · rw [if_neg h]
      exact hs.courses n k msg hn
  fresh n hn := by
    rw [trace_signal, if_neg, hs.fresh n hn]
    rintro rfl
    have hcreated := hs.created _ he
    rw [List.getElem?_eq_none (show m.created.length ≤ r.serial from hn)] at hcreated
    cases hcreated
  live e he' hout := by
    rw [trace_signal, if_neg (serial_ne hs he he' fun h => hout (h ▸ hp))]
    exact hs.live e he' hout

/-- The message for the request is posted. -/
theorem Sound.postDelayed (hs : m.Sound out) (he : (p, r) ∈ m.requests) {delay : Nat}
    (hidle : m.thread.Idle p) (hdelay : m.trace r.serial ≠ [] → delay < 1073741824)
    (hp : Progress (m.trace r.serial) r (m.time + delay)) :
    (m.postDelayed p delay).Sound (out.filter (· ≠ p)) := by
  have hin : p ∈ m.addresses := List.mem_map_of_mem he
  have hposted : (m.postDelayed p delay).Sound (p :: out) := by
    refine hs.setThread ?_ ?_ ?_ ?_
    · unfold MessageQueue.doDelayPost
      split <;> exact hs.running
    · unfold MessageQueue.doDelayPost
      split <;> exact hs.noPeek
    · intro msg hmsg
      rcases List.mem_append.1 (MessageQueue.pending_doDelayPost.mem_iff.1 hmsg) with hmsg | hmsg
      · exact hs.known msg hmsg
      · unfold MessageQueue.accepted at hmsg
        rw [hs.running] at hmsg
        rw [List.mem_singleton.1 hmsg]
        exact .inr hin
    · intro e _ hout
      obtain ⟨hne, hout⟩ := not_or.1 (List.mem_cons.not.1 hout)
      exact ⟨hout, fun hl => hl.keep (MessageQueue.keeps_doDelayPost (Ne.symm hne))⟩
  refine { hposted with live := fun e he' hout => ?_ }
  by_cases hep : e.1 = p
  · rw [mem_requests hs he he' hep]
    exact ⟨m.time + delay, MessageQueue.timer_doDelayPost hidle hs.running rfl,
      fun hl => Nat.add_lt_add_left (hdelay hl) _, hp⟩
  · refine hposted.live e he' fun hc => ?_
    rcases List.mem_cons.1 hc with hc | hc
    · exact hep hc
    · exact hout (List.mem_filter.2 ⟨hc, decide_eq_true hep⟩)

/-- A request changes its fields. -/
theorem Sound.update (hs : m.Sound out) (he : (p, r) ∈ m.requests) (hp : p ∈ out)
    {r' : StunRequest} (hk : r'.kind = r.kind) (hm : r'.msg = r.msg) (hn : r'.serial = r.serial) :
    Sound { m with requests := m.requests.map fun e => if e.1 = p then (p, r') else e } out := by
  have hcopy : ∀ e ∈ m.requests, (if e.1 = p then (p, r') else e).1 = e.1 ∧
      (if e.1 = p then (p, r') else e).2.serial = e.2.serial ∧
      (if e.1 = p then (p, r') else e).2.kind = e.2.kind ∧
      (if e.1 = p then (p, r') else e).2.msg = e.2.msg := by
    intro e he'
    split
    · rename_i hep
      rw [mem_requests hs he he' hep]
      exact ⟨rfl, hn, hk, hm⟩
    · exact ⟨rfl, rfl, rfl, rfl⟩
  have haddr : (m.requests.map fun e => if e.1 = p then (p, r') else e).map Prod.fst =
      m.addresses := by
    rw [List.map_map]
    exact List.map_congr_left fun e he' => (hcopy e he').1
  have hser : (m.requests.map fun e => if e.1 = p then (p, r') else e).map (fun e => e.2.serial) =
      m.requests.map fun e => e.2.serial := by
    rw [List.map_map]
    exact List.map_congr_left fun e he' => (hcopy e he').2.1
  refine ⟨hs.running, hs.noPeek, ?_, ?_, hs.others, ?_, ?_, ?_, hs.courses, hs.fresh, ?_⟩
  · unfold addresses
    rw [haddr]
    exact hs.nodup
  · unfold addresses
    rw [haddr]
    exact hs.apart
  · intro msg hmsg
    unfold Known addresses
    rw [haddr]
    exact hs.known msg hmsg
  · dsimp only
    rw [hser]
    exact hs.serials
  · intro e he'
    obtain ⟨e', hmem, rfl⟩ := List.mem_map.1 he'
    obtain ⟨-, hn, hk, hm⟩ := hcopy e' hmem
    rw [hn, hk, hm]
    exact hs.created e' hmem
  · intro e he' hout
    obtain ⟨e', hmem, rfl⟩ := List.mem_map.1 he'
    split at hout
    · exact absurd hp hout
    · rename_i hne
      rw [if_neg hne]
      exact hs.live e' hmem hout

theorem Sound.transmit (hs : m.Sound out) (he : (p, r) ∈ m.requests) (hp : p ∈ out)
    (hidle : m.thread.Idle p) (hprog : Progress (m.trace r.serial) r due) (hdue : due ≤ m.time)
    (ht : r.timeout = false) : (m.transmit p r).Sound (out.filter (· ≠ p)) := by
  obtain ⟨hpaced, hcounts, hspaced⟩ := hprog
  have hlt : (m.trace r.serial).length < r.kind.maxSends :=
    lt_of_le_of_ne hcounts.le (of_decide_eq_false (hcounts.timeout ▸ ht))
  have hsend : Paced r.kind r.msg (⟨r.serial, m.time, .sendPacket r.msg⟩ :: m.trace r.serial) :=
    .send hpaced rfl hlt fun e he => (hspaced e he).trans hdue
  have hsig := hs.signal he hp (.paced hsend)
  obtain ⟨hdelay, hnext, hk, hm, hn⟩ :=
    getNextDelay_spec (r := { r with tstamp := .ofNat m.time })
      ⟨hcounts.count, hcounts.timeout, hcounts.le⟩ ht
  obtain ⟨r', hr'⟩ : ∃ r', r' = StunRequest.getNextDelay { r with tstamp := .ofNat m.time } :=
    ⟨_, rfl⟩
  rw [← hr'] at hdelay hnext hk hm hn
  have hup := hsig.update he hp hk hm hn
  have htrace : (m.signal r (.sendPacket r.msg)).trace r'.2.serial =
      ⟨r.serial, m.time, .sendPacket r.msg⟩ :: m.trace r.serial := by
    rw [hn, trace_signal, if_pos rfl]
  have hmem : (p, r'.2) ∈ m.requests.map fun e => if e.1 = p then (p, r'.2) else e :=
    List.mem_map.2 ⟨_, he, if_pos rfl⟩
  have hprog : Progress ((m.signal r (.sendPacket r.msg)).trace r'.2.serial) r'.2
      (m.time + r'.1) := by
    rw [htrace]
    refine ⟨by rw [hk, hm]; exact hsend, hnext, fun e he => ?_⟩
    cases he
    rw [hdelay, hk]
    exact Nat.le_refl _
  have hpost := hup.postDelayed hmem hidle (fun _ => hdelay ▸ interval_lt hlt) hprog
  rw [hr'] at hpost
  exact hpost

/-- A request that is in the list and has no timer yet. -/
theorem Sound.append (hs : m.Sound out) {r : StunRequest} (h0 : p ≠ 0) (hp : p ∉ m.addresses)
    (ho : p ∉ m.others) (hr : r.serial = m.created.length) :
    Sound { m with
      requests := m.requests ++ [(p, r)]
      created := m.created ++ [(r.kind, r.msg)] } (p :: out) where
  running := hs.running
  noPeek := hs.noPeek
  nodup := by
    unfold addresses
    rw [List.map_append]
    refine List.nodup_append.2 ⟨hs.nodup, List.nodup_singleton _, fun a ha b hb => ?_⟩
    rw [List.map_singleton, List.mem_singleton] at hb
    rintro rfl
    subst hb
    exact hp ha
  apart a ha := by
    unfold addresses at ha
    rw [List.map_append] at ha
    rcases List.mem_append.1 ha with ha | ha
    · exact hs.apart a ha
    · rw [List.map_singleton, List.mem_singleton] at ha
      subst ha
      exact ⟨h0, ho⟩
  others := hs.others
  known msg hmsg := by
    refine (hs.known msg hmsg).imp_right fun h => ?_
    unfold addresses
    rw [List.map_append]
    exact List.mem_append_left _ h
  serials := by
    rw [List.map_append]
    refine List.nodup_append.2 ⟨hs.serials, List.nodup_singleton _, fun a ha b hb => ?_⟩
    rw [List.map_singleton, List.mem_singleton] at hb
    rintro rfl
    obtain ⟨e, he, rfl⟩ := List.mem_map.1 ha
    have hc := hs.created e he
    rw [hb, hr, List.getElem?_eq_none (Nat.le_refl _)] at hc
    cases hc
  created e he := by
    rcases List.mem_append.1 he with he | he
    · have hc := hs.created e he
      obtain ⟨hlt, -⟩ := List.getElem?_eq_some_iff.1 hc
      exact (List.getElem?_append_left hlt).trans hc
    · rw [List.mem_singleton.1 he]
      dsimp only
      rw [hr, List.getElem?_append_right (Nat.le_refl _), Nat.sub_self]
      rfl
  courses n k msg hn := by
    by_cases hlt : n < m.created.length
    · rw [List.getElem?_append_left hlt] at hn
      exact hs.courses n k msg hn
    · have hnil : m.trace n = [] := hs.fresh n (Nat.not_lt.1 hlt)
      change Course k msg (m.trace n)
      rw [hnil]
      exact .paced .nil
  fresh n hn := by
    rw [List.length_append] at hn
    exact hs.fresh n (Nat.le_of_add_right_le hn)
  live e he hout := by
    obtain ⟨hne, hout⟩ := not_or.1 (List.mem_cons.not.1 hout)
    rcases List.mem_append.1 he with he | he
    · exact hs.live e he hout
    · rw [List.mem_singleton.1 he] at hne
      exact absurd rfl hne

theorem Sound.sendDelayed (hs : m.Sound out) {new : NewRequest}
    (h : m.sendDelayed new = some m') : m'.Sound out ∧ m'.time = m.time := by
  unfold StunRequestManager.sendDelayed at h
  obtain ⟨hguard, h⟩ := Option.ite_none_left_eq_some.1 h
  obtain ⟨h0, hp, ho, -⟩ : new.address ≠ 0 ∧ new.address ∉ m.addresses ∧
      new.address ∉ m.others ∧ ¬(m.find? new.msg.transactionId).isSome := by
    simpa only [not_or] using hguard
  have hidle := hs.idle h0 hp ho
  obtain ⟨r, hr⟩ : ∃ r : StunRequest, r =
      { kind := new.kind, cls := new.cls, msg := new.msg, serial := m.created.length } := ⟨_, rfl⟩
  have hserial : r.serial = m.created.length := by rw [hr]
  have happ := hs.append h0 hp ho hserial
  have hmem : (new.address, r) ∈ m.requests ++ [(new.address, r)] :=
    List.mem_append_right _ (List.mem_singleton.2 rfl)
  have hnil : m.trace r.serial = [] := hs.fresh _ (le_of_eq hserial.symm)
  have hprog (due : Nat) : Progress (m.trace r.serial) r due := by
    rw [hnil]
    refine ⟨.nil, ⟨fun _ => by rw [hr]; rfl, ?_, Nat.zero_le _⟩, nofun⟩
    rw [hr]
    cases new.kind <;> rfl
  have hout : (new.address :: out).filter (· ≠ new.address) ⊆ out := by
    rw [List.filter_cons_of_neg (by simp)]
    exact fun a ha => (List.mem_filter.1 ha).1
  dsimp only at h
  rw [← hr, show new.kind = r.kind by rw [hr], show new.msg = r.msg by rw [hr]] at h
  split at h
  · cases h
    exact ⟨(happ.postDelayed hmem hidle (fun hl => absurd hnil hl) (hprog _)).weaken hout, rfl⟩
  · rw [if_neg (by rw [hs.running]; exact Bool.false_ne_true)] at h
    cases h
    have ht : r.timeout = false := by rw [hr]
    exact ⟨(happ.transmit hmem List.mem_cons_self hidle (hprog _) (Nat.le_refl _) ht).weaken hout,
      rfl⟩

theorem Sound.sendAll (hs : m.Sound out) {started : List NewRequest}
    (h : m.sendAll started = some m') : m'.Sound out ∧ m'.time = m.time := by
  unfold StunRequestManager.sendAll at h
  induction started generalizing m with
  | nil =>
    cases h
    exact ⟨hs, rfl⟩
  | cons new started ih =>
    rw [List.foldlM_cons] at h
    obtain ⟨m₁, h1, h2⟩ := Option.bind_eq_some_iff.1 h
    obtain ⟨hs₁, ht₁⟩ := hs.sendDelayed h1
    obtain ⟨hs₂, ht₂⟩ := ih hs₁ h2
    exact ⟨hs₂, ht₂.trans ht₁⟩

theorem Sound.delete (hs : m.Sound out) (h0 : p ≠ 0) :
    (m.delete p).Sound (out.filter (· ≠ p)) where
  running := hs.running
  noPeek := by
    unfold StunRequestManager.delete MessageQueue.clear
    dsimp only
    rw [hs.noPeek]
    rfl
  nodup := hs.nodup.sublist (List.filter_sublist.map _)
  apart a ha := hs.apart a ((List.filter_sublist.map _).subset ha)
  others := hs.others
  known msg hmsg := by
    change msg ∈ (m.thread.clear p MQID_ANY).2.pending at hmsg
    rw [MessageQueue.pending_clear.2, List.mem_filter] at hmsg
    refine (hs.known msg hmsg.1).imp_right fun h => ?_
    obtain ⟨e, he, hep⟩ := List.mem_map.1 h
    refine List.mem_map.2 ⟨e, List.mem_filter.2 ⟨he, decide_eq_true fun h => ?_⟩, hep⟩
    have hmatch := hmsg.2
    unfold Message.isMatch at hmatch
    rw [← hep, h] at hmatch
    simp at hmatch
  serials := hs.serials.sublist (List.filter_sublist.map _)
  created e he := hs.created e (List.mem_filter.1 he).1
  courses := hs.courses
  fresh := hs.fresh
  live e he hout := by
    obtain ⟨he, hne⟩ := List.mem_filter.1 he
    have hne : e.1 ≠ p := of_decide_eq_true hne
    exact (hs.live e he fun hin => hout (List.mem_filter.2 ⟨hin, decide_eq_true hne⟩)).keep
      (MessageQueue.keeps_clear h0 (Ne.symm hne))

theorem filter_self (p : Nat) : [p].filter (· ≠ p) = [] := by
  simp

theorem Sound.onMessage (hs : m.Sound [p]) (he : (p, r) ∈ m.requests) (hidle : m.thread.Idle p)
    (hprog : Progress (m.trace r.serial) r due) (hdue : due ≤ m.time) {started : List NewRequest}
    (h : m.onMessage p r started = some m') : m'.Sound [] := by
  unfold StunRequestManager.onMessage at h
  split at h
  · rename_i ht
    obtain ⟨m₁, h1, rfl⟩ := Option.map_eq_some_iff.1 h
    have hlen : (m.trace r.serial).length = r.kind.maxSends :=
      of_decide_eq_true (hprog.counts.timeout ▸ ht)
    have hcourse : Course r.kind r.msg (⟨r.serial, m.time, .onTimeout⟩ :: m.trace r.serial) :=
      .timedOut hprog.paced rfl hlen fun e he => (hprog.spaced e he).trans hdue
    have hsig := hs.signal he (List.mem_singleton.2 rfl) hcourse
    have h0 := (hs.apart p (List.mem_map_of_mem he)).1
    exact filter_self p ▸ (hsig.sendAll h1).1.delete h0
  · rename_i ht
    cases h
    exact filter_self p ▸ hs.transmit he (List.mem_singleton.2 rfl) hidle hprog hdue
      (Bool.eq_false_iff.2 ht)

theorem mem_of_request? (h : m.request? p = some r) : (p, r) ∈ m.requests := by
  obtain ⟨e, hfind, rfl⟩ := Option.map_eq_some_iff.1 h
  have hp : e.1 = p := by simpa using List.find?_some hfind
  exact hp ▸ List.mem_of_find?_eq_some hfind

theorem Sound.look (hs : m.Sound []) {msCurrent : Option Nat}
    (hlook : ∀ now ∈ msCurrent, now ≤ m.time ∧ m.time < now + 1073741824) :
    Sound { m with thread := m.look msCurrent } [] := by
  cases msCurrent with
  | none => exact hs
  | some now =>
    obtain ⟨hle, hlt⟩ := hlook now rfl
    refine hs.setThread hs.running hs.noPeek (fun msg hmsg => hs.known msg ?_) fun e _ hout =>
      ⟨hout, fun hl => hl.promote hle hlt⟩
    exact MessageQueue.pending_promote (q := m.thread) ▸ hmsg

/-- A message leaves the queue; if it is for a request, the timer of that was due. -/
theorem Sound.takeFront (hs : m.Sound []) {msg : Message} {q : MessageQueue}
    (h : m.thread.takeFront = some (msg, q)) :
    m.Known msg ∧ Sound { m with thread := q } [msg.phandler] ∧
      ∀ r, (msg.phandler, r) ∈ m.requests → msg.messageId = MSG_STUN_SEND ∧
        q.Idle msg.phandler ∧ ∃ due ≤ m.time, Progress (m.trace r.serial) r due := by
  have hpending := MessageQueue.pending_takeFront h
  have hknown : m.Known msg := hs.known msg (hpending.mem_iff.2 List.mem_cons_self)
  refine ⟨hknown, ?_, fun r hr => ?_⟩
  · have hstop : q.fStop = m.thread.fStop ∧ q.msgPeek = m.thread.msgPeek := by
      unfold MessageQueue.takeFront at h
      split at h
      · cases h
      · cases h
        exact ⟨rfl, rfl⟩
    refine hs.setThread (hstop.1.trans hs.running) (hstop.2.trans hs.noPeek)
      (fun a ha => hs.known a (hpending.mem_iff.2 (List.mem_cons_of_mem msg ha))) ?_
    intro e _ hout
    refine ⟨List.not_mem_nil, fun hl => hl.keep (MessageQueue.keeps_takeFront h ?_)⟩
    exact fun hc => hout (List.mem_singleton.2 hc.symm)
  · obtain ⟨due, ht, -, hprog⟩ := hs.live _ hr List.not_mem_nil
    obtain ⟨hid, hdue, hidle⟩ := ht.taken h rfl
    exact ⟨hid, hidle, due, hdue, hprog⟩

theorem Sound.pass (hs : m.Sound []) {msCurrent : Option Nat}
    (hlook : ∀ now ∈ msCurrent, now ≤ m.time ∧ m.time < now + 1073741824)
    {started : List NewRequest} (h : m.pass msCurrent started = some m') : m'.Sound [] := by
  have hs := hs.look hlook
  unfold StunRequestManager.pass at h
  split at h
  · cases h
    exact hs
  · rename_i msg q htake
    obtain ⟨hknown, hs', htimer⟩ := hs.takeFront htake
    -- where no request is at the address, all timers are as they were
    have hnone (hno : ∀ r, (msg.phandler, r) ∉ m.requests) : Sound { m with thread := q } [] := by
      refine { hs' with live := fun e he _ => hs'.live e he fun hc => ?_ }
      rw [List.mem_singleton] at hc
      exact hno e.2 (hc ▸ he)
    unfold dispatch at h
    split at h
    · rename_i hdispose
      cases h
      refine hnone fun r hr => ?_
      rw [(htimer r hr).1] at hdispose
      exact absurd hdispose (by decide)
    · split at h
      · rename_i hfind
        cases h
        refine hnone fun r hr => ?_
        have hfind := List.find?_eq_none.1 (Option.map_eq_none_iff.1 hfind) _ hr
        simp at hfind
      · rename_i r hfind
        have hr := mem_of_request? hfind
        obtain ⟨-, hidle, due, hdue, hprog⟩ := htimer r hr
        exact hs'.onMessage hr hidle hprog hdue h

theorem Sound.checkResponse (hs : m.Sound []) {msg : StunMessage} {started : List NewRequest}
    {b : Bool} (h : m.checkResponse msg started = some (b, m')) : m'.Sound [] := by
  unfold StunRequestManager.checkResponse at h
  split at h
  · cases h
    exact hs
  · rename_i p r hfind
    have hr : (p, r) ∈ m.requests := List.mem_of_find?_eq_some hfind
    split at h
    · cases h
      exact hs
    · rename_i event hevent
      obtain ⟨m₁, h1, heq⟩ := Option.map_eq_some_iff.1 h
      cases heq
      have ho : event = .onResponse ∨ event = .onErrorResponse := by
        unfold responseTo at hevent
        split at hevent
        · cases hevent
        · split at hevent
          · cases hevent
            exact .inl rfl
          · split at hevent
            · cases hevent
              exact .inr rfl
            · cases hevent
      obtain ⟨due, -, -, hprog⟩ := hs.live _ hr List.not_mem_nil
      have hcourse : Course r.kind r.msg (⟨r.serial, m.time, event⟩ :: m.trace r.serial) :=
        .answered hprog.paced ho
      have hsig := (hs.weaken (List.nil_subset [p])).signal hr (List.mem_singleton.2 rfl) hcourse
      exact filter_self p ▸ (hsig.sendAll h1).1.delete (hs.apart p (List.mem_map_of_mem hr)).1

theorem Sound.checkData (hs : m.Sound []) {data : Bytes} {started : List NewRequest}
    {b : Bool} (h : m.checkData data started = some (b, m')) : m'.Sound [] := by
  unfold StunRequestManager.checkData at h
  split at h
  · cases h
    exact hs
  · split at h
    · cases h
      exact hs
    · split at h
      · cases h
        exact hs
      · exact hs.checkResponse h

theorem Sound.clear (hs : m.Sound []) : m.clear.Sound [] := by
  unfold StunRequestManager.clear
  have hne : ∀ p ∈ m.addresses, p ≠ 0 := fun p hp => (hs.apart p hp).1
  generalize m.addresses = ps at hne
  induction ps generalizing m with
  | nil => exact hs
  | cons p ps ih =>
    rw [List.foldl_cons]
    exact ih (hs.delete (hne p List.mem_cons_self)) fun a ha => hne a (List.mem_cons_of_mem p ha)

theorem Sound.tick (hs : m.Sound []) {t : Nat} (h : m.time ≤ t) : Sound { m with time := t } [] where
  running := hs.running
  noPeek := hs.noPeek
  nodup := hs.nodup
  apart := hs.apart
  others := hs.others
  known := hs.known
  serials := hs.serials
  created := hs.created
  courses := hs.courses
  fresh := hs.fresh
  live e he hout := (hs.live e he hout).mono h

theorem Sound.create (hs : m.Sound []) {a : Nat} (h0 : a ≠ 0) (ha : a ∉ m.addresses) :
    Sound { m with others := a :: m.others } [] where
  running := hs.running
  noPeek := hs.noPeek
  nodup := hs.nodup
  apart p hp := by
    obtain ⟨hp0, hpo⟩ := hs.apart p hp
    refine ⟨hp0, fun hc => ?_⟩
    rcases List.mem_cons.1 hc with rfl | hc
    · exact ha hp
    · exact hpo hc
  others hc := by
    rcases List.mem_cons.1 hc with hc | hc
    · exact h0 hc.symm
    · exact hs.others hc
  known msg hmsg := by
    refine (hs.known msg hmsg).imp_left fun h => ?_
    unfold isOther at h ⊢
    rw [decide_eq_true_eq] at h ⊢
    exact h.imp_right (List.mem_cons_of_mem a)
  serials := hs.serials
  created := hs.created
  courses := hs.courses
  fresh := hs.fresh
  live := hs.live

theorem Sound.destroy (hs : m.Sound []) {a : Nat} (ha : a ∈ m.others) :
    Sound { m with
      others := m.others.filter (· ≠ a)
      thread := (m.thread.clear a MQID_ANY).2 } [] where
  running := hs.running
  noPeek := by
    unfold MessageQueue.clear
    dsimp only
    rw [hs.noPeek]
    rfl
  nodup := hs.nodup
  apart p hp := (hs.apart p hp).imp_right fun h hc => h (List.mem_filter.1 hc).1
  others hc := hs.others (List.mem_filter.1 hc).1
  known msg hmsg := by
    dsimp only at hmsg
    rw [MessageQueue.pending_clear.2, List.mem_filter] at hmsg
    refine (hs.known msg hmsg.1).imp_left fun h => ?_
    unfold isOther at h ⊢
    rw [decide_eq_true_eq] at h ⊢
    refine h.imp_right fun h => List.mem_filter.2 ⟨h, decide_eq_true fun hc => ?_⟩
    have hmatch := hmsg.2
    unfold Message.isMatch at hmatch
    rw [hc] at hmatch
    simp at hmatch
  serials := hs.serials
  created := hs.created
  courses := hs.courses
  fresh := hs.fresh
  live e he hout := by
    have hne : a ≠ e.1 := fun h => (hs.apart e.1 (List.mem_map_of_mem he)).2 (h ▸ ha)
    have h0 : a ≠ 0 := fun h => hs.others (h ▸ ha)
    exact (hs.live e he hout).keep (MessageQueue.keeps_clear h0 hne)

/-- A message of somebody else is not for a request. -/
theorem Sound.other (hs : m.Sound []) {msg : Message} (h : m.isOther msg = true)
    {e : Nat × StunRequest} (he : e ∈ m.requests) : msg.phandler ≠ e.1 := by
  obtain ⟨h0, ho⟩ := hs.apart e.1 (List.mem_map_of_mem he)
  unfold isOther at h
  rw [decide_eq_true_eq] at h
  rintro hc
  rw [hc] at h
  exact h.elim (fun h => h0 h.1) ho

theorem mem_accepted {q : MessageQueue} {msg a : Message} (h : a ∈ q.accepted msg) : a = msg := by
  unfold MessageQueue.accepted at h
  split at h
  · cases h
  · exact List.mem_singleton.1 h

theorem Sound.post (hs : m.Sound []) {msg : Message} (h : m.isOther msg = true) :
    Sound { m with thread := m.thread.post msg } [] := by
  refine hs.setThread ?_ ?_ (fun a ha => ?_) fun e he hout =>
    ⟨hout, fun hl => hl.keep (MessageQueue.keeps_post (hs.other h he))⟩
  · unfold MessageQueue.post
    split <;> exact hs.running
  · unfold MessageQueue.post
    split <;> exact hs.noPeek
  · rcases List.mem_append.1 (MessageQueue.pending_post.mem_iff.1 ha) with ha | ha
    · exact hs.known a ha
    · exact mem_accepted ha ▸ .inl h

theorem Sound.postAt (hs : m.Sound []) {msg : Message} (h : m.isOther msg = true)
    (tstamp : UInt32) : Sound { m with thread := m.thread.doDelayPost tstamp msg } [] := by
  refine hs.setThread ?_ ?_ (fun a ha => ?_) fun e he hout =>
    ⟨hout, fun hl => hl.keep (MessageQueue.keeps_doDelayPost (hs.other h he))⟩
  · unfold MessageQueue.doDelayPost
    split <;> exact hs.running
  · unfold MessageQueue.doDelayPost
    split <;> exact hs.noPeek
  · rcases List.mem_append.1 (MessageQueue.pending_doDelayPost.mem_iff.1 ha) with ha | ha
    · exact hs.known a ha
    · exact mem_accepted ha ▸ .inl h

theorem Sound.step (hs : m.Sound []) {l : Nat × Label} (h : m.step l = some m') : m'.Sound [] := by
  obtain ⟨t, label⟩ := l
  unfold StunRequestManager.step at h
  obtain ⟨ht, h⟩ := Option.ite_none_left_eq_some.1 h
  have hs := hs.tick (Nat.not_lt.1 ht)
  dsimp only at h
  cases label with
  | send new => exact (hs.sendDelayed h).1
  | pass msCurrent started =>
    obtain ⟨hlook, h⟩ := Option.ite_none_right_eq_some.1 h
    refine hs.pass (fun now hnow => ?_) h
    rw [Option.mem_def.1 hnow] at hlook
    simpa using hlook
  | data data started =>
    obtain ⟨⟨b, m₁⟩, hdata, rfl⟩ := Option.map_eq_some_iff.1 h
    exact hs.checkData hdata
  | clear =>
    cases h
    exact hs.clear
  | create a =>
    obtain ⟨hguard, h⟩ := Option.ite_none_left_eq_some.1 h
    obtain ⟨h0, ha, -⟩ := by simpa only [not_or] using hguard
    cases h
    exact hs.create h0 ha
  | destroy a =>
    obtain ⟨ha, h⟩ := Option.ite_none_right_eq_some.1 h
    cases h
    exact hs.destroy ha
  | post msg =>
    obtain ⟨hother, h⟩ := Option.ite_none_right_eq_some.1 h
    cases h
    exact hs.post hother
  | postAt tstamp msg =>
    obtain ⟨hother, h⟩ := Option.ite_none_right_eq_some.1 h
    cases h
    exact hs.postAt hother tstamp

end StunRequestManager

/-- The thread from the start, with labels at times. -/
def threads : LTS StunRequestManager (Nat × StunRequestManager.Label) :=
  .ofFn (· = {}) StunRequestManager.step

theorem threads_sound : threads.Inductive fun m => m.Sound [] where
  init := by
    rintro m rfl
    exact ⟨rfl, rfl, .nil, nofun, nofun, nofun, .nil, nofun, nofun, fun _ _ => rfl, nofun⟩
  step _ _ _ hs h := hs.step h

/-- The messages in a queue for a handler that has a timer. -/
theorem pending_of_timer {q : MessageQueue} {p due now : Nat} (hpeek : q.msgPeek = none)
    (h : q.Timer p MSG_STUN_SEND due now) :
    ∃ msg, q.pending.filter (·.phandler == p) = [msg] ∧ msg.messageId = MSG_STUN_SEND := by
  have hsplit : q.pending.filter (·.phandler == p) =
      q.readyFor p ++ (q.delayedFor p).map (·.msg) := by
    unfold MessageQueue.pending MessageQueue.readyFor MessageQueue.delayedFor
    rw [hpeek, Option.toList_none, List.nil_append, List.filter_append, List.filter_map]
    rfl
  rw [hsplit]
  cases h with
  | delayed d hd hr hid _ => exact ⟨d.msg, by rw [hd, hr]; rfl, hid⟩
  | ready msg hr hd hid _ => exact ⟨msg, by rw [hd, hr]; rfl, hid⟩

/-- Whatever happens on the thread: each message of its queue is to be disposed of or for a handler
that is there, each request has exactly one, and what happened to a request so far is a course of
its class. -/
theorem requests_sound {m : StunRequestManager} (hr : threads.Reachable m) :
    (∀ msg ∈ m.thread.pending, msg.phandler = 0 ∧ msg.messageId = MQID_DISPOSE ∨
      msg.phandler ∈ m.others ∨ ∃ r, (msg.phandler, r) ∈ m.requests) ∧
    (∀ e ∈ m.requests, ∃ msg, m.thread.pending.filter (·.phandler == e.1) = [msg] ∧
      msg.messageId = MSG_STUN_SEND) ∧
    (∀ e ∈ m.requests, m.created[e.2.serial]? = some (e.2.kind, e.2.msg) ∧
      Paced e.2.kind e.2.msg (m.trace e.2.serial)) ∧
    ∀ n k msg, m.created[n]? = some (k, msg) → Course k msg (m.trace n) := by
  have hs := threads_sound.reachable m hr
  refine ⟨fun msg hmsg => ?_, fun e he => ?_, fun e he => ⟨hs.created e he, ?_⟩, hs.courses⟩
  · rcases hs.known msg hmsg with h | h
    · unfold StunRequestManager.isOther at h
      rw [decide_eq_true_eq] at h
      exact h.imp_right .inl
    · obtain ⟨⟨p, r⟩, he, hp⟩ := List.mem_map.1 h
      exact .inr (.inr ⟨r, hp ▸ he⟩)
  · obtain ⟨due, ht, -, -⟩ := hs.live e he List.not_mem_nil
    exact pending_of_timer hs.noPeek ht
  · obtain ⟨due, -, -, hp⟩ := hs.live e he List.not_mem_nil
    exact hp.paced

/-- A binding request that is sent twice before the response comes. -/
def exchange : List (Nat × StunRequestManager.Label) :=
  let msg : StunMessage := { type := 1, transactionId := List.replicate 12 97 }
  [(5, .send { address := 16, kind := .stun, cls := .stun, msg, delay := 0 }),
    (105, .pass (some 105) []),
    (150, .data ([1, 1, 0, 0, 0x21, 0x12, 0xA4, 0x42] ++ List.replicate 12 97) [])]

theorem requests_sound_exchange :
    ∃ m, exchange.foldlM StunRequestManager.step {} = some m ∧ m.thread.pending = [] ∧
      (m.trace 0).map (fun e => (e.time, e.event == .onResponse)) =
        [(150, true), (105, false), (5, false)] ∧
      ∀ n k msg, m.created[n]? = some (k, msg) → Course k msg (m.trace n) := by
  have hfold : exchange.foldlM StunRequestManager.step {} = some _ := rfl
  exact ⟨_, hfold, rfl, rfl, (requests_sound ⟨{}, exchange, rfl, LTS.Run.of_foldlM hfold⟩).2.2.2⟩

end RtcCore.L4.StunRequests
