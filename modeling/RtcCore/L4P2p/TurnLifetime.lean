import RtcCore.L4P2p.TurnCoverage

/-!
# How long an allocation lives

Every success response with a LIFETIME promises the client that the allocation
will be there until it has elapsed. A refresh takes the timer back and sets
it again; a retransmitted allocate request is handled like the first one and
posts a second timer, which it is for the earlier of the two to end the
allocation, whatever the last response has promised.

`Lease` is a server with the promises of its responses.

Results:
* `onInternalPacket_timed`: what one packet does to the timers.
* `lifetime_kept`: in every run without a retransmission that is handled, an
  allocation has one timer, due when the last promise ends, and goes then.
-/
namespace RtcCore.L4.Turn

open Bytes L1.Stun

/-! ## Promises -/

namespace Output

/-- The LIFETIME of a success response. -/
def lifetime? : Output → Option Nat
  | stun m _ =>
    if m.type &&& 0x0110 = 0x0100 then (m.getUInt32 attrLifetime).map UInt32.toNat else none
  | _ => none

end Output

def announced (out : List Output) : Option Nat := out.findSome? Output.lifetime?

/-- A server with the ends of the lifetimes it has announced, the last one first. -/
structure Lease where
  state : ServerAt := {}
  promises : List (Connection × Nat) := []
  deriving DecidableEq

namespace Lease

variable (env : Env) (s : Lease)

/-- What the responses of an event promise. -/
def promised : ServerEvent → List (Connection × Nat)
  | .packet conn data external =>
    match announced (s.state.server.onInternalPacket env s.state.now conn data external).out with
    | some seconds => [(conn, s.state.now + seconds * 1000)]
    | none => []
  | _ => []

def next (ev : ServerEvent) : Option Lease :=
  (s.state.next env ev).map fun state => { state, promises := s.promised env ev ++ s.promises }

def lease : LTS Lease ServerEvent := .ofFn (fun s => s.state.server = {} ∧ s.promises = []) (next env)

/-- When the lifetime of the last response is over. -/
def promise? (conn : Connection) : Option Nat :=
  (s.promises.find? fun p => p.1 == conn).map Prod.snd

/-- A retransmitted allocate request that gets through to the allocation.
mirrors webrtc/p2p/base/turnserver.cc:216-277 -/
structure Retransmission (conn : Connection) (data : Bytes) (msg : StunMessage) (a : Allocation) :
    Prop where
  stun : kTurnChannelHeaderSize ≤ data.length ∧ isTurnChannelData (rd16 data 0) = false
  read : StunMessage.read .turn data = some msg
  type : msg.type = stunAllocateRequest
  notRedirected : env.redirectHook conn.src = none
  authorized : ∃ s', s.state.server.checkAuthorization env s.state.now conn msg data
    (s.state.server.lookUpKey env conn msg) = .ok s'
  found : s.state.server.findAllocation conn = some a
  transactionId : msg.transactionId = a.transactionId
  username : msg.getByteString attrUsername = some a.username

/-- The event is no such request. -/
def NotRetransmitted (ev : ServerEvent) : Prop :=
  ∀ conn data external msg a, ev = .packet conn data external → ¬ s.Retransmission env conn data msg a

/-- An allocation goes when the lifetime of the last response is over, then and
not before, and has one timer until then. -/
structure LifetimeKept : Prop where
  onePending : ∀ a ∈ s.state.server.allocations, a.timers.length ≤ 1
  running : ∀ a ∈ s.state.server.allocations, ∃ d, s.promise? a.conn = some d ∧ s.state.now ≤ d
  notBefore : ∀ ev s', s.next env ev = some s' → ∀ a ∈ s.state.server.allocations,
    (∀ b ∈ s'.state.server.allocations, b.conn ≠ a.conn) → s.promise? a.conn = some s.state.now
  notAfter : ∀ a ∈ s.state.server.allocations, s.promise? a.conn = some s.state.now →
    (∀ t, s.next env (.tick t) = none) ∧ ∃ s', s.next env (.allocationTimeout a.conn) = some s' ∧
      ∀ b ∈ s'.state.server.allocations, b.conn ≠ a.conn

end Lease

/-! ## What a response announces -/

variable {env : Env} {now : Nat} {a : Allocation} {s : Server} {conn : Connection}
  {msg : StunMessage} {data key : Bytes} {external : Option SocketAddress}

theorem or_and_mask (t c m : UInt16) : (t ||| c) &&& m = t &&& m ||| c &&& m := by
  apply UInt16.toBitVec_inj.1
  ext i hi
  simp [Bool.and_or_distrib_right]

theorem success_type {t : UInt16} (h : isStunRequestType t = true) :
    (t ||| 0x0100) &&& 0x0110 = 0x0100 := by
  rw [or_and_mask, eq_of_beq h]
  decide

theorem error_type (t : UInt16) : (t ||| 0x0110) &&& 0x0110 = 0x0110 := by
  rw [or_and_mask, UInt16.and_self]
  apply UInt16.toBitVec_inj.1
  ext i hi
  simp only [UInt16.toBitVec_or, UInt16.toBitVec_and, BitVec.getElem_or, BitVec.getElem_and]
  cases t.toBitVec[i] <;> simp

theorem announced_error (code : Nat) (reason : String) (attrs : List StunAttribute) :
    announced [sendErrorResponse env msg code reason attrs] = none := by
  have hlifetime : (sendErrorResponse env msg code reason attrs).lifetime? = none := by
    unfold sendErrorResponse
    split
    · simp only [sendStun, Output.lifetime?, error_type]
      rfl
    · exact if_neg (c := (0 : UInt16) &&& 0x0110 = 0x0100) (by decide)
  simp [announced, hlifetime]

/-- `SOFTWARE` does not hide the lifetime. -/
theorem announced_response (hreq : isStunRequestType msg.type = true) (attrs : List StunAttribute)
    (k : Option Bytes) :
    announced [sendResponse env msg attrs k] =
      (({ attrs } : StunMessage).getUInt32 attrLifetime).map UInt32.toNat := by
  have hsoftware : (if env.software = [] then []
      else [StunAttribute.byteString attrSoftware env.software]).find?
        (·.type == attrLifetime) = none := by
    split
    · rfl
    · rfl
  have hattrs : (attrs ++ if env.software = [] then []
      else [StunAttribute.byteString attrSoftware env.software]).find? (·.type == attrLifetime) =
        attrs.find? (·.type == attrLifetime) := by
    rw [List.find?_append, hsoftware, Option.or_none]
  have hlifetime : (sendResponse env msg attrs k).lifetime? =
      (({ attrs } : StunMessage).getUInt32 attrLifetime).map UInt32.toNat := by
    simp only [sendResponse, sendStun, Output.lifetime?, success_type hreq, if_true,
      StunMessage.getUInt32, StunMessage.getAttribute, hattrs]
  rw [announced, List.findSome?_cons, hlifetime]
  cases ({ attrs } : StunMessage).getUInt32 attrLifetime with
  | none => rfl
  | some v => rfl

theorem computeLifetime_toNat (msg : StunMessage) :
    (UInt32.ofNat (Allocation.computeLifetime msg)).toNat = Allocation.computeLifetime msg := by
  have hle : Allocation.computeLifetime msg ≤ kDefaultAllocationTimeout / 1000 := by
    unfold Allocation.computeLifetime
    dsimp only
    cases msg.getUInt32 attrLifetime with
    | none => exact Nat.le_refl _
    | some v =>
      dsimp only
      split
      · omega
      · exact Nat.le_refl _
  have hten : kDefaultAllocationTimeout / 1000 = 600 := rfl
  rw [UInt32.toNat_ofNat']
  omega

theorem announced_seconds (hreq : isStunRequestType msg.type = true) (attrs : List StunAttribute)
    (k : Option Bytes) (hattrs : ({ attrs } : StunMessage).getUInt32 attrLifetime =
      some (.ofNat (Allocation.computeLifetime msg))) :
    announced [sendResponse env msg attrs k] = some (Allocation.computeLifetime msg) := by
  rw [announced_response hreq, hattrs, Option.map_some, computeLifetime_toNat]

/-! ## The handlers of an allocation -/

theorem handleAllocateRequest_timers (hreq : isStunRequestType msg.type = true) :
    ∃ seconds, announced (a.handleAllocateRequest env now msg).out = some seconds ∧
      (a.handleAllocateRequest env now msg).state.timers = a.timers ++ [now + seconds * 1000] :=
  ⟨_, announced_seconds hreq _ _ rfl, rfl⟩

theorem handleRefreshRequest_timers (hreq : isStunRequestType msg.type = true) :
    ∃ seconds, announced (a.handleRefreshRequest env now msg).out = some seconds ∧
      (a.handleRefreshRequest env now msg).state.timers = [now + seconds * 1000] :=
  ⟨_, announced_seconds hreq _ _ rfl, rfl⟩

theorem handleSendIndication_timers :
    announced (a.handleSendIndication msg).out = none ∧
      (a.handleSendIndication msg).state.timers = a.timers := by
  unfold Allocation.handleSendIndication
  split
  · dsimp only
    split
    · exact ⟨rfl, rfl⟩
    · exact ⟨rfl, rfl⟩
  · exact ⟨rfl, rfl⟩

theorem addPermission_timers (ip : IPAddress) : (a.addPermission now ip).timers = a.timers := by
  unfold Allocation.addPermission
  split <;> rfl

theorem bindChannel_timers (id : Nat) (peer : SocketAddress) (i : Option Nat) :
    (a.bindChannel now id peer i).timers = a.timers := by
  cases i <;> rfl

theorem handleCreatePermissionRequest_timers (hreq : isStunRequestType msg.type = true) :
    announced (a.handleCreatePermissionRequest env now msg).out = none ∧
      (a.handleCreatePermissionRequest env now msg).state.timers = a.timers := by
  unfold Allocation.handleCreatePermissionRequest
  split
  · exact ⟨announced_error _ _ _, rfl⟩
  · exact ⟨announced_response hreq _ _, addPermission_timers _⟩

theorem handleChannelBindRequest_timers (hreq : isStunRequestType msg.type = true) :
    announced (a.handleChannelBindRequest env now msg).out = none ∧
      (a.handleChannelBindRequest env now msg).state.timers = a.timers := by
  unfold Allocation.handleChannelBindRequest
  split
  · dsimp only
    split
    · exact ⟨announced_error _ _ _, rfl⟩
    · split
      · exact ⟨announced_error _ _ _, rfl⟩
      · refine ⟨announced_response hreq _ _, ?_⟩
        rw [addPermission_timers, bindChannel_timers]
  · exact ⟨announced_error _ _ _, rfl⟩

/-- What is no allocate request leaves the timers alone or sets one for the lifetime it announces. -/
theorem handleTurnMessage_timers (hne : msg.type ≠ stunAllocateRequest) :
    (announced (a.handleTurnMessage env now msg).out = none ∧
        (a.handleTurnMessage env now msg).state.timers = a.timers) ∨
      ∃ seconds, announced (a.handleTurnMessage env now msg).out = some seconds ∧
        (a.handleTurnMessage env now msg).state.timers = [now + seconds * 1000] := by
  have hreq {type : UInt16} (h : msg.type = type) (ht : isStunRequestType type = true) :
      isStunRequestType msg.type = true := by rw [h, ht]
  unfold Allocation.handleTurnMessage
  rw [if_neg hne]
  split
  · rename_i h
    exact .inr (handleRefreshRequest_timers (hreq h (by decide)))
  · split
    · exact .inl handleSendIndication_timers
    · split
      · rename_i h
        exact .inl (handleCreatePermissionRequest_timers (hreq h (by decide)))
      · split
        · rename_i h
          exact .inl (handleChannelBindRequest_timers (hreq h (by decide)))
        · exact .inl ⟨rfl, rfl⟩

/-! ## The handlers of a server -/

/-- After a packet of a client the allocations that were there still are; and if `ok` the one of
the client has the timer its response announces, and no timer is new if it announces none. -/
structure Timed (ok : Prop) (now : Nat) (conn : Connection) (s : Server) (r : Done Server) :
    Prop where
  survive : ∀ a ∈ s.allocations, ∃ b ∈ r.state.allocations, b.conn = a.conn
  timers : ok → ∀ b ∈ r.state.allocations,
    (∃ seconds, announced r.out = some seconds ∧ b.conn = conn ∧
        b.timers = [now + seconds * 1000]) ∨
      ((announced r.out = none ∨ b.conn ≠ conn) ∧
        ∃ a ∈ s.allocations, a.conn = b.conn ∧ a.timers = b.timers)

variable {ok : Prop}

theorem timed_unchanged {out : List Output} {grants : List Grant} (h : announced out = none) :
    Timed ok now conn s { state := s, out, grants } where
  survive a ha := ⟨a, ha, rfl⟩
  timers _ b hb := .inr ⟨.inl h, b, hb, rfl, rfl⟩

theorem survive_put (s : Server) (c : Allocation) :
    ∀ a ∈ s.allocations, ∃ b ∈ (s.put c).allocations, b.conn = a.conn := by
  intro a ha
  refine ⟨_, List.mem_map_of_mem ha, ?_⟩
  split
  · rename_i h
    exact h.symm
  · rfl

/-- The allocation of the client after a handler of it. -/
theorem timed_put {r : Done Allocation} (hfound : s.findAllocation conn = some a)
    (hconn : r.state.conn = a.conn)
    (h : ok → (announced r.out = none ∧ r.state.timers = a.timers) ∨
      ∃ seconds, announced r.out = some seconds ∧ r.state.timers = [now + seconds * 1000]) :
    Timed ok now conn s { state := s.put r.state, out := r.out, grants := r.grants } where
  survive := survive_put s r.state
  timers hok b hb := by
    obtain ⟨ha, haconn⟩ := Server.findAllocation_mem hfound
    rcases Server.mem_put hb with rfl | ⟨hb, hne⟩
    · rcases h hok with ⟨hquiet, hsame⟩ | ⟨seconds, hann, htimers⟩
      · exact .inr ⟨.inl hquiet, a, ha, hconn.symm, hsame.symm⟩
      · exact .inl ⟨seconds, hann, hconn.trans haconn, htimers⟩
    · rw [hconn, haconn] at hne
      exact .inr ⟨.inr hne, b, hb, rfl, rfl⟩

/-- A new allocation. -/
theorem timed_new {r : Done Allocation} {seconds : Nat} (hnone : s.findAllocation conn = none)
    (hconn : r.state.conn = conn) (hann : announced r.out = some seconds)
    (htimers : r.state.timers = [now + seconds * 1000]) :
    Timed ok now conn s
      { state := ⟨s.allocations ++ [r.state]⟩, out := r.out, grants := r.grants } where
  survive a ha := ⟨a, List.mem_append_left _ ha, rfl⟩
  timers _ b hb := by
    rcases List.mem_append.1 hb with hb | hb
    · have hne : b.conn ≠ conn := by
        simpa using List.find?_eq_none.1 hnone b hb
      exact .inr ⟨.inr hne, b, hb, rfl, rfl⟩
    · rw [List.mem_singleton] at hb
      subst hb
      exact .inl ⟨seconds, hann, hconn, htimers⟩

/-- The nonce an authorized request leaves in the allocation is no matter. -/
theorem Timed.of_checked {s' : Server} {r : Done Server}
    (hs' : (s.findAllocation conn = none ∧ s' = s) ∨
      ∃ a nonce, s.findAllocation conn = some a ∧ s' = s.put { a with lastNonce := nonce })
    (h : Timed ok now conn s' r) : Timed ok now conn s r := by
  rcases hs' with ⟨-, rfl⟩ | ⟨a, nonce, hfound, rfl⟩
  · exact h
  · obtain ⟨ha, haconn⟩ := Server.findAllocation_mem hfound
    constructor
    · intro c hc
      obtain ⟨b, hb, hbc⟩ := survive_put s { a with lastNonce := nonce } c hc
      obtain ⟨d, hd, hdb⟩ := h.survive b hb
      exact ⟨d, hd, hdb.trans hbc⟩
    · intro hok b hb
      refine (h.timers hok b hb).imp id fun ⟨hann, c, hc, hconn, htimers⟩ => ⟨hann, ?_⟩
      rcases Server.mem_put hc with rfl | ⟨hc, -⟩
      · exact ⟨a, ha, hconn, htimers⟩
      · exact ⟨c, hc, hconn, htimers⟩

namespace Server

/-- The message is a retransmission the allocation of the client handles. -/
def Handled (s : Server) (conn : Connection) (msg : StunMessage) (a : Allocation) : Prop :=
  msg.type = stunAllocateRequest ∧ s.findAllocation conn = some a ∧
    msg.transactionId = a.transactionId ∧ msg.getByteString attrUsername = some a.username

theorem handleAllocateRequest_timed (hnone : s.findAllocation conn = none)
    (htype : msg.type = stunAllocateRequest) :
    Timed ok now conn s (s.handleAllocateRequest env now conn msg key external) := by
  have hreq : isStunRequestType msg.type = true := by
    rw [htype]
    decide
  unfold handleAllocateRequest
  split
  · exact timed_unchanged (announced_error _ _ _)
  · dsimp only
    split
    · exact timed_unchanged (announced_error _ _ _)
    · split
      · exact timed_unchanged (announced_error _ _ _)
      · rename_i address
        have hhandler : ({ conn, external := address, key } : Allocation).handleTurnMessage env now msg =
            ({ conn, external := address, key } : Allocation).handleAllocateRequest env now msg := by
          rw [Allocation.handleTurnMessage, if_pos htype]
        obtain ⟨seconds, hann, htimers⟩ : ∃ seconds,
            announced (({ conn, external := address, key } : Allocation).handleAllocateRequest
              env now msg).out = some seconds ∧
            (({ conn, external := address, key } : Allocation).handleAllocateRequest
              env now msg).state.timers = [now + seconds * 1000] :=
          handleAllocateRequest_timers hreq
        rw [hhandler]
        exact timed_new hnone rfl hann htimers

theorem dispatch_timed (h : ok → ∀ a, ¬ s.Handled conn msg a) :
    Timed ok now conn s (s.dispatch env now conn msg key external) := by
  unfold dispatch
  split
  · rename_i hnone
    split
    · rename_i htype
      exact handleAllocateRequest_timed hnone htype
    · exact timed_unchanged (announced_error _ _ _)
  · rename_i a hfound
    split
    · rename_i hcase
      split
      · exact timed_unchanged (announced_error _ _ _)
      · rename_i hright
        have hne : ok → msg.type ≠ stunAllocateRequest := by
          intro hok htype
          have hid := hcase.resolve_left (not_not_intro htype)
          have huser : msg.getByteString attrUsername = some a.username := by
            by_contra hc
            refine hright ⟨?_, hc⟩
            rw [htype]
            decide
          exact h hok a ⟨htype, hfound, hid, huser⟩
        exact timed_put hfound (handleTurnMessage_identity env now a msg).1
          fun hok => handleTurnMessage_timers (hne hok)
    · exact timed_unchanged (announced_error _ _ _)

theorem handleStunMessage_timed (hread : StunMessage.read .turn data = some msg)
    (h : ok → ∀ a, s.Handled conn msg a → env.redirectHook conn.src = none →
      ∀ s', s.checkAuthorization env now conn msg data (s.lookUpKey env conn msg) ≠ .ok s') :
    Timed ok now conn s (s.handleStunMessage env now conn data external) := by
  unfold handleStunMessage
  rw [hread]
  dsimp only
  split
  · rename_i hbinding
    refine timed_unchanged (announced_response ?_ _ _)
    rw [hbinding]
    decide
  · split
    · exact timed_unchanged (announced_error _ _ _)
    · rename_i hredirect
      split
      · split
        · rename_i o herror
          obtain ⟨code, reason, attrs, rfl⟩ := checkAuthorization_error herror
          exact timed_unchanged (announced_error code reason attrs)
        · rename_i s' hauth
          obtain ⟨-, -, -, -, hs'⟩ := checkAuthorization_ok hauth
          refine Timed.of_checked hs' (dispatch_timed fun hok a' ha' => ?_)
          -- the allocation that answers differs from the one found before only in its nonce
          have ha : ∃ a, s.Handled conn msg a := by
            obtain ⟨htype, hfound', hid, huser⟩ := ha'
            rcases hs' with ⟨hnone, rfl⟩ | ⟨a, nonce, hfound, rfl⟩
            · rw [hnone] at hfound'
              cases hfound'
            · have haconn := (findAllocation_mem hfound).2
              have hput : (s.put { a with lastNonce := nonce }).findAllocation conn =
                  some { a with lastNonce := nonce } := by
                subst haconn
                exact findAllocation_put (a := { a with lastNonce := nonce }) hfound
              rw [hput] at hfound'
              cases hfound'
              exact ⟨a, htype, hfound, hid, huser⟩
          obtain ⟨a, ha⟩ := ha
          rw [if_pos ha.1] at hredirect
          exact h hok a ha hredirect s' hauth
      · rename_i hreq
        refine dispatch_timed fun _ a ha => hreq ?_
        rw [ha.1]
        decide

/-- What one packet does to the timers. -/
theorem onInternalPacket_timed
    (h : ok → ∀ msg, kTurnChannelHeaderSize ≤ data.length ∧ isTurnChannelData (rd16 data 0) = false →
      StunMessage.read .turn data = some msg → ∀ a, s.Handled conn msg a →
        env.redirectHook conn.src = none → ∀ s',
          s.checkAuthorization env now conn msg data (s.lookUpKey env conn msg) ≠ .ok s') :
    Timed ok now conn s (s.onInternalPacket env now conn data external) := by
  unfold onInternalPacket
  split
  · exact timed_unchanged rfl
  · rename_i hsize
    split
    · rename_i hstun
      cases hread : StunMessage.read .turn data with
      | none =>
        simp only [handleStunMessage, hread]
        exact timed_unchanged rfl
      | some msg =>
        exact handleStunMessage_timed hread fun hok =>
          h hok msg ⟨Nat.not_lt.1 hsize, by simpa using hstun⟩ hread
    · split
      · refine timed_unchanged ?_
        unfold Allocation.handleChannelData
        split <;> rfl
      · exact timed_unchanged rfl

end Server

/-! ## Runs -/

namespace Lease

/-- The one timer of an allocation is due when its lifetime is over, and that is to come. -/
def Honest (s : Lease) : Prop :=
  ∀ a ∈ s.state.server.allocations, ∃ d,
    s.promise? a.conn = some d ∧ a.timers = [d] ∧ s.state.now ≤ d

variable {s s' : Lease} {ev : ServerEvent}

theorem packet_timed :
    Timed (s.NotRetransmitted env (.packet conn data external)) s.state.now conn s.state.server
      (s.state.server.onInternalPacket env s.state.now conn data external) :=
  Server.onInternalPacket_timed fun hok msg hstun hread a ⟨htype, hfound, hid, huser⟩ hredirect s'
    hauth => hok conn data external msg a rfl
      ⟨hstun, hread, htype, hredirect, ⟨s', hauth⟩, hfound, hid, huser⟩

/-- Allocations that are left, with the timers and the promises they had. -/
theorem Honest.sub (h : s.Honest) (hnow : s'.state.now = s.state.now)
    (hpromises : s'.promises = s.promises)
    (hsub : ∀ b ∈ s'.state.server.allocations, ∃ a ∈ s.state.server.allocations,
      a.conn = b.conn ∧ a.timers = b.timers) : s'.Honest := by
  intro b hb
  obtain ⟨a, ha, hconn, htimers⟩ := hsub b hb
  obtain ⟨d, hd, htimer, hle⟩ := h a ha
  refine ⟨d, ?_, htimers ▸ htimer, by omega⟩
  rw [← hd, promise?, promise?, hpromises, hconn]

/-- After a put of an allocation with the timers of the one before. -/
theorem put_sub {server : Server} (hfound : server.findAllocation conn = some a) {c : Allocation}
    (hconn : c.conn = a.conn) (htimers : c.timers = a.timers) :
    ∀ b ∈ (server.put c).allocations, ∃ a ∈ server.allocations,
      a.conn = b.conn ∧ a.timers = b.timers := by
  intro b hb
  rcases Server.mem_put hb with rfl | ⟨hb, -⟩
  · exact ⟨a, (Server.findAllocation_mem hfound).1, hconn.symm, htimers.symm⟩
  · exact ⟨b, hb, rfl, rfl⟩

theorem mem_dues {server : ServerAt} (ha : a ∈ server.server.allocations) {d : Nat}
    (hd : d ∈ a.timers) : d ∈ server.dues :=
  List.mem_flatMap.2 ⟨a, ha, List.mem_append_right _ hd⟩

theorem honest_next (h : s.Honest) (hn : s.NotRetransmitted env ev) (hs : s.next env ev = some s') :
    s'.Honest := by
  obtain ⟨t, ht, rfl⟩ := Option.map_eq_some_iff.1 hs
  cases ev with
  | packet conn data external =>
    cases ht
    intro b hb
    rcases packet_timed.timers hn b hb with ⟨seconds, hann, hconn, htimers⟩ |
        ⟨hann, a, ha, hconn, htimers⟩
    · refine ⟨_, ?_, htimers, Nat.le_add_right _ _⟩
      simp [promise?, promised, hann, hconn]
    · obtain ⟨d, hd, htimer, hle⟩ := h a ha
      refine ⟨d, ?_, htimers ▸ htimer, hle⟩
      rw [← hd, ← hconn]
      unfold promise? promised
      rcases hann with hann | hne
      · simp [hann]
      · have hother : (conn == a.conn) = false := beq_false_of_ne fun hc => hne (by rw [hc, hconn])
        dsimp only
        split
        · simp [hother]
        · rfl
  | peerPacket conn addr data =>
    cases ht
    exact h.sub rfl rfl fun b hb => ⟨b, hb, rfl, rfl⟩
  | permissionTimeout conn i =>
    obtain ⟨a, ha, ht⟩ := Option.bind_eq_some_iff.1 ht
    obtain ⟨p, hp, ht⟩ := Option.bind_eq_some_iff.1 ht
    split at ht
    · cases ht
      exact h.sub rfl rfl (put_sub ha rfl rfl)
    · cases ht
  | channelTimeout conn i =>
    obtain ⟨a, ha, ht⟩ := Option.bind_eq_some_iff.1 ht
    obtain ⟨c, hc, ht⟩ := Option.bind_eq_some_iff.1 ht
    split at ht
    · cases ht
      exact h.sub rfl rfl (put_sub ha rfl rfl)
    · cases ht
  | allocationTimeout conn =>
    obtain ⟨a, ha, ht⟩ := Option.bind_eq_some_iff.1 ht
    split at ht
    · cases ht
      exact h.sub rfl rfl fun b hb => ⟨b, (List.mem_filter.1 hb).1, rfl, rfl⟩
    · cases ht
  | tick now =>
    simp only [ServerAt.next] at ht
    split at ht
    · rename_i hdues
      cases ht
      intro a ha
      obtain ⟨d, hd, htimer, -⟩ := h a ha
      refine ⟨d, hd, htimer, ?_⟩
      exact of_decide_eq_true (List.all_eq_true.1 hdues.2 d (mem_dues ha (by rw [htimer]; simp)))
    · cases ht

/-- Only its timeout takes an allocation away. -/
theorem gone (hs : s.next env ev = some s') (ha : a ∈ s.state.server.allocations)
    (hgone : ∀ b ∈ s'.state.server.allocations, b.conn ≠ a.conn) :
    ∃ b ∈ s.state.server.allocations, b.conn = a.conn ∧ s.state.now ∈ b.timers := by
  obtain ⟨t, ht, rfl⟩ := Option.map_eq_some_iff.1 hs
  have hput {server : Server} {c : Allocation} (hc : server = s.state.server.put c)
      (hall : ∀ b ∈ server.allocations, b.conn ≠ a.conn) : False := by
    subst hc
    obtain ⟨b, hb, hconn⟩ := survive_put _ c a ha
    exact hall b hb hconn
  cases ev with
  | packet conn data external =>
    cases ht
    obtain ⟨b, hb, hconn⟩ : ∃ b ∈ (s.state.server.onInternalPacket env s.state.now conn data
        external).state.allocations, b.conn = a.conn := packet_timed.survive a ha
    exact absurd hconn (hgone b hb)
  | peerPacket conn addr data =>
    cases ht
    exact absurd rfl (hgone a ha)
  | permissionTimeout conn i =>
    obtain ⟨c, hc, ht⟩ := Option.bind_eq_some_iff.1 ht
    obtain ⟨p, hp, ht⟩ := Option.bind_eq_some_iff.1 ht
    split at ht
    · cases ht
      exact (hput rfl hgone).elim
    · cases ht
  | channelTimeout conn i =>
    obtain ⟨c, hc, ht⟩ := Option.bind_eq_some_iff.1 ht
    obtain ⟨p, hp, ht⟩ := Option.bind_eq_some_iff.1 ht
    split at ht
    · cases ht
      exact (hput rfl hgone).elim
    · cases ht
  | allocationTimeout conn =>
    obtain ⟨c, hc, ht⟩ := Option.bind_eq_some_iff.1 ht
    split at ht
    · rename_i hdue
      cases ht
      obtain ⟨hmem, hconn⟩ := Server.findAllocation_mem hc
      refine ⟨c, hmem, ?_, hdue⟩
      by_contra hne
      refine hgone a (List.mem_filter.2 ⟨ha, ?_⟩) rfl
      exact decide_eq_true fun hc => hne (hconn.trans hc.symm)
    · cases ht
  | tick now =>
    simp only [ServerAt.next] at ht
    split at ht
    · cases ht
      exact absurd rfl (hgone a ha)
    · cases ht

theorem Honest.notAfter (h : s.Honest) (ha : a ∈ s.state.server.allocations)
    (hover : s.promise? a.conn = some s.state.now) :
    (∀ t, s.next env (.tick t) = none) ∧ ∃ s', s.next env (.allocationTimeout a.conn) = some s' ∧
      ∀ b ∈ s'.state.server.allocations, b.conn ≠ a.conn := by
  have hdue {b : Allocation} (hb : b ∈ s.state.server.allocations) (hconn : b.conn = a.conn) :
      s.state.now ∈ b.timers := by
    obtain ⟨d, hd, htimer, -⟩ := h b hb
    rw [hconn, hover] at hd
    cases hd
    simp [htimer]
  constructor
  · intro t
    have hstuck : ¬(s.state.now < t ∧ s.state.dues.all (t ≤ ·)) := by
      rintro ⟨hlt, hall⟩
      have hle := of_decide_eq_true (List.all_eq_true.1 hall _ (mem_dues ha (hdue ha rfl)))
      omega
    rw [next, ServerAt.next, if_neg hstuck, Option.map_none]
  · obtain ⟨b, hb⟩ : ∃ b, s.state.server.findAllocation a.conn = some b :=
      Option.isSome_iff_exists.1 (List.find?_isSome.2 ⟨a, ha, by simp⟩)
    obtain ⟨hmem, hconn⟩ := Server.findAllocation_mem hb
    simp only [next, ServerAt.next, hb, Option.bind_eq_bind, Option.bind_some,
      if_pos (hdue hmem hconn), Option.map_some, Option.some.injEq]
    refine ⟨_, rfl, fun c hc => ?_⟩
    exact of_decide_eq_true (List.mem_filter.1 hc).2

theorem Honest.lifetimeKept (h : s.Honest) : s.LifetimeKept env where
  onePending a ha := by
    obtain ⟨d, -, htimer, -⟩ := h a ha
    simp [htimer]
  running a ha := by
    obtain ⟨d, hd, -, hle⟩ := h a ha
    exact ⟨d, hd, hle⟩
  notBefore ev s' hs a ha hgone := by
    obtain ⟨b, hb, hconn, hdue⟩ := gone hs ha hgone
    obtain ⟨d, hd, htimer, -⟩ := h b hb
    rw [htimer, List.mem_singleton] at hdue
    rw [← hconn, hd, hdue]
  notAfter a ha hover := h.notAfter ha hover

theorem lease_inductive (env : Env) :
    ((lease env).within (NotRetransmitted env)).Inductive Honest where
  init s h := by
    intro a ha
    rw [h.1] at ha
    cases ha
  step _ _ _ h hs := honest_next h hs.1 hs.2

/-- In every run without a handled retransmission. -/
theorem lifetime_kept (hr : ((lease env).within (NotRetransmitted env)).Reachable s) :
    s.LifetimeKept env :=
  ((lease_inductive env).reachable s hr).lifetimeKept

/-! ## A retransmission -/

/-- One more timer for the lifetime it announces. -/
theorem retransmission_timers (h : s.Retransmission env conn data msg a) :
    ∃ b seconds,
      (s.state.server.onInternalPacket env s.state.now conn data external).state.findAllocation
        conn = some b ∧ b.timers = a.timers ++ [s.state.now + seconds * 1000] := by
  obtain ⟨s', hauth⟩ := h.authorized
  obtain ⟨-, -, -, -, hs'⟩ := Server.checkAuthorization_ok hauth
  obtain ⟨hmem, haconn⟩ := Server.findAllocation_mem h.found
  obtain ⟨nonce, hfound⟩ : ∃ nonce, s'.findAllocation conn = some { a with lastNonce := nonce } := by
    rcases hs' with ⟨hnone, -⟩ | ⟨c, nonce, hc, rfl⟩
    · rw [h.found] at hnone
      cases hnone
    · rw [h.found] at hc
      cases hc
      subst haconn
      exact ⟨nonce, Server.findAllocation_put (a := { a with lastNonce := nonce }) h.found⟩
  have hreq : isStunRequestType msg.type = true := by
    rw [h.type]
    decide
  have hbinding : msg.type ≠ stunBindingRequest := by
    rw [h.type]
    decide
  obtain ⟨seconds, -, htimers⟩ : ∃ seconds, _ ∧
      ((({ a with lastNonce := nonce } : Allocation).handleAllocateRequest env s.state.now
        msg).state.timers = a.timers ++ [s.state.now + seconds * 1000]) :=
    handleAllocateRequest_timers hreq
  have hdispatch : (s'.dispatch env s.state.now conn msg (s.state.server.lookUpKey env conn msg)
      external).state = s'.put
        (({ a with lastNonce := nonce } : Allocation).handleAllocateRequest env s.state.now msg).state := by
    simp [Server.dispatch, hfound, h.transactionId, h.username, h.type, Allocation.handleTurnMessage]
  have hpacket : (s.state.server.onInternalPacket env s.state.now conn data external).state =
      s'.put (({ a with lastNonce := nonce } : Allocation).handleAllocateRequest env s.state.now
        msg).state := by
    rw [← hdispatch, Server.onInternalPacket, if_neg (Nat.not_lt.2 h.stun.1), h.stun.2]
    simp only [Bool.not_false, if_true, Server.handleStunMessage, h.read, if_neg hbinding,
      if_pos h.type, h.notRedirected, hreq, hauth]
  refine ⟨_, seconds, ?_, htimers⟩
  rw [hpacket]
  have hconn : (({ a with lastNonce := nonce } : Allocation).handleAllocateRequest env s.state.now
      msg).state.conn = conn := haconn
  have hput := @Server.findAllocation_put s' (({ a with lastNonce := nonce } :
    Allocation).handleAllocateRequest env s.state.now msg).state { a with lastNonce := nonce }
  rw [hconn] at hput
  exact hput hfound

/-- And so not one timer any more. -/
theorem retransmission_breaks (hs : s.Honest) (h : s.Retransmission env conn data msg a)
    (hnext : s.next env (.packet conn data external) = some s') : ¬ s'.LifetimeKept env := by
  obtain ⟨t, ht, rfl⟩ := Option.map_eq_some_iff.1 hnext
  cases ht
  intro hkept
  obtain ⟨d, -, htimer, -⟩ := hs a (Server.findAllocation_mem h.found).1
  obtain ⟨b, seconds, hb, htimers⟩ : ∃ b seconds,
      (s.state.server.onInternalPacket env s.state.now conn data external).state.findAllocation
        conn = some b ∧ b.timers = a.timers ++ [s.state.now + seconds * 1000] :=
    retransmission_timers h
  have hone := hkept.onePending b (Server.findAllocation_mem hb).1
  rw [htimers, htimer] at hone
  exact absurd hone (by simp)

/-! ## An allocation cut short -/

open ServerAt

/-- A refresh with a LIFETIME of thirty seconds. -/
def refresh : ServerEvent :=
  .packet userConn (request 0x0004 (be16 0x000D ++ be16 4 ++ be32 30) []) none

def refreshedEvents : List ServerEvent := [allocate, .tick 60000, refresh, .tick 90000]

set_option maxRecDepth 4000 in
theorem refreshedEvents_run : (refreshedEvents.foldlM (next zeroEnv) {}).isSome = true := by
  decide

def refreshed : Lease := (refreshedEvents.foldlM (next zeroEnv) {}).get refreshedEvents_run

theorem notRetransmitted_first (data : Bytes) (external : Option SocketAddress) :
    ({} : Lease).NotRetransmitted env (.packet conn data external) :=
  fun _ _ _ _ _ _ h => nomatch h.found

theorem notRetransmitted_tick (t : Nat) (s : Lease) : s.NotRetransmitted env (.tick t) :=
  fun _ _ _ _ _ h => nomatch h

theorem notRetransmitted_type {data : Bytes} {external : Option SocketAddress}
    (htype : ((StunMessage.read .turn data).all fun msg => msg.type != stunAllocateRequest) = true)
    (s : Lease) : s.NotRetransmitted env (.packet conn data external) := by
  rintro _ _ _ msg a ⟨⟩ h
  rw [h.read, Option.all_some, bne_iff_ne] at htype
  exact htype h.type

set_option maxRecDepth 4000 in
/-- The refresh brings the end forward. -/
theorem refreshed_lifetime_kept :
    ((lease zeroEnv).within (NotRetransmitted zeroEnv)).Reachable refreshed ∧
      refreshed.promise? userConn = some 90000 ∧ refreshed.LifetimeKept zeroEnv := by
  have hr : ((lease zeroEnv).within (NotRetransmitted zeroEnv)).Reachable refreshed := by
    have hrun : (lease zeroEnv).Run {} refreshedEvents refreshed :=
      LTS.Run.of_foldlM (Option.some_get refreshedEvents_run).symm
    rcases hrun with _ | ⟨hfirst, hrest⟩
    refine ⟨{}, refreshedEvents, ⟨rfl, rfl⟩,
      .cons ⟨notRetransmitted_first _ _, hfirst⟩ (hrest.keep fun s ev hev => ?_)⟩
    have hrefresh : s.NotRetransmitted zeroEnv refresh := notRetransmitted_type (by decide) s
    simp only [List.mem_cons, List.not_mem_nil, or_false] at hev
    rcases hev with rfl | rfl | rfl
    · exact notRetransmitted_tick 60000 s
    · exact hrefresh
    · exact notRetransmitted_tick 90000 s
  exact ⟨hr, by decide, lifetime_kept hr⟩

/-- The allocate request comes again after a minute. -/
def retransmittedEvents : List ServerEvent := [allocate, .tick 60000, allocate, .tick 600000]

set_option maxRecDepth 4000 in
theorem retransmittedEvents_run : (retransmittedEvents.foldlM (next zeroEnv) {}).isSome = true := by
  decide

def retransmitted : Lease :=
  (retransmittedEvents.foldlM (next zeroEnv) {}).get retransmittedEvents_run

set_option maxRecDepth 4000 in
/-- The allocation is gone within ten minutes of the first response, nine after the last. -/
theorem lifetime_cut_short :
    (lease zeroEnv).Reachable retransmitted ∧ retransmitted.promise? userConn = some 660000 ∧
      retransmitted.state.now = 600000 ∧
      (retransmitted.next zeroEnv (.allocationTimeout userConn)).isSome = true ∧
      ¬ retransmitted.LifetimeKept zeroEnv := by
  refine ⟨⟨{}, retransmittedEvents, ⟨rfl, rfl⟩,
    LTS.Run.of_foldlM (Option.some_get retransmittedEvents_run).symm⟩, by decide,
    by decide, by decide, fun h => ?_⟩
  have htwo : (retransmitted.state.server.allocations.all fun a => a.timers.length == 2) = true := by
    decide
  have hone : retransmitted.state.server.allocations ≠ [] := by decide
  obtain ⟨a, ha⟩ := List.exists_mem_of_ne_nil _ hone
  have hle := h.onePending a ha
  have heq := eq_of_beq (List.all_eq_true.1 htwo a ha)
  omega

end Lease

end RtcCore.L4.Turn
