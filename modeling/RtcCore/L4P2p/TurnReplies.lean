import RtcCore.L4P2p.TurnAuthorization

/-!
# What a packet is answered with

Every exit of the handlers builds its reply from the message it answers, and
none answers a message that is no request, but for one: a message of a client
without an allocation goes to `SendErrorResponse` whatever its type is, and what
`InitErrorResponse` refuses to fill in is sent all the same.

Results:
* `handleTurnMessage_matches`: what an allocation answers a message with.
* `onInternalPacket_matches_iff`: the replies to a packet match it, exactly
  unless it is a message of such a client that is no request.
-/
namespace RtcCore.L4.Turn

open Bytes L1.Stun

namespace Output

def isStun : Output → Bool
  | stun .. | dataIndication .. => true
  | toPeer .. | channelMessage .. => false

end Output

/-- A success or an error response to a message.
mirrors webrtc/p2p/base/stun.cc:867-873 -/
structure Answers (msg reply : StunMessage) : Prop where
  type : reply.type = msg.type ||| 0x0100 ∨ reply.type = msg.type ||| 0x0110
  transactionId : reply.transactionId = msg.transactionId

/-- At most one STUN message is sent, and only in answer to a request that was received. -/
structure Matches (received : Option StunMessage) (out : List Output) : Prop where
  atMostOne : (out.filter Output.isStun).length ≤ 1
  answers : ∀ o ∈ out, o.isStun = true → ∃ msg reply key,
    received = some msg ∧ isStunRequestType msg.type = true ∧ o = .stun reply key ∧ Answers msg reply

/-- A message of a client without an allocation that is no request. -/
structure StrayMessage (s : Server) (conn : Connection) (data : Bytes) (msg : StunMessage) :
    Prop where
  stun : kTurnChannelHeaderSize ≤ data.length ∧ isTurnChannelData (rd16 data 0) = false
  read : StunMessage.read .turn data = some msg
  noRequest : isStunRequestType msg.type = false
  unallocated : s.findAllocation conn = none

variable {env : Env} {now : Nat} {a : Allocation} {s : Server} {conn : Connection}
  {msg : StunMessage} {data key : Bytes} {external : Option SocketAddress} {out : List Output}

/-! ## Lists of outputs -/

theorem matches_quiet {received : Option StunMessage} (h : ∀ o ∈ out, o.isStun = false) :
    Matches received out where
  atMostOne := by
    rw [List.filter_eq_nil_iff.2 fun o ho => by simp [h o ho]]
    exact Nat.zero_le _
  answers o ho hstun := by
    rw [h o ho] at hstun
    cases hstun

theorem matches_nil {received : Option StunMessage} : Matches received [] :=
  matches_quiet fun _ ho => (nomatch ho)

theorem matches_one {reply : StunMessage} {k : Option Bytes}
    (hreq : isStunRequestType msg.type = true) (h : Answers msg reply) :
    Matches (some msg) [.stun reply k] where
  atMostOne := Nat.le_refl 1
  answers o ho _ := by
    rw [List.mem_singleton] at ho
    exact ⟨msg, reply, k, rfl, hreq, ho, h⟩

theorem sendResponse_matches (hreq : isStunRequestType msg.type = true)
    (attrs : List StunAttribute) (k : Option Bytes) :
    Matches (some msg) [sendResponse env msg attrs k] :=
  matches_one hreq ⟨.inl rfl, rfl⟩

theorem sendErrorResponse_matches (hreq : isStunRequestType msg.type = true) (code : Nat)
    (reason : String) (attrs : List StunAttribute) :
    Matches (some msg) [sendErrorResponse env msg code reason attrs] := by
  rw [sendErrorResponse, if_pos hreq]
  exact matches_one hreq ⟨.inr rfl, rfl⟩

/-! ## The handlers of an allocation -/

theorem handleSendIndication_quiet : ∀ o ∈ (a.handleSendIndication msg).out, o.isStun = false := by
  intro o ho
  unfold Allocation.handleSendIndication at ho
  split at ho
  · dsimp only at ho
    split at ho
    · rw [List.mem_singleton.1 ho]
      rfl
    · cases ho
  · cases ho

theorem handleCreatePermissionRequest_matches (hreq : isStunRequestType msg.type = true) :
    Matches (some msg) (a.handleCreatePermissionRequest env now msg).out := by
  unfold Allocation.handleCreatePermissionRequest
  split
  · exact sendErrorResponse_matches hreq _ _ _
  · exact sendResponse_matches hreq _ _

theorem handleChannelBindRequest_matches (hreq : isStunRequestType msg.type = true) :
    Matches (some msg) (a.handleChannelBindRequest env now msg).out := by
  unfold Allocation.handleChannelBindRequest
  split
  · dsimp only
    split
    · exact sendErrorResponse_matches hreq _ _ _
    · split
      · exact sendErrorResponse_matches hreq _ _ _
      · exact sendResponse_matches hreq _ _
  · exact sendErrorResponse_matches hreq _ _ _

/-- The types with a handler are those of requests, but for the send indication. -/
theorem handleTurnMessage_matches (env : Env) (now : Nat) (a : Allocation) (msg : StunMessage) :
    Matches (some msg) (a.handleTurnMessage env now msg).out := by
  have hreq {type : UInt16} (h : msg.type = type) (ht : isStunRequestType type = true) :
      isStunRequestType msg.type = true := by rw [h, ht]
  unfold Allocation.handleTurnMessage
  split
  · rename_i h
    exact sendResponse_matches (hreq h (by decide)) _ _
  · split
    · rename_i h
      exact sendResponse_matches (hreq h (by decide)) _ _
    · split
      · exact matches_quiet handleSendIndication_quiet
      · split
        · rename_i h
          exact handleCreatePermissionRequest_matches (hreq h (by decide))
        · split
          · rename_i h
            exact handleChannelBindRequest_matches (hreq h (by decide))
          · exact matches_nil

/-! ## The server -/

namespace Server

theorem handleAllocateRequest_matches (hreq : isStunRequestType msg.type = true) :
    Matches (some msg) (s.handleAllocateRequest env now conn msg key external).out := by
  unfold handleAllocateRequest
  split
  · exact sendErrorResponse_matches hreq _ _ _
  · dsimp only
    split
    · exact sendErrorResponse_matches hreq _ _ _
    · split
      · exact sendErrorResponse_matches hreq _ _ _
      · exact handleTurnMessage_matches env now _ msg

theorem dispatch_matches
    (h : isStunRequestType msg.type = true ∨ s.findAllocation conn ≠ none) :
    Matches (some msg) (s.dispatch env now conn msg key external).out := by
  unfold dispatch
  split
  · rename_i hnone
    have hreq := h.resolve_right (absurd hnone)
    split
    · exact handleAllocateRequest_matches hreq
    · exact sendErrorResponse_matches hreq _ _ _
  · split
    · split
      · rename_i hwrong
        exact sendErrorResponse_matches hwrong.1 _ _ _
      · exact handleTurnMessage_matches env now _ msg
    · rename_i hother
      simp only [not_or, not_not] at hother
      refine sendErrorResponse_matches ?_ _ _ _
      rw [hother.1]
      decide

/-- Not a word of the message is in the answer to it. -/
theorem dispatch_stray (hreq : isStunRequestType msg.type = false)
    (hnone : s.findAllocation conn = none) :
    (s.dispatch env now conn msg key external).out =
      [sendStun env 0 (List.replicate 16 0x30) [] none] := by
  have htype : msg.type ≠ stunAllocateRequest := by
    intro h
    rw [h] at hreq
    exact absurd hreq (by decide)
  simp [dispatch, hnone, htype, sendErrorResponse, hreq]

theorem handleStunMessage_matches
    (h : isStunRequestType msg.type = true ∨ s.findAllocation conn ≠ none)
    (hread : StunMessage.read .turn data = some msg) :
    Matches (some msg) (s.handleStunMessage env now conn data external).out := by
  unfold handleStunMessage
  rw [hread]
  dsimp only
  split
  · rename_i hbinding
    refine sendResponse_matches ?_ _ _
    rw [hbinding]
    decide
  · split
    · rename_i address hredirect
      have hallocate : msg.type = stunAllocateRequest := by
        by_contra hne
        rw [if_neg hne] at hredirect
        cases hredirect
      refine sendErrorResponse_matches ?_ _ _ _
      rw [hallocate]
      decide
    · split
      · rename_i hreq
        split
        · rename_i o hrefused
          obtain ⟨code, reason, attrs, rfl⟩ := checkAuthorization_error hrefused
          exact sendErrorResponse_matches hreq code reason attrs
        · exact dispatch_matches (.inl hreq)
      · exact dispatch_matches h

/-- The only answer of the server that matches nothing. -/
theorem handleStunMessage_stray (h : StrayMessage s conn data msg) :
    (s.handleStunMessage env now conn data external).out =
      [sendStun env 0 (List.replicate 16 0x30) [] none] := by
  have hne (type : UInt16) (ht : isStunRequestType type = true) : msg.type ≠ type := by
    intro hc
    have hreq := h.noRequest
    rw [hc, ht] at hreq
    cases hreq
  simp [handleStunMessage, h.read, h.noRequest, hne stunBindingRequest (by decide),
    hne stunAllocateRequest (by decide), dispatch_stray h.noRequest h.unallocated]

/-- In every state the replies to a packet match it, unless it is a message of a
client without an allocation that is no request. -/
theorem onInternalPacket_matches_iff (env : Env) (now : Nat) (s : Server) (conn : Connection)
    (data : Bytes) (external : Option SocketAddress) :
    Matches (StunMessage.read .turn data) (s.onInternalPacket env now conn data external).out ↔
      ∀ msg, ¬ StrayMessage s conn data msg := by
  constructor
  · intro h msg hstray
    have hout : (s.onInternalPacket env now conn data external).out =
        [sendStun env 0 (List.replicate 16 0x30) [] none] := by
      rw [onInternalPacket, if_neg (Nat.not_lt.2 hstray.stun.1), hstray.stun.2]
      exact handleStunMessage_stray hstray
    obtain ⟨received, reply, key, hread, hreq, -⟩ :=
      h.answers (sendStun env 0 (List.replicate 16 0x30) [] none)
        (by rw [hout]; exact List.mem_singleton_self _) rfl
    rw [hstray.read] at hread
    cases hread
    rw [hstray.noRequest] at hreq
    cases hreq
  · intro h
    unfold onInternalPacket
    split
    · exact matches_nil
    · rename_i hsize
      split
      · rename_i hstun
        cases hread : StunMessage.read .turn data with
        | none =>
          simp only [handleStunMessage, hread]
          exact matches_nil
        | some msg =>
          refine handleStunMessage_matches ?_ hread
          by_contra hno
          simp only [not_or, not_not, Bool.not_eq_true] at hno
          exact h msg ⟨⟨Nat.not_lt.1 hsize, by simpa using hstun⟩, hread, hno.1, hno.2⟩
      · split
        · refine matches_quiet fun o ho => ?_
          unfold Allocation.handleChannelData at ho
          split at ho
          · rw [List.mem_singleton.1 ho]
            rfl
          · cases ho
        · exact matches_nil

/-! ## An indication is answered -/

/-- A send indication without attributes. -/
def strayIndication : Bytes :=
  [0x00, 0x16, 0x00, 0x00, 0x21, 0x12, 0xA4, 0x42, 1, 2, 3, 4, 5, 6, 7, 8, 9, 10, 11, 12]

def anyEnv : Env where
  hmac _ _ := []
  hmacMd5 _ _ := []
  authHook := none

def anyClient : Connection := ⟨⟨.ipv4 0x0A000001, 5000⟩, ⟨.unspec, 0⟩, .udp⟩

/-- It gets a message of type 0 back. -/
theorem strayIndication_answered :
    ¬ Matches (StunMessage.read .turn strayIndication)
      (Server.onInternalPacket anyEnv 0 {} anyClient strayIndication none).out := by
  intro h
  obtain ⟨msg, reply, key, hread, hreq, -⟩ :=
    h.answers (sendStun anyEnv 0 (List.replicate 16 0x30) [] none) (by decide) rfl
  have hmsg : StunMessage.read .turn strayIndication =
      some ⟨0x0016, 0, strayIndication.drop 8, []⟩ := by decide
  rw [hmsg] at hread
  cases hread
  exact absurd hreq (by decide)

end Server
end RtcCore.L4.Turn
