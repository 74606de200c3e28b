import RtcCore.L1Wire.StunAuthentication
import RtcCore.L4P2p.P2PTransportChannel

/-!
# `Port::GetStunMessage`

What a port does with a packet that may be STUN: it is not, it is answered or ignored,
or it is passed on. In hybrid mode the username of a request says which of the two
protocols the remote speaks; the port takes it before it looks at the MESSAGE-INTEGRITY,
so that the answer is in that protocol.

`hmac` and `crc32` are any functions of their octets, `uninit` is what is in a `char` that
was not written. A call has no value where the integrity check would read outside of the
packet.

Results:
* `getStunMessage_defined`: when a call has a value.
* `getStunMessage_keeps`: which packets that are not passed on change the port.
* `getStunMessage_passes`: what is known of a binding request that is passed on.
-/
namespace RtcCore.L4.Ice

open L1 L1.Stun L1.Stun.StunMessage

/-- mirrors webrtc/base/base64.cc:32-35 -/
def base64Table : Bytes :=
  "ABCDEFGHIJKLMNOPQRSTUVWXYZabcdefghijklmnopqrstuvwxyz0123456789+/".toUTF8.toList

/-- mirrors webrtc/base/base64.cc:78-88 -/
def getNextBase64Char (ch : UInt8) : Option UInt8 :=
  (base64Table.findIdx? (· == ch)).bind fun p => (base64Table ++ base64Table.take 1)[p + 1]?

/-- mirrors webrtc/p2p/base/port.cc:61-78 -/
def getRtcpUfragFromRtpUfrag (uninit : UInt8) (rtpUfrag : Bytes) : Bytes :=
  match rtpUfrag.getLast? with
  | none => rtpUfrag
  | some last => rtpUfrag.dropLast ++ [(getNextBase64Char last).getD uninit]

def stunErrorReasonBadRequest : Bytes := "Bad Request".toUTF8.toList

def stunErrorReasonUnauthorized : Bytes := "Unauthorized".toUTF8.toList

/-- What the handling of STUN messages reads of a port. -/
structure Port where
  iceProtocol : IceProtocolType
  component : Nat
  iceUsernameFragment : Bytes
  password : Bytes
  deriving DecidableEq, Repr

/-- What a call returns and leaves: its result, `out_msg` and `out_username`, and the
error response that was sent. -/
structure Received where
  port : Port
  result : Bool
  msg : Option StunMessage
  username : Bytes
  sent : Option StunMessage
  deriving DecidableEq, Repr

namespace Port

section Code

variable (hmac : Bytes → Bytes → Bytes) (crc32 : Bytes → UInt32) (uninit : UInt8) (p : Port)

def isStandardIce : Bool := p.iceProtocol = .rfc5245

def isGoogleIce : Bool := p.iceProtocol = .google

def isHybridIce : Bool := p.iceProtocol = .hybrid

/-- mirrors webrtc/p2p/base/port.cc:752-760 -/
def usernameFragment : Bytes :=
  if !p.isStandardIce && p.component = 2 then getRtcpUfragFromRtpUfrag uninit p.iceUsernameFragment
  else p.iceUsernameFragment

/-- mirrors webrtc/p2p/base/port.cc:657-702 -/
def sendBindingErrorResponse (request : StunMessage) (errorCode : Nat) (reason : Bytes) :
    StunMessage :=
  let response := ({} : StunMessage).setType 0x0111
  let response := (response.setTransactionID request.transactionId).getD response
  let attr : StunAttribute :=
    if p.isStandardIce then .ofCode 0x0009 errorCode reason
    else if p.isGoogleIce then
      .errorCode 0x0009 (.ofNat (errorCode / 256)) (.ofNat (errorCode % 256)) reason
    else .errorCode 0x0009 0 0 reason
  let response := (response.addAttribute .stun attr).getD response
  if p.isStandardIce then
    let response := if errorCode ≠ 400 ∧ errorCode ≠ 401 then
        (response.addMessageIntegrity .stun hmac p.password).2
      else response
    (response.addFingerprint .stun crc32).2
  else if p.isGoogleIce then
    match request.getByteString 0x0006 with
    | some username => (response.addAttribute .stun (.byteString 0x0006 username)).getD response
    | none => response
  else response

/-- The local and the remote fragment, and the remote's protocol.
mirrors webrtc/p2p/base/port.cc:477-520 -/
def parseStunUsername (stunMsg : StunMessage) : Option (Bytes × Bytes × IceProtocolType) := do
  let username ← stunMsg.getByteString 0x0006
  let colonPos := username.findIdx? (· == 0x3A)
  let remoteProtocolType :=
    if p.isHybridIce then (if colonPos.isSome then .rfc5245 else .google) else p.iceProtocol
  match remoteProtocolType with
  | .rfc5245 => do
    let pos ← colonPos
    return (username.take pos, username.drop (pos + 1), .rfc5245)
  | .google =>
    let fragment := p.usernameFragment uninit
    if username.length < fragment.length then none
    else return (username.take fragment.length, username.drop fragment.length, .google)
  | .hybrid => return ([], [], .hybrid)

def notStun : Received := ⟨p, false, none, [], none⟩

def handled : Received := ⟨p, true, none, [], none⟩

def answered (request : StunMessage) (errorCode : Nat) (reason : Bytes) : Received :=
  ⟨p, true, none, [], some (p.sendBindingErrorResponse hmac crc32 request errorCode reason)⟩

/-- mirrors webrtc/p2p/base/port.cc:379-427 -/
def getBindingRequest (data : Bytes) (stunMsg : StunMessage) : Option Received :=
  if (stunMsg.getByteString 0x0006).isNone ∨
      (p.isStandardIce ∧ (stunMsg.getByteString 0x0008).isNone) then
    some (p.answered hmac crc32 stunMsg 400 stunErrorReasonBadRequest)
  else
    match p.parseStunUsername uninit stunMsg with
    | none => some (p.answered hmac crc32 stunMsg 401 stunErrorReasonUnauthorized)
    | some (localUfrag, remoteUfrag, remoteProtocolType) =>
      if localUfrag ≠ p.usernameFragment uninit then
        some (p.answered hmac crc32 stunMsg 401 stunErrorReasonUnauthorized)
      else
        let p := if p.isHybridIce then { p with iceProtocol := remoteProtocolType } else p
        if !p.isStandardIce then some ⟨p, true, some stunMsg, remoteUfrag, none⟩
        else (validateMessageIntegrity hmac data p.password).map fun ok =>
          if !ok then p.answered hmac crc32 stunMsg 401 stunErrorReasonUnauthorized
          else ⟨p, true, some stunMsg, remoteUfrag, none⟩

/-- mirrors webrtc/p2p/base/port.cc:366-370 -/
def passesFingerprint (data : Bytes) : Option Bool :=
  if p.isStandardIce then validateFingerprint crc32 data else some true

/-- What is read is the whole packet: the message's length says so.
mirrors webrtc/p2p/base/port.cc:355-462 -/
def getStunMessage (data : Bytes) : Option Received := do
  let passes ← p.passesFingerprint crc32 data
  if !passes then return p.notStun
  else
    match StunMessage.read .ice data with
    | none => return p.notStun
    | some stunMsg =>
      if stunMsg.type = 0x0001 then p.getBindingRequest hmac crc32 uninit data stunMsg
      else if stunMsg.type = 0x0101 ∨ stunMsg.type = 0x0111 then
        if stunMsg.type = 0x0111 ∧ (stunMsg.getAttribute 0x0009).isNone then return p.handled
        else return ⟨p, true, some stunMsg, [], none⟩
      else if stunMsg.type = 0x0011 then return ⟨p, true, some stunMsg, [], none⟩
      else return p.handled

end Code

variable {hmac : Bytes → Bytes → Bytes} {crc32 : Bytes → UInt32} {uninit : UInt8} {p : Port}
  {data username localUfrag remoteUfrag : Bytes} {stunMsg : StunMessage} {r : Received}
  {type : IceProtocolType}

/-! ## Usernames -/

theorem split_of_findIdx {c : UInt8} {pos : Nat} (h : username.findIdx? (· == c) = some pos) :
    username = username.take pos ++ c :: username.drop (pos + 1) ∧ c ∉ username.take pos := by
  induction username generalizing pos with
  | nil => exact nomatch h
  | cons x xs ih =>
    rw [List.findIdx?_cons] at h
    by_cases hx : x = c
    · rw [if_pos (beq_iff_eq.2 hx)] at h
      cases h
      exact ⟨congrArg (· :: xs) hx, List.not_mem_nil⟩
    · rw [if_neg (by rwa [beq_iff_eq])] at h
      obtain ⟨n, hn, rfl⟩ := Option.map_eq_some_iff.1 h
      obtain ⟨heq, hmem⟩ := ih hn
      refine ⟨congrArg (x :: ·) heq, fun hc => ?_⟩
      rcases List.mem_cons.1 hc with rfl | hc
      · exact hx rfl
      · exact hmem hc

theorem findIdx_of_split {c : UInt8} {a : Bytes} (b : Bytes) (h : c ∉ a) :
    (a ++ c :: b).findIdx? (· == c) = some a.length := by
  induction a with
  | nil =>
    show (c :: b).findIdx? _ = _
    rw [List.findIdx?_cons, if_pos (beq_iff_eq.2 rfl)]
    rfl
  | cons x a ih =>
    have hx : x ≠ c := fun hx => h (hx ▸ List.mem_cons_self)
    rw [List.cons_append, List.findIdx?_cons, if_neg (by rwa [beq_iff_eq]),
      ih fun hc => h (List.mem_cons_of_mem x hc)]
    rfl

/-- The username names the port's fragment, in the style of the protocol. -/
def Names (uninit : UInt8) (p : Port) (username remoteUfrag : Bytes) : IceProtocolType → Prop
  | .rfc5245 => username = p.usernameFragment uninit ++ 0x3A :: remoteUfrag ∧
      0x3A ∉ p.usernameFragment uninit
  | .google => username = p.usernameFragment uninit ++ remoteUfrag
  | .hybrid => False

theorem parseStunUsername_names
    (h : p.parseStunUsername uninit stunMsg = some (localUfrag, remoteUfrag, type))
    (hlocal : localUfrag = p.usernameFragment uninit) :
    (∃ username, stunMsg.getByteString 0x0006 = some username ∧
      Names uninit p username remoteUfrag type) ∧
    (p.isHybridIce = false → type = p.iceProtocol) := by
  unfold parseStunUsername at h
  obtain ⟨username, husername, h⟩ := Option.bind_eq_some_iff.1 h
  dsimp only at h
  have hkept (hp : p.isHybridIce = false) :
      (if p.isHybridIce = true then
        (if (username.findIdx? (· == 0x3A)).isSome = true then .rfc5245 else .google)
      else p.iceProtocol) = p.iceProtocol := if_neg (by rw [hp]; exact Bool.false_ne_true)
  split at h
  · rename_i htype
    obtain ⟨pos, hpos, h⟩ := Option.bind_eq_some_iff.1 h
    simp only [pure, Option.some.injEq, Prod.mk.injEq] at h
    obtain ⟨rfl, rfl, rfl⟩ := h
    refine ⟨⟨username, husername, ?_⟩, fun hp => htype.symm.trans (hkept hp)⟩
    show username = _ ∧ _
    rw [← hlocal]
    exact split_of_findIdx hpos
  · rename_i htype
    split at h
    · exact nomatch h
    · simp only [pure, Option.some.injEq, Prod.mk.injEq] at h
      obtain ⟨rfl, rfl, rfl⟩ := h
      refine ⟨⟨username, husername, ?_⟩, fun hp => htype.symm.trans (hkept hp)⟩
      have hsplit := List.take_append_drop (p.usernameFragment uninit).length username
      rw [hlocal] at hsplit
      exact hsplit.symm
  · -- a port that is not hybrid has another type, and a hybrid one gets another
    rename_i htype
    by_cases hp : p.isHybridIce = true
    · rw [if_pos hp] at htype
      split at htype <;> exact nomatch htype
    · rw [if_neg hp] at htype
      exact absurd (decide_eq_true htype) hp

theorem parseStunUsername_rfc5245 (hp : p.isHybridIce = true)
    (husername : stunMsg.getByteString 0x0006 = some username)
    (hnames : Names uninit p username remoteUfrag .rfc5245) :
    p.parseStunUsername uninit stunMsg =
      some (p.usernameFragment uninit, remoteUfrag, .rfc5245) := by
  obtain ⟨rfl, hcolon⟩ := hnames
  have hfind := findIdx_of_split remoteUfrag hcolon
  unfold parseStunUsername
  rw [husername]
  simp only [Option.bind_eq_bind, Option.bind_some, hp, hfind, Option.isSome_some, if_true,
    List.take_left, List.drop_length_add_append]
  rfl

/-! ## Packets -/

/-- A binding request that makes a hybrid port take the remote's protocol and is then
rejected. -/
def Switches (hmac : Bytes → Bytes → Bytes) (uninit : UInt8) (p : Port) (data : Bytes) : Prop :=
  p.isHybridIce = true ∧ ∃ stunMsg username remoteUfrag,
    StunMessage.read .ice data = some stunMsg ∧ stunMsg.type = 0x0001 ∧
    stunMsg.getByteString 0x0006 = some username ∧
    Names uninit p username remoteUfrag .rfc5245 ∧
    validateMessageIntegrity hmac data p.password = some false

/-- What is known of a result. -/
structure Sound (hmac : Bytes → Bytes → Bytes) (uninit : UInt8) (p : Port) (data : Bytes)
    (switches : Prop) (r : Received) : Prop where
  rejected : r.sent.isSome = true ∨ r.result = false → r.msg = none
  kept : r.msg = none → ¬switches → r.port = p
  switched : switches → r.port = { p with iceProtocol := .rfc5245 } ∧ r.sent.isSome = true
  names : ∀ stunMsg, r.msg = some stunMsg → stunMsg.type = 0x0001 →
    ∃ username, stunMsg.getByteString 0x0006 = some username ∧
      Names uninit p username r.username r.port.iceProtocol
  integrity : ∀ stunMsg, r.msg = some stunMsg → stunMsg.type = 0x0001 →
    r.port.iceProtocol = .rfc5245 → validateMessageIntegrity hmac data p.password = some true

theorem not_standard_of_hybrid (hp : p.isHybridIce = true) : p.isStandardIce = false := by
  have htype : p.iceProtocol = .hybrid := of_decide_eq_true hp
  show decide (p.iceProtocol = .rfc5245) = false
  rw [htype]
  rfl

theorem getBindingRequest_sound
    (hr : p.getBindingRequest hmac crc32 uninit data stunMsg = some r) :
    Sound hmac uninit p data (p.isHybridIce = true ∧ ∃ username remoteUfrag,
      stunMsg.getByteString 0x0006 = some username ∧
      Names uninit p username remoteUfrag .rfc5245 ∧
      validateMessageIntegrity hmac data p.password = some false) r := by
  have hanswer (code : Nat) (reason : Bytes) (switches : Prop) (hs : ¬switches) :
      Sound hmac uninit p data switches (p.answered hmac crc32 stunMsg code reason) :=
    ⟨fun _ => rfl, fun _ _ => rfl, fun h => absurd h hs, nofun, nofun⟩
  unfold getBindingRequest at hr
  split at hr
  · rename_i hmissing
    cases hr
    refine hanswer _ _ _ ?_
    rintro ⟨hp, username, remoteUfrag, husername, -⟩
    rw [husername, not_standard_of_hybrid hp] at hmissing
    simp at hmissing
  · split at hr
    · rename_i hparse
      cases hr
      refine hanswer _ _ _ ?_
      rintro ⟨hp, username, remoteUfrag, husername, hnames, -⟩
      rw [parseStunUsername_rfc5245 hp husername hnames] at hparse
      exact nomatch hparse
    · rename_i localUfrag remoteUfrag type hparse
      split at hr
      · rename_i hlocal
        cases hr
        refine hanswer _ _ _ ?_
        rintro ⟨hp, username, remoteUfrag, husername, hnames, -⟩
        rw [parseStunUsername_rfc5245 hp husername hnames] at hparse
        cases hparse
        exact hlocal rfl
      · rename_i hlocal
        obtain ⟨⟨username, husername, hnames⟩, hkept⟩ :=
          parseStunUsername_names hparse (not_not.1 hlocal)
        have hport : (if p.isHybridIce = true then { p with iceProtocol := type } else p) =
            { p with iceProtocol := type } := by
          split
          · rfl
          · rename_i hp
            rw [hkept (Bool.eq_false_iff.2 hp)]
        have hswitch : (p.isHybridIce = true ∧ ∃ username remoteUfrag,
            stunMsg.getByteString 0x0006 = some username ∧
            Names uninit p username remoteUfrag .rfc5245 ∧
            validateMessageIntegrity hmac data p.password = some false) →
            type = .rfc5245 ∧ validateMessageIntegrity hmac data p.password = some false := by
          rintro ⟨hp, username', remoteUfrag', husername', hnames', hfalse⟩
          rw [parseStunUsername_rfc5245 hp husername' hnames'] at hparse
          cases hparse
          exact ⟨rfl, hfalse⟩
        dsimp only at hr
        rw [hport] at hr
        split at hr
        · rename_i hother
          have htype : type ≠ .rfc5245 := by
            rintro rfl
            exact nomatch hother
          cases hr
          refine ⟨fun h => ?_, nofun, fun h => absurd (hswitch h).1 htype, ?_, ?_⟩
          · rcases h with h | h <;> exact nomatch h
          · rintro _ ⟨⟩ -
            exact ⟨username, husername, hnames⟩
          · rintro _ - - hrfc
            exact absurd hrfc htype
        · rename_i hstandard
          have htype : type = .rfc5245 := by
            by_contra hne
            exact hstandard ((congrArg (!·) (decide_eq_false hne)).trans rfl)
          subst htype
          obtain ⟨ok, hok, rfl⟩ := Option.map_eq_some_iff.1 hr
          cases ok with
          | true =>
            refine ⟨fun h => ?_, nofun, fun h => ?_, ?_, fun _ _ _ _ => hok⟩
            · rcases h with h | h <;> exact nomatch h
            · exact nomatch hok.symm.trans (hswitch h).2
            · rintro _ ⟨⟩ -
              exact ⟨username, husername, hnames⟩
          | false =>
            refine ⟨fun _ => rfl, fun _ hs => ?_, fun _ => ⟨rfl, rfl⟩, nofun, nofun⟩
            cases hp : p.isHybridIce with
            | true => exact absurd ⟨hp, username, remoteUfrag, husername, hnames, hok⟩ hs
            | false =>
              show { p with iceProtocol := .rfc5245 } = p
              rw [hkept hp]

/-- A packet that is no request leaves the port. -/
theorem sound_of_other {switches : Prop} (hs : ¬switches) {result : Bool} {msg : Option StunMessage}
    (hresult : result = false → msg = none) (htype : ∀ m ∈ msg, m.type ≠ 0x0001) :
    Sound hmac uninit p data switches ⟨p, result, msg, [], none⟩ where
  rejected := fun h => h.elim nofun hresult
  kept := fun _ _ => rfl
  switched := fun h => absurd h hs
  names := fun m hm h => absurd h (htype m hm)
  integrity := fun m hm h => absurd h (htype m hm)

theorem getStunMessage_sound (hr : p.getStunMessage hmac crc32 uninit data = some r) :
    Sound hmac uninit p data (p.Switches hmac uninit data) r := by
  unfold getStunMessage at hr
  obtain ⟨passes, hpasses, hr⟩ := Option.bind_eq_some_iff.1 hr
  split at hr
  · rename_i hfailed
    cases hr
    refine sound_of_other (fun hs => ?_) (fun _ => rfl) nofun
    rw [passesFingerprint, not_standard_of_hybrid hs.1] at hpasses
    cases hpasses
    exact nomatch hfailed
  · split at hr
    · rename_i hread
      cases hr
      refine sound_of_other (fun ⟨_, m, _, _, hm, _⟩ => ?_) (fun _ => rfl) nofun
      exact nomatch hread.symm.trans hm
    · rename_i stunMsg hread
      have hswitches : p.Switches hmac uninit data ↔ stunMsg.type = 0x0001 ∧
          (p.isHybridIce = true ∧ ∃ username remoteUfrag,
            stunMsg.getByteString 0x0006 = some username ∧
            Names uninit p username remoteUfrag .rfc5245 ∧
            validateMessageIntegrity hmac data p.password = some false) := by
        constructor
        · rintro ⟨hp, m, username, remoteUfrag, hm, htype, h⟩
          cases hread.symm.trans hm
          exact ⟨htype, hp, username, remoteUfrag, h⟩
        · rintro ⟨htype, hp, username, remoteUfrag, h⟩
          exact ⟨hp, stunMsg, username, remoteUfrag, hread, htype, h⟩
      by_cases htype : stunMsg.type = 0x0001
      · rw [if_pos htype] at hr
        rw [propext hswitches, and_iff_right htype]
        exact getBindingRequest_sound hr
      · have hs : ¬p.Switches hmac uninit data := fun hs => htype (hswitches.1 hs).1
        have hpassed : Sound hmac uninit p data (p.Switches hmac uninit data)
            ⟨p, true, some stunMsg, [], none⟩ :=
          sound_of_other hs nofun fun m hm => by
            cases hm
            exact htype
        have hhandled : Sound hmac uninit p data (p.Switches hmac uninit data) p.handled :=
          sound_of_other hs nofun nofun
        rw [if_neg htype] at hr
        split at hr
        · split at hr
          · cases hr
            exact hhandled
          · cases hr
            exact hpassed
        · split at hr
          · cases hr
            exact hpassed
          · cases hr
            exact hhandled

theorem getBindingRequest_defined
    (h : p.getBindingRequest hmac crc32 uninit data stunMsg = none) :
    validateMessageIntegrity hmac data p.password = none := by
  unfold getBindingRequest at h
  split at h
  · exact nomatch h
  · split at h
    · exact nomatch h
    · split at h
      · exact nomatch h
      · dsimp only at h
        generalize hport : (if p.isHybridIce = true then _ else p) = port at h
        have hpassword : port.password = p.password := by
          rw [← hport]
          split <;> rfl
        split at h
        · exact nomatch h
        · rw [Option.map_eq_none_iff, hpassword] at h
          exact h

/-- Only the integrity check of a request can leave the packet. -/
theorem getStunMessage_defined (h : p.getStunMessage hmac crc32 uninit data = none) :
    findMessageIntegrity data data.length 20 = some (some (data.length - 20)) := by
  unfold getStunMessage at h
  obtain ⟨passes, hpasses⟩ : ∃ passes, p.passesFingerprint crc32 data = some passes := by
    unfold passesFingerprint
    split
    · exact Option.isSome_iff_exists.1 (validateFingerprint_inside crc32 data)
    · exact ⟨true, rfl⟩
  rw [hpasses] at h
  replace h : (if (!passes) = true then some p.notStun else _) = none := h
  split at h
  · exact nomatch h
  · split at h
    · exact nomatch h
    · rename_i stunMsg hread
      split at h
      · have hnone := getBindingRequest_defined h
        have hne : data ≠ [] := by
          rintro rfl
          exact nomatch hread
        by_contra hmi
        have := validateMessageIntegrity_inside hmac p.password hne hmi
        rw [hnone] at this
        exact nomatch this
      · split at h
        · split at h <;> exact nomatch h
        · split at h <;> exact nomatch h

/-- What the port is after a packet, and which binding requests are passed on. -/
theorem getStunMessage_keeps (p : Port) (data : Bytes) :
    (p.getStunMessage hmac crc32 uninit data = none →
      findMessageIntegrity data data.length 20 = some (some (data.length - 20))) ∧
    ∀ r, p.getStunMessage hmac crc32 uninit data = some r →
      (r.sent.isSome = true ∨ r.result = false →
        (r.port.iceProtocol = p.iceProtocol ↔ ¬p.Switches hmac uninit data)) ∧
      (p.Switches hmac uninit data →
        r.port = { p with iceProtocol := .rfc5245 } ∧ r.sent.isSome = true) ∧
      ∀ stunMsg, r.msg = some stunMsg → stunMsg.type = 0x0001 →
        (∃ username, stunMsg.getByteString 0x0006 = some username ∧
          Names uninit p username r.username r.port.iceProtocol) ∧
        (r.port.iceProtocol = .rfc5245 →
          validateMessageIntegrity hmac data p.password = some true) := by
  refine ⟨getStunMessage_defined, fun r hr => ?_⟩
  have h := getStunMessage_sound hr
  refine ⟨fun hrejected => ⟨fun hsame hswitches => ?_, fun hs => ?_⟩, h.switched,
    fun stunMsg hmsg htype => ⟨h.names stunMsg hmsg htype, h.integrity stunMsg hmsg htype⟩⟩
  · have hhybrid : p.iceProtocol = .hybrid := of_decide_eq_true hswitches.1
    rw [(h.switched hswitches).1, hhybrid] at hsame
    exact nomatch hsame
  · rw [h.kept (h.rejected hrejected) hs]

/-- A request of the user `f:r` without MESSAGE-INTEGRITY. -/
def unsignedRequest : Bytes :=
  [0, 1, 0, 8, 0x21, 0x12, 0xA4, 0x42] ++ List.replicate 12 7 ++ [0, 6, 0, 3, 0x66, 0x3A, 0x72, 0]

/-- A hybrid port with the fragment `f` answers it with an error, and is hybrid no more. -/
theorem unsigned_request_switches :
    ((⟨.hybrid, 1, [0x66], [0x70]⟩ : Port).getStunMessage (fun _ _ => []) (fun _ => 0) 0
      unsignedRequest).map (fun r => (r.sent.isSome, r.msg.isSome, r.port.iceProtocol)) =
    some (true, false, .rfc5245) := by
  decide

end Port

end RtcCore.L4.Ice
