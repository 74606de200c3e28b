import RtcCore.L4P2p.TurnAuthorization

/-!
# What the HMAC of a request does not cover

The handlers read attributes from the whole message, also those behind the
MESSAGE-INTEGRITY attribute, which no HMAC covers. Two requests that agree up to
that attribute have the same effect where no attribute the server reads is first
met behind it, and where `Read` follows the lengths on the wire.

Results:
- `authenticated`: every step that creates or refreshes something is an
  authorized request, and two such requests that agree have the same effect
  under that condition.
- `peer_behind_integrity`: two requests that agree, one of which makes a
  permission for the address behind its MESSAGE-INTEGRITY attribute.
-/
namespace RtcCore.L4.Turn

open Bytes L1.ByteBuffer L1.Stun L1.Stun.StunMessage

/-! ## The fields up to MESSAGE-INTEGRITY -/

/-- The same octets up to and including the attribute the check finds, but for the length in the
header. -/
def AgreeThroughIntegrity (d₁ d₂ : Bytes) : Prop :=
  ∃ mi, findMessageIntegrity d₁ d₁.length 20 = some (some mi) ∧ mi + 24 ≤ d₁.length ∧
    mi + 24 ≤ d₂.length ∧ ∀ i < mi + 24, i ≠ 2 → i ≠ 3 → getByte d₁ i = getByte d₂ i

theorem findMessageIntegrity_le {data : Bytes} {mi : Nat} : ∀ {fuel pos : Nat},
    findMessageIntegrity data fuel pos = some (some mi) → 20 ≤ pos → pos ≤ mi := by
  intro fuel
  induction fuel with
  | zero =>
    intro pos h
    cases h
  | succ fuel ih =>
    intro pos h hpos
    rw [findMessageIntegrity] at h
    split at h
    · obtain ⟨t, -, h⟩ := Option.bind_eq_some_iff.1 h
      obtain ⟨n, -, h⟩ := Option.bind_eq_some_iff.1 h
      split at h
      · split at h
        · cases h
        · cases h
          exact Nat.le_refl _
      · have := ih h (by omega)
        omega
    · cases h

/-- The field at an offset, and the walk behind it. -/
theorem fields_at {data : Bytes} {fuel pos : Nat} {fs : List (UInt16 × Bytes)}
    (h : fields (fuel + 1) (data.drop pos) = some fs) (hpos : pos < data.length) :
    ∃ type length : UInt16, ∃ more, fs = (type, slice data (pos + 4) length.toNat) :: more ∧
      (readAt data pos 2).map beValue = some type.toNat ∧
      (readAt data (pos + 2) 2).map beValue = some length.toNat ∧
      fields fuel (data.drop (pos + 4 + length.toNat + padding length.toNat)) = some more := by
  rw [fields, if_neg (by rw [List.length_drop]; omega)] at h
  obtain ⟨⟨type, b1⟩, h1, h⟩ := Option.bind_eq_some_iff.1 h
  obtain ⟨⟨length, b2⟩, h2, h⟩ := Option.bind_eq_some_iff.1 h
  obtain ⟨⟨value, b3⟩, h3, h⟩ := Option.bind_eq_some_iff.1 h
  obtain ⟨more, hmore, h⟩ := Option.bind_eq_some_iff.1 h
  cases h
  obtain ⟨ht, hb1⟩ := readAt_of_readUInt16 h1
  rw [hb1] at h2
  obtain ⟨hn, hb2⟩ := readAt_of_readUInt16 h2
  have hb3 := (exact_readBytes _ h3).alone.2
  have hvalue : value = slice data (pos + 4) length.toNat := by
    rw [readBytes] at h3
    split at h3
    · cases h3
    · cases h3
      rw [hb2]
      rfl
  refine ⟨type, length, more, by rw [hvalue], ht, hn, ?_⟩
  rw [hb3, hb2, List.drop_drop, List.drop_drop] at hmore
  rw [← hmore]
  congr 2
  omega

section Common

variable {d₁ d₂ : Bytes} {mi : Nat}

theorem AgreeThroughIntegrity.slice_eq
    (hbytes : ∀ i < mi + 24, i ≠ 2 → i ≠ 3 → getByte d₁ i = getByte d₂ i)
    (h1 : mi + 24 ≤ d₁.length) (h2 : mi + 24 ≤ d₂.length) {off len : Nat}
    (ho : 4 ≤ off ∨ off + len ≤ 2) (h : off + len ≤ mi + 24) : slice d₁ off len = slice d₂ off len :=
  slice_congr (by omega) (by omega) fun j hj => hbytes _ (by omega) (by omega) (by omega)

theorem readAt_eq {data : Bytes} {pos n : Nat} (h : pos + n ≤ data.length) :
    readAt data pos n = some (slice data pos n) := by
  rw [readAt, if_pos h]

/-- Both walks meet the same fields up to MESSAGE-INTEGRITY. -/
theorem fields_common (h1 : mi + 24 ≤ d₁.length) (h2 : mi + 24 ≤ d₂.length)
    (hslice : ∀ {off len : Nat}, 4 ≤ off → off + len ≤ mi + 24 →
      slice d₁ off len = slice d₂ off len) :
    ∀ {fuel₁ fuel₂ fuel pos : Nat} {fs₁ fs₂ : List (UInt16 × Bytes)}, 20 ≤ pos →
      fields fuel₁ (d₁.drop pos) = some fs₁ → fields fuel₂ (d₂.drop pos) = some fs₂ →
      findMessageIntegrity d₁ fuel pos = some (some mi) →
      ∃ before value after₁ after₂, fs₁ = before ++ (attrMessageIntegrity, value) :: after₁ ∧
        fs₂ = before ++ (attrMessageIntegrity, value) :: after₂ ∧
        ∀ f ∈ before, f.1 ≠ attrMessageIntegrity := by
  intro fuel₁
  induction fuel₁ with
  | zero =>
    intro fuel₂ fuel pos fs₁ fs₂ hpos hf
    cases hf
  | succ fuel₁ ih =>
    intro fuel₂ fuel pos fs₁ fs₂ hpos hf₁ hf₂ hfind
    have hle := findMessageIntegrity_le hfind hpos
    cases fuel₂ with
    | zero => cases hf₂
    | succ fuel₂ =>
      obtain ⟨type, length, more₁, rfl, ht₁, hn₁, hm₁⟩ := fields_at hf₁ (by omega)
      obtain ⟨type₂, length₂, more₂, rfl, ht₂, hn₂, hm₂⟩ := fields_at hf₂ (by omega)
      -- the two headers are the same octets
      have htype : type₂ = type := by
        rw [readAt_eq (by omega), hslice (by omega) (by omega), ← readAt_eq (by omega), ht₂] at ht₁
        exact UInt16.toNat_inj.1 (Option.some.inj ht₁)
      have hlength : length₂ = length := by
        rw [readAt_eq (by omega), hslice (by omega) (by omega), ← readAt_eq (by omega), hn₂] at hn₁
        exact UInt16.toNat_inj.1 (Option.some.inj hn₁)
      subst htype hlength
      cases fuel with
      | zero => cases hfind
      | succ fuel =>
        rw [findMessageIntegrity, if_pos (by omega)] at hfind
        simp only [ht₁, hn₁, Option.bind_eq_bind, Option.bind_some] at hfind
        by_cases h8 : type₂.toNat = 0x0008
        · rw [if_pos h8] at hfind
          obtain rfl : type₂ = attrMessageIntegrity := UInt16.toNat_inj.1 h8
          split at hfind
          · cases hfind
          · rename_i hsize
            have hmi : pos = mi := Option.some.inj (Option.some.inj hfind)
            have h20 : length₂.toNat = 20 := Decidable.not_not.1 fun hc => hsize (.inl hc)
            refine ⟨[], slice d₁ (pos + 4) length₂.toNat, more₁, more₂, rfl, ?_, fun f hf => ?_⟩
            · rw [hslice (by omega) (by omega)]
              rfl
            · cases hf
        · rw [if_neg h8] at hfind
          have hnext := findMessageIntegrity_le hfind (by omega)
          obtain ⟨before, value, after₁, after₂, rfl, rfl, hno⟩ := ih (by omega) hm₁ hm₂ hfind
          refine ⟨(type₂, slice d₁ (pos + 4) length₂.toNat) :: before, value, after₁, after₂, rfl, ?_,
            fun f hf => ?_⟩
          · rw [hslice (by omega) (by omega)]
            rfl
          · rcases List.mem_cons.1 hf with rfl | hf
            · exact fun hc => h8 (congrArg UInt16.toNat hc)
            · exact hno f hf

end Common

/-! ## The attributes the server reads -/

/-- What the handlers of requests look up, but for MESSAGE-INTEGRITY itself. -/
def readTypes : List UInt16 :=
  [attrUsername, attrRealm, attrNonce, attrRequestedTransport, attrLifetime, attrXorPeerAddress,
    attrChannelNumber, attrOrigin]

/-- `Read` follows the lengths on the wire, and no attribute the server reads is first met behind
MESSAGE-INTEGRITY. -/
structure Covered (data : Bytes) : Prop where
  fit : WireLengthsFit .turn data
  before : ∀ fs, fields ((body data).length + 1) (body data) = some fs →
    ∀ f ∈ fs.dropWhile (·.1 != attrMessageIntegrity), f.1 ∈ readTypes →
      ∃ g ∈ fs.takeWhile (·.1 != attrMessageIntegrity), g.1 = f.1

/-- The two messages are the same to the handlers of requests. -/
structure SameMessage (m₁ m₂ : StunMessage) : Prop where
  type : m₁.type = m₂.type
  transactionId : m₁.transactionId = m₂.transactionId
  attr : ∀ t ∈ attrMessageIntegrity :: readTypes, m₁.getAttribute t = m₂.getAttribute t

/-- An attribute is looked up in the fields. -/
theorem find_attr {cls : MessageClass} {id : Bytes} {t : UInt16}
    (ht : cls.getAttributeValueType t ≠ .unknown) : ∀ {fs : List (UInt16 × Bytes)}
    {attrs : List StunAttribute}, (fs.filter (known cls)).map (decode cls id) = attrs.map some →
    attrs.find? (·.type == t) = (fs.find? (·.1 == t)).bind (decode cls id) := by
  intro fs
  induction fs with
  | nil =>
    intro attrs h
    rw [List.map_eq_nil_iff.1 h.symm]
    rfl
  | cons f fs ih =>
    intro attrs h
    by_cases hk : known cls f = true
    · rw [List.filter_cons_of_pos hk, List.map_cons] at h
      cases attrs with
      | nil => cases h
      | cons a attrs =>
        rw [List.map_cons, List.cons.injEq] at h
        have htype : a.type = f.1 := readAttribute_type (decode_eq_some.1 h.1)
        rw [List.find?_cons, List.find?_cons, htype]
        by_cases hf : f.1 = t
        · rw [beq_iff_eq.2 hf]
          exact h.1.symm
        · rw [beq_false_of_ne hf]
          exact ih h.2
    · rw [List.filter_cons_of_neg hk] at h
      have hf : f.1 ≠ t := by
        intro hc
        rw [known, hc] at hk
        exact hk (decide_eq_true ht)
      rw [List.find?_cons, beq_false_of_ne hf]
      exact ih h

/-- A type that is not first met behind MESSAGE-INTEGRITY. -/
theorem find_before {before after : List (UInt16 × Bytes)} {value : Bytes} {t : UInt16}
    (hno : ∀ f ∈ before, f.1 ≠ attrMessageIntegrity) (ht : t ∈ attrMessageIntegrity :: readTypes)
    (hcov : ∀ f ∈ (before ++ (attrMessageIntegrity, value) :: after).dropWhile
        (·.1 != attrMessageIntegrity), f.1 ∈ readTypes →
      ∃ g ∈ (before ++ (attrMessageIntegrity, value) :: after).takeWhile
        (·.1 != attrMessageIntegrity), g.1 = f.1) :
    (before ++ (attrMessageIntegrity, value) :: after).find? (·.1 == t) =
      (before ++ [(attrMessageIntegrity, value)]).find? (·.1 == t) := by
  have hall : ∀ f ∈ before, (f.1 != attrMessageIntegrity) = true := fun f hf => bne_iff_ne.2 (hno f hf)
  rw [List.dropWhile_append_of_pos hall, List.takeWhile_append_of_pos hall,
    List.dropWhile_cons_of_neg (by simp), List.takeWhile_cons_of_neg (by simp),
    List.append_nil] at hcov
  rw [List.find?_append, List.find?_append, List.find?_cons, List.find?_cons]
  by_cases h8 : attrMessageIntegrity = t
  · rw [beq_iff_eq.2 h8]
  · rw [beq_false_of_ne h8]
    cases hb : before.find? (·.1 == t) with
    | some f => rfl
    | none =>
      have ht' : t ∈ readTypes := (List.mem_cons.1 ht).resolve_left fun hc => h8 hc.symm
      have hafter : after.find? (·.1 == t) = none := by
        refine List.find?_eq_none.2 fun f hf hc => ?_
        have hft : f.1 = t := eq_of_beq hc
        obtain ⟨g, hg, hgt⟩ := hcov f (List.mem_cons_of_mem _ hf) (by rw [hft]; exact ht')
        exact List.find?_eq_none.1 hb g hg (beq_iff_eq.2 (hgt.trans hft))
      rw [hafter]
      rfl

theorem readTypes_known {t : UInt16} (ht : t ∈ attrMessageIntegrity :: readTypes) :
    MessageClass.turn.getAttributeValueType t ≠ .unknown := by
  have hall : ((attrMessageIntegrity :: readTypes).all fun t =>
      decide (MessageClass.turn.getAttributeValueType t ≠ .unknown)) = true := by decide
  exact of_decide_eq_true (List.all_eq_true.1 hall t ht)

/-- The type and the transaction id stand in the first twenty octets. -/
theorem header_congr {d₁ d₂ : Bytes} {m₁ m₂ : StunMessage} {sp₁ sp₂ : List Parsed}
    (h₁ : readParsed .turn d₁ = some (m₁, sp₁)) (h₂ : readParsed .turn d₂ = some (m₂, sp₂))
    (ht : slice d₁ 0 2 = slice d₂ 0 2) (hc : slice d₁ 4 4 = slice d₂ 4 4)
    (hid : slice d₁ 8 12 = slice d₂ 8 12) :
    m₁.type = m₂.type ∧ m₁.transactionId = m₂.transactionId := by
  have hparts : ∀ {d : Bytes} {m : StunMessage} {sp : List Parsed},
      readParsed .turn d = some (m, sp) → readUInt16 (slice d 0 2) = some (m.type, []) ∧
        m.transactionId = if beValue (slice d 4 4) ≠ kStunMagicCookie.toNat then
          slice d 4 4 ++ slice d 8 12 else slice d 8 12 := by
    intro d m sp h
    obtain ⟨⟨type, b1⟩, h1, h⟩ := Option.bind_eq_some_iff.1 h
    dsimp only at h
    split at h
    · cases h
    · obtain ⟨⟨length, b2⟩, h2, h⟩ := Option.bind_eq_some_iff.1 h
      obtain ⟨⟨cookie, b3⟩, h3, h⟩ := Option.bind_eq_some_iff.1 h
      obtain ⟨⟨id, b4⟩, h4, h⟩ := Option.bind_eq_some_iff.1 h
      dsimp only at h2 h3 h4 h
      split at h
      · cases h
      · obtain ⟨attrs, ha, h⟩ := Option.bind_eq_some_iff.1 h
        cases h
        have e1 := (exact_readUInt16 h1).alone
        have e2 := (exact_readUInt16 h2).alone.2
        have e3 := (exact_readBytes _ h3).alone.2
        have hcookie : cookie = slice d 4 4 := by
          rw [readBytes] at h3
          split at h3
          · cases h3
          · cases h3
            rw [e2, e1.2, List.drop_drop]
            rfl
        have hid : id = slice d 8 12 := by
          rw [readBytes] at h4
          split at h4
          · cases h4
          · cases h4
            rw [e3, e2, e1.2, List.drop_drop, List.drop_drop]
            rfl
        exact ⟨e1.1, by rw [hcookie, hid]⟩
  obtain ⟨t1, i1⟩ := hparts h₁
  obtain ⟨t2, i2⟩ := hparts h₂
  rw [ht, t2] at t1
  refine ⟨(congrArg Prod.fst (Option.some.inj t1)).symm, ?_⟩
  rw [i1, i2, hc, hid]

theorem sameMessage {d₁ d₂ : Bytes} {m₁ m₂ : StunMessage} (h₁ : read .turn d₁ = some m₁)
    (h₂ : read .turn d₂ = some m₂) (hagree : AgreeThroughIntegrity d₁ d₂) (hc₁ : Covered d₁)
    (hc₂ : Covered d₂) : SameMessage m₁ m₂ := by
  obtain ⟨⟨m₁, sp₁⟩, hp₁, rfl⟩ := Option.map_eq_some_iff.1 h₁
  obtain ⟨⟨m₂, sp₂⟩, hp₂, rfl⟩ := Option.map_eq_some_iff.1 h₂
  obtain ⟨mi, hfind, hl₁, hl₂, hbytes⟩ := hagree
  have hslice : ∀ {off len : Nat}, 4 ≤ off → off + len ≤ mi + 24 →
      slice d₁ off len = slice d₂ off len := fun ho h =>
    AgreeThroughIntegrity.slice_eq hbytes hl₁ hl₂ (.inl ho) h
  have h20 := findMessageIntegrity_le hfind (Nat.le_refl _)
  obtain ⟨htype, hid⟩ := header_congr hp₁ hp₂
    (AgreeThroughIntegrity.slice_eq hbytes hl₁ hl₂ (.inr (by omega)) (by omega))
    (hslice (by omega) (by omega)) (hslice (by omega) (by omega))
  obtain ⟨-, hattrs₁, hread₁⟩ := readParsed_body hp₁
  obtain ⟨-, hattrs₂, hread₂⟩ := readParsed_body hp₂
  obtain ⟨fs₁, hfs₁, hmap₁⟩ := readAttributes_fields hread₁ (Nat.lt_succ_self _) hc₁.fit
  obtain ⟨fs₂, hfs₂, hmap₂⟩ := readAttributes_fields hread₂ (Nat.lt_succ_self _) hc₂.fit
  refine ⟨htype, hid, fun t ht => ?_⟩
  have hcov₁ := hc₁.before fs₁ hfs₁
  have hcov₂ := hc₂.before fs₂ hfs₂
  obtain ⟨before, value, after₁, after₂, rfl, rfl, hno⟩ :=
    fields_common hl₁ hl₂ hslice (Nat.le_refl _) hfs₁ hfs₂ hfind
  have hk := readTypes_known ht
  have e₁ : m₁.getAttribute t = _ := find_attr hk (by rw [hmap₁, hattrs₁]; exact List.map_map.symm)
  have e₂ : m₂.getAttribute t = _ := find_attr hk (by rw [hmap₂, hattrs₂]; exact List.map_map.symm)
  rw [e₁, e₂, find_before hno ht hcov₁, find_before hno ht hcov₂, hid]

/-! ## The same to every handler -/

namespace SameMessage

variable {env : Env} {now : Nat} {a : Allocation} {s : Server} {conn : Connection}
  {m₁ m₂ : StunMessage} (h : SameMessage m₁ m₂)
include h

theorem uint32 {t : UInt16} (ht : t ∈ attrMessageIntegrity :: readTypes) :
    m₁.getUInt32 t = m₂.getUInt32 t := by
  rw [getUInt32, getUInt32, h.attr t ht]

theorem byteString {t : UInt16} (ht : t ∈ attrMessageIntegrity :: readTypes) :
    m₁.getByteString t = m₂.getByteString t := by
  rw [getByteString, getByteString, h.attr t ht]

theorem address {t : UInt16} (ht : t ∈ attrMessageIntegrity :: readTypes) :
    m₁.getAddress t = m₂.getAddress t := by
  rw [getAddress, getAddress, h.attr t ht]

theorem sendErrorResponse_same (code : Nat) (reason : String) (attrs : List StunAttribute) :
    sendErrorResponse env m₁ code reason attrs = sendErrorResponse env m₂ code reason attrs := by
  rw [sendErrorResponse, sendErrorResponse, h.type, h.transactionId]

theorem sendResponse_same (attrs : List StunAttribute) (key : Option Bytes) :
    sendResponse env m₁ attrs key = sendResponse env m₂ attrs key := by
  rw [sendResponse, sendResponse, h.type, h.transactionId]

theorem computeLifetime_same : Allocation.computeLifetime m₁ = Allocation.computeLifetime m₂ := by
  rw [Allocation.computeLifetime, Allocation.computeLifetime, h.uint32 (by decide)]

theorem handleTurnMessage_same (hreq : isStunRequestType m₁.type = true) :
    a.handleTurnMessage env now m₁ = a.handleTurnMessage env now m₂ := by
  have hsend : m₁.type ≠ turnSendIndication := by
    intro hc
    rw [hc] at hreq
    exact absurd hreq (by decide)
  have hallocate : a.handleAllocateRequest env now m₁ = a.handleAllocateRequest env now m₂ := by
    simp only [Allocation.handleAllocateRequest, h.computeLifetime_same, h.transactionId,
      h.sendResponse_same, h.byteString (t := attrUsername) (by decide),
      h.byteString (t := attrOrigin) (by decide)]
  have hrefresh : a.handleRefreshRequest env now m₁ = a.handleRefreshRequest env now m₂ := by
    simp only [Allocation.handleRefreshRequest, h.computeLifetime_same, h.sendResponse_same]
  have hcreate : a.handleCreatePermissionRequest env now m₁ =
      a.handleCreatePermissionRequest env now m₂ := by
    simp only [Allocation.handleCreatePermissionRequest, Allocation.sendBadRequestResponse,
      h.sendResponse_same, h.sendErrorResponse_same, h.address (t := attrXorPeerAddress) (by decide)]
  have hbind : a.handleChannelBindRequest env now m₁ = a.handleChannelBindRequest env now m₂ := by
    simp only [Allocation.handleChannelBindRequest, Allocation.sendBadRequestResponse,
      h.sendResponse_same, h.sendErrorResponse_same, h.address (t := attrXorPeerAddress) (by decide),
      h.uint32 (t := attrChannelNumber) (by decide)]
  rw [Allocation.handleTurnMessage, Allocation.handleTurnMessage, ← h.type, if_neg hsend,
    if_neg hsend, hallocate, hrefresh, hcreate, hbind]

theorem getKey_same : Server.getKey env m₁ = Server.getKey env m₂ := by
  rw [Server.getKey, Server.getKey, h.byteString (by decide)]

theorem dispatch_same {key : Bytes} {external : Option SocketAddress}
    (hreq : isStunRequestType m₁.type = true) :
    s.dispatch env now conn m₁ key external = s.dispatch env now conn m₂ key external := by
  have hallocate : s.handleAllocateRequest env now conn m₁ key external =
      s.handleAllocateRequest env now conn m₂ key external := by
    simp only [Server.handleAllocateRequest, h.uint32 (t := attrRequestedTransport) (by decide),
      h.sendErrorResponse_same, h.handleTurnMessage_same hreq]
  simp only [Server.dispatch, hallocate, h.sendErrorResponse_same, h.handleTurnMessage_same hreq,
    h.transactionId, h.byteString (t := attrUsername) (by decide), h.type]

/-- `CheckAuthorization` where the integrity check succeeds for both. -/
theorem checkAuthorization_same {d₁ d₂ key : Bytes}
    (h₁ : validateMessageIntegrity env.hmac d₁ key = some true)
    (h₂ : validateMessageIntegrity env.hmac d₂ key = some true) :
    s.checkAuthorization env now conn m₁ d₁ key = s.checkAuthorization env now conn m₂ d₂ key := by
  simp only [Server.checkAuthorization, sendErrorResponseWithRealmAndNonce, h₁, h₂,
    h.sendErrorResponse_same, h.byteString (t := attrMessageIntegrity) (by decide),
    h.byteString (t := attrUsername) (by decide), h.byteString (t := attrRealm) (by decide),
    h.byteString (t := attrNonce) (by decide)]

end SameMessage

/-- The packet is a request that the integrity check accepts, under the key the server looks up. -/
structure AcceptedRequest (env : Env) (s : Server) (conn : Connection) (data : Bytes)
    (msg : StunMessage) : Prop where
  read : StunMessage.read .turn data = some msg
  request : isStunRequestType msg.type = true
  valid : validateMessageIntegrity env.hmac data (s.lookUpKey env conn msg) = some true

theorem handleStunMessage_same {env : Env} {now : Nat} {s : Server} {conn : Connection}
    {external : Option SocketAddress} {d₁ d₂ : Bytes} {m₁ m₂ : StunMessage}
    (h₁ : AcceptedRequest env s conn d₁ m₁) (h₂ : AcceptedRequest env s conn d₂ m₂)
    (hagree : AgreeThroughIntegrity d₁ d₂) (hc₁ : Covered d₁) (hc₂ : Covered d₂) :
    s.handleStunMessage env now conn d₁ external = s.handleStunMessage env now conn d₂ external := by
  have h := sameMessage h₁.read h₂.read hagree hc₁ hc₂
  have hkey : s.lookUpKey env conn m₁ = s.lookUpKey env conn m₂ := by
    rw [Server.lookUpKey, Server.lookUpKey, h.getKey_same]
  have hvalid := h₂.valid
  rw [← hkey] at hvalid
  have hcheck := @SameMessage.checkAuthorization_same env now s conn m₁ m₂ h _ _ _ h₁.valid hvalid
  simp only [Server.handleStunMessage, h₁.read, h₂.read, h.type, h.sendResponse_same,
    h.sendErrorResponse_same, hkey, h₂.request, if_true]
  rw [← hkey, hcheck]
  simp only [h.dispatch_same h₁.request]

/-- The two packets make the same allocations, permissions, channels and lifetimes. -/
def SameEffect (env : Env) (now : Nat) (s : Server) (conn : Connection)
    (external : Option SocketAddress) (d₁ d₂ : Bytes) : Prop :=
  (s.onInternalPacket env now conn d₁ external).state =
      (s.onInternalPacket env now conn d₂ external).state ∧
    (s.onInternalPacket env now conn d₁ external).grants =
      (s.onInternalPacket env now conn d₂ external).grants

theorem onInternalPacket_same {env : Env} {now : Nat} {s : Server} {conn : Connection}
    {external : Option SocketAddress} {d₁ d₂ : Bytes} {m₁ m₂ : StunMessage}
    (h₁ : AcceptedRequest env s conn d₁ m₁) (h₂ : AcceptedRequest env s conn d₂ m₂)
    (hagree : AgreeThroughIntegrity d₁ d₂) (hc₁ : Covered d₁) (hc₂ : Covered d₂) :
    SameEffect env now s conn external d₁ d₂ := by
  have hsame := @handleStunMessage_same env now s conn external _ _ _ _ h₁ h₂ hagree hc₁ hc₂
  obtain ⟨mi, -, hl₁, hl₂, hbytes⟩ := hagree
  have hrd : rd16 d₁ 0 = rd16 d₂ 0 := by
    rw [rd16, rd16, hbytes 0 (by omega) (by omega) (by omega),
      hbytes (0 + 1) (by omega) (by omega) (by omega)]
  have h4 : kTurnChannelHeaderSize = 4 := rfl
  unfold SameEffect Server.onInternalPacket
  have g₁ : ¬d₁.length < kTurnChannelHeaderSize := by omega
  have g₂ : ¬d₂.length < kTurnChannelHeaderSize := by omega
  rw [if_neg g₁, if_neg g₂, hrd, hsame]
  split
  · exact ⟨rfl, rfl⟩
  · split
    · exact ⟨rfl, rfl⟩
    · exact ⟨rfl, rfl⟩

namespace ServerAt

theorem authenticated {env : Env} {s : ServerAt} (hr : (turn env).Reachable s) :
    (∀ ev s', (turn env).step s ev s' → s.StepAuthorized env ev s') ∧
      ∀ conn external d₁ d₂ m₁ m₂, AcceptedRequest env s.server conn d₁ m₁ →
        AcceptedRequest env s.server conn d₂ m₂ → AgreeThroughIntegrity d₁ d₂ →
        Covered d₁ → Covered d₂ → SameEffect env s.now s.server conn external d₁ d₂ := by
  have hk := (turn_inductive env).reachable s hr
  refine ⟨fun ev s' hs => (step_authorized hk hs).2, ?_⟩
  intro conn external d₁ d₂ m₁ m₂ h₁ h₂ hagree hc₁ hc₂
  exact onInternalPacket_same h₁ h₂ hagree hc₁ hc₂

/-! ## An address behind MESSAGE-INTEGRITY -/

/-- Hashes that are all zero, and one user. -/
def zeroEnv : Env where
  hmac := fun _ _ => List.replicate 20 0
  hmacMd5 := fun _ _ => List.replicate 32 0x30
  authHook := some fun username => if username = [0x75, 0x75, 0x75, 0x75] then some [1] else none

/-- A request of the user, with `attrs` in front of MESSAGE-INTEGRITY and `tail` behind it. -/
def request (type : Nat) (attrs tail : Bytes) : Bytes :=
  be16 type ++ be16 (84 + attrs.length + tail.length) ++ cookieBytes ++ List.replicate 12 7 ++
    (be16 0x0006 ++ be16 4 ++ [0x75, 0x75, 0x75, 0x75]) ++ (be16 0x0014 ++ be16 4 ++ be32 0) ++
    (be16 0x0015 ++ be16 40 ++ List.replicate 40 0x30) ++ attrs ++
    (be16 0x0008 ++ be16 20 ++ List.replicate 20 0) ++ tail

def userConn : Connection := ⟨⟨.ipv4 0x0A000002, 1⟩, ⟨.unspec, 0⟩, .udp⟩

def allocate : ServerEvent :=
  .packet userConn (request 0x0003 (be16 0x0019 ++ be16 4 ++ [17, 0, 0, 0]) [])
    (some ⟨.ipv4 0x0A000003, 2⟩)

theorem allocate_runs : (next zeroEnv {} allocate).isSome = true := by decide

/-- Behind the allocate request. -/
def allocated : ServerAt := (next zeroEnv {} allocate).get allocate_runs

theorem allocated_reachable : (turn zeroEnv).Reachable allocated :=
  ⟨{}, [allocate], rfl, .cons (Option.some_get allocate_runs).symm (.nil _)⟩

/-- A create-permission request without an address, and the same with one behind
MESSAGE-INTEGRITY, or with a FINGERPRINT there. -/
def noPeer : Bytes := request 0x0008 [] []
def peerBehind : Bytes := request 0x0008 [] (be16 0x0012 ++ be16 8 ++ [0, 1, 0, 0] ++ be32 0)
def fingerprintBehind : Bytes := request 0x0008 [] (be16 0x8028 ++ be16 4 ++ be32 5)

theorem accepted_of_valid {data : Bytes}
    (h : ((StunMessage.read .turn data).any fun msg => isStunRequestType msg.type &&
      decide (validateMessageIntegrity zeroEnv.hmac data
        (allocated.server.lookUpKey zeroEnv userConn msg) = some true)) = true) :
    ∃ msg, AcceptedRequest zeroEnv allocated.server userConn data msg := by
  cases hread : StunMessage.read .turn data with
  | none =>
    rw [hread] at h
    cases h
  | some msg =>
    rw [hread, Option.any_some, Bool.and_eq_true] at h
    exact ⟨msg, hread, h.1, of_decide_eq_true h.2⟩

theorem agree_of_take {d₁ d₂ : Bytes} (mi : Nat)
    (h : (decide (findMessageIntegrity d₁ d₁.length 20 = some (some mi)) &&
      (decide (mi + 24 ≤ d₁.length) && (decide (mi + 24 ≤ d₂.length) &&
        (List.range (mi + 24)).all fun i => i == 2 || (i == 3 || getByte d₁ i == getByte d₂ i)))) =
      true) : AgreeThroughIntegrity d₁ d₂ := by
  simp only [Bool.and_eq_true, decide_eq_true_eq, List.all_eq_true, List.mem_range,
    Bool.or_eq_true, beq_iff_eq] at h
  obtain ⟨h1, h2, h3, h4⟩ := h
  refine ⟨mi, h1, h2, h3, fun i hi hi2 hi3 => ?_⟩
  exact ((h4 i hi).resolve_left hi2).resolve_left hi3

instance (header : UInt16 × UInt16) : Decidable (Fits .turn header) :=
  decidable_of_iff
    ((MessageClass.turn.getAttributeValueType header.1).fixedSize.all (header.2.toNat == ·) = true ∧
      (MessageClass.turn.getAttributeValueType header.1 = .unknown → header.2.toNat < 65533)) <| by
    unfold Fits
    cases (MessageClass.turn.getAttributeValueType header.1).fixedSize with
    | none => simp
    | some n => simp

theorem covered_of_fields {data : Bytes} (fs : List (UInt16 × Bytes))
    (hfit : ((headers ((body data).length + 1) (body data)).all fun header =>
      decide (Fits .turn header)) = true)
    (hfs : fields ((body data).length + 1) (body data) = some fs)
    (h : ∀ f ∈ fs.dropWhile (·.1 != attrMessageIntegrity), f.1 ∈ readTypes →
      ∃ g ∈ fs.takeWhile (·.1 != attrMessageIntegrity), g.1 = f.1) : Covered data where
  fit header hmem := of_decide_eq_true (List.all_eq_true.1 hfit header hmem)
  before fs' hfs' := by
    rw [hfs] at hfs'
    cases hfs'
    exact h

/-- Username, realm, nonce and MESSAGE-INTEGRITY of the requests. -/
def requestFields : List (UInt16 × Bytes) :=
  [(0x0006, [0x75, 0x75, 0x75, 0x75]), (0x0014, [0, 0, 0, 0]), (0x0015, List.replicate 40 0x30),
    (0x0008, List.replicate 20 0)]

theorem fingerprint_behind_integrity :
    (∀ ev s', (turn zeroEnv).step allocated ev s' → allocated.StepAuthorized zeroEnv ev s') ∧
      SameEffect zeroEnv allocated.now allocated.server userConn none noPeer fingerprintBehind := by
  obtain ⟨hsteps, hpairs⟩ := authenticated allocated_reachable
  obtain ⟨m₁, h₁⟩ : ∃ msg, AcceptedRequest zeroEnv allocated.server userConn noPeer msg :=
    accepted_of_valid (by decide)
  obtain ⟨m₂, h₂⟩ : ∃ msg, AcceptedRequest zeroEnv allocated.server userConn fingerprintBehind msg :=
    accepted_of_valid (by decide)
  have hc₁ : Covered noPeer := covered_of_fields requestFields (by decide)
    (by decide) (by decide)
  have hc₂ : Covered fingerprintBehind :=
    covered_of_fields (requestFields ++ [(0x8028, [0, 0, 0, 5])]) (by decide)
      (by decide) (by decide)
  exact ⟨hsteps, hpairs userConn none noPeer fingerprintBehind m₁ m₂ h₁ h₂
    (agree_of_take 80 (by decide)) hc₁ hc₂⟩

theorem peer_behind_integrity :
    (∃ msg, AcceptedRequest zeroEnv allocated.server userConn noPeer msg) ∧
      (∃ msg, AcceptedRequest zeroEnv allocated.server userConn peerBehind msg) ∧
      AgreeThroughIntegrity noPeer peerBehind ∧ (turn zeroEnv).Reachable allocated ∧
      ¬SameEffect zeroEnv allocated.now allocated.server userConn none noPeer peerBehind := by
  refine ⟨accepted_of_valid (by decide), accepted_of_valid (by decide),
    agree_of_take 80 (by decide), allocated_reachable, fun hc => ?_⟩
  have h₁ : (allocated.server.onInternalPacket zeroEnv allocated.now userConn noPeer none).grants =
      [] := by decide
  have h₂ : (allocated.server.onInternalPacket zeroEnv allocated.now userConn peerBehind
      none).grants = [.permission (.ipv4 0x2112A442)] := by decide
  have := hc.2
  rw [h₁, h₂] at this
  cases this

end ServerAt

end RtcCore.L4.Turn
