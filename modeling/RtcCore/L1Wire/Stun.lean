import RtcCore.Core.Bytes

/-!
# STUN messages

`StunMessage` with its attributes: building (`SetType`, `SetTransactionID`,
`AddAttribute`), `Write`, `Read` and `ValidateMessageIntegrity`. A
`rtc::ByteBuffer` is the octets it still holds; a reader that returns `false`
has no value. Each attribute object reads its own value, with the wire length
only where its class looks at it. The four message classes differ in which
attribute types they know.
-/
namespace RtcCore.L1

open Bytes

/-! ## The buffer -/

namespace ByteBuffer

/-- mirrors webrtc/base/bytebuffer.cc:124-144 (`ReadBytes`, `ReadString`) -/
def readBytes (len : Nat) (buf : Bytes) : Option (Bytes × Bytes) :=
  if len > buf.length then none else some (buf.take len, buf.drop len)

/-- An unsigned number of `len` octets in network order.
mirrors webrtc/base/bytebuffer.cc:65-122 -/
def readUInt (len : Nat) (buf : Bytes) : Option (Nat × Bytes) :=
  (readBytes len buf).map fun r => (beValue r.1, r.2)

def readUInt8 (buf : Bytes) : Option (UInt8 × Bytes) :=
  (readUInt 1 buf).map fun r => (.ofNat r.1, r.2)

def readUInt16 (buf : Bytes) : Option (UInt16 × Bytes) :=
  (readUInt 2 buf).map fun r => (.ofNat r.1, r.2)

def readUInt32 (buf : Bytes) : Option (UInt32 × Bytes) :=
  (readUInt 4 buf).map fun r => (.ofNat r.1, r.2)

def readUInt64 (buf : Bytes) : Option (UInt64 × Bytes) :=
  (readUInt 8 buf).map fun r => (.ofNat r.1, r.2)

/-- mirrors webrtc/base/bytebuffer.cc:209-214 -/
def consume (size : Nat) (buf : Bytes) : Option Bytes :=
  if size > buf.length then none else some (buf.drop size)

end ByteBuffer

open ByteBuffer

/-! ## Attributes -/

namespace Stun

/-- `rtc::IPAddress`, its octets in network order as words. -/
inductive IPAddress where
  | unspec
  | ipv4 (addr : UInt32)
  | ipv6 (a b c d : UInt32)
  deriving DecidableEq, Repr

structure SocketAddress where
  ip : IPAddress
  port : UInt16
  deriving DecidableEq, Repr

/-- mirrors webrtc/p2p/base/stun.h:58-67 -/
inductive StunAttributeValueType where
  | unknown
  | address
  | xorAddress
  | uint32
  | uint64
  | byteString
  | errorCode
  | uint16List
  deriving DecidableEq, Repr

/-- The attribute classes with what they hold. -/
inductive StunAttribute where
  | address (type : UInt16) (addr : SocketAddress)
  | xorAddress (type : UInt16) (addr : SocketAddress)
  | uint32 (type : UInt16) (bits : UInt32)
  | uint64 (type : UInt16) (bits : UInt64)
  | byteString (type : UInt16) (bytes : Bytes)
  | errorCode (type : UInt16) (eclass number : UInt8) (reason : Bytes)
  | uint16List (type : UInt16) (types : List UInt16)
  deriving DecidableEq, Repr

namespace StunAttribute

def type : StunAttribute → UInt16
  | address t _ | xorAddress t _ | uint32 t _ | uint64 t _ | byteString t _
  | errorCode t _ _ _ | uint16List t _ => t

def valueType : StunAttribute → StunAttributeValueType
  | address .. => .address
  | xorAddress .. => .xorAddress
  | uint32 .. => .uint32
  | uint64 .. => .uint64
  | byteString .. => .byteString
  | errorCode .. => .errorCode
  | uint16List .. => .uint16List

end StunAttribute

/-- mirrors webrtc/p2p/base/stun.h:292-309 (`EnsureAddressLength`) -/
def IPAddress.size : IPAddress → Nat
  | unspec => 0
  | ipv4 _ => 8
  | ipv6 .. => 20

/-- Octets of the value. -/
def StunAttribute.size : StunAttribute → Nat
  | address _ addr => addr.ip.size
  | xorAddress _ addr => addr.ip.size
  | uint32 .. => 4
  | uint64 .. => 8
  | byteString _ bytes => bytes.length
  | errorCode _ _ _ reason => 4 + reason.length
  | uint16List _ types => 2 * types.length

/-- `length()`: the classes keep it as `uint16`. -/
def StunAttribute.length (a : StunAttribute) : UInt16 := .ofNat a.size

/-- mirrors webrtc/p2p/base/stun.cc:779-787 (`SetCode`, `SetReason`) -/
def StunAttribute.ofCode (type : UInt16) (code : Nat) (reason : Bytes) : StunAttribute :=
  .errorCode type (.ofNat (code / 100)) (.ofNat (code % 100)) reason

/-- The octets up to the next multiple of four. -/
def padding (length : Nat) : Nat := if length % 4 > 0 then 4 - length % 4 else 0

/-- mirrors webrtc/p2p/base/stun.cc:428-434 -/
def writePadding (length : UInt16) : Bytes := List.replicate (padding length.toNat) 0

/-- The result of `Consume` is not looked at.
mirrors webrtc/p2p/base/stun.cc:421-426 -/
def consumePadding (length : UInt16) (buf : Bytes) : Bytes :=
  (consume (padding length.toNat) buf).getD buf

def kStunMagicCookie : UInt32 := 0x2112A442

/-- The cookie's octets. -/
def cookieBytes : Bytes := be32 kStunMagicCookie.toNat

/-- `transactionid_as_ints[i]`, in network order. -/
def idWord (transactionId : Bytes) (i : Nat) : UInt32 :=
  .ofNat (beValue (slice transactionId (4 * i) 4))

/-- `unspec`: no xored address.
mirrors webrtc/p2p/base/stun.cc:570-604 -/
def getXoredIP (transactionId : Bytes) : IPAddress → IPAddress
  | .unspec => .unspec
  | .ipv4 addr => .ipv4 (addr ^^^ kStunMagicCookie)
  | .ipv6 a b c d =>
    if transactionId.length = 12 then
      .ipv6 (a ^^^ kStunMagicCookie) (b ^^^ idWord transactionId 0) (c ^^^ idWord transactionId 1)
        (d ^^^ idWord transactionId 2)
    else .unspec

def xoredPort (port : UInt16) : UInt16 := port ^^^ 0x2112

/-- Family, port and address.
mirrors webrtc/p2p/base/stun.cc:536-558 -/
def writeAddress (addr : SocketAddress) : Option Bytes :=
  match addr.ip with
  | .unspec => none
  | .ipv4 a => some ([0, 1] ++ be16 addr.port.toNat ++ be32 a.toNat)
  | .ipv6 a b c d => some ([0, 2] ++ be16 addr.port.toNat ++ be32 a.toNat ++ be32 b.toNat ++
      be32 c.toNat ++ be32 d.toNat)

/-- The value as `Write` puts it into the buffer.
mirrors webrtc/p2p/base/stun.cc:536-558,615-641,668-671,687-690,749-753,807-812,859-865 -/
def StunAttribute.write (transactionId : Bytes) (a : StunAttribute) : Option Bytes :=
  match a with
  | address _ addr => writeAddress addr
  | xorAddress _ addr => writeAddress ⟨getXoredIP transactionId addr.ip, xoredPort addr.port⟩
  | uint32 _ bits => some (be32 bits.toNat)
  | uint64 _ bits => some (be32 (bits.toNat / 4294967296) ++ be32 bits.toNat)
  | byteString _ bytes => some (bytes.take a.length.toNat ++ writePadding a.length)
  | errorCode _ eclass number reason =>
    some (be32 (eclass.toNat * 256 ||| number.toNat) ++ reason ++ writePadding a.length)
  | uint16List _ types => some (types.flatMap (be16 ·.toNat) ++ writePadding a.length)

/-- mirrors webrtc/p2p/base/stun.cc:498-534 -/
def readAddress (length : UInt16) (buf : Bytes) : Option (SocketAddress × Bytes) := do
  let (_, buf) ← readUInt8 buf
  let (family, buf) ← readUInt8 buf
  let (port, buf) ← readUInt16 buf
  if family = 1 then
    if length ≠ 8 then none
    else do
      let (a, buf) ← readUInt32 buf
      some (⟨.ipv4 a, port⟩, buf)
  else if family = 2 then
    if length ≠ 20 then none
    else do
      let (a, buf) ← readUInt32 buf
      let (b, buf) ← readUInt32 buf
      let (c, buf) ← readUInt32 buf
      let (d, buf) ← readUInt32 buf
      some (⟨.ipv6 a b c d, port⟩, buf)
  else none

def readUInt16s : Nat → Bytes → Option (List UInt16 × Bytes)
  | 0, buf => some ([], buf)
  | n + 1, buf => do
    let (t, buf) ← readUInt16 buf
    let (ts, buf) ← readUInt16s n buf
    some (t :: ts, buf)

/-- `StunAttribute::Create` and the object's `Read`; `none` is `false`. The
32- and 64-bit kinds are created without the wire length.
mirrors webrtc/p2p/base/stun.cc:436-457,498-534,606-613,662-666,681-685,739-747,789-805,840-857 -/
def readAttribute (transactionId : Bytes) (type length : UInt16) (buf : Bytes) :
    StunAttributeValueType → Option (StunAttribute × Bytes)
  | .unknown => none
  | .address => do
    let (addr, buf) ← readAddress length buf
    some (.address type addr, buf)
  | .xorAddress => do
    let (addr, buf) ← readAddress length buf
    some (.xorAddress type ⟨getXoredIP transactionId addr.ip, xoredPort addr.port⟩, buf)
  | .uint32 => do
    let (bits, buf) ← readUInt32 buf
    some (.uint32 type bits, buf)
  | .uint64 => do
    let (bits, buf) ← readUInt64 buf
    some (.uint64 type bits, buf)
  | .byteString => do
    let (bytes, buf) ← readBytes length.toNat buf
    some (.byteString type bytes, consumePadding length buf)
  | .errorCode =>
    if length < 4 then none
    else do
      let (val, buf) ← readUInt32 buf
      let (reason, buf) ← readBytes (length.toNat - 4) buf
      some (.errorCode type ((val >>> 8) &&& 0x7).toUInt8 (val &&& 0xff).toUInt8 reason,
        consumePadding length buf)
  | .uint16List =>
    if length % 2 ≠ 0 then none
    else do
      let (types, buf) ← readUInt16s (length.toNat / 2) buf
      some (.uint16List type types, consumePadding length buf)

/-! ## Messages -/

inductive MessageClass where
  | stun
  | relay
  | turn
  | ice
  deriving DecidableEq, Repr

/-- mirrors webrtc/p2p/base/stun.cc:377-394 -/
def stunValueType (type : UInt16) : StunAttributeValueType :=
  if type = 0x0001 then .address
  else if type = 0x0006 then .byteString
  else if type = 0x0008 then .byteString
  else if type = 0x0009 then .errorCode
  else if type = 0x000a then .uint16List
  else if type = 0x0014 then .byteString
  else if type = 0x0015 then .byteString
  else if type = 0x0020 then .xorAddress
  else if type = 0x8022 then .byteString
  else if type = 0x8023 then .address
  else if type = 0x8028 then .uint32
  else if type = 0x802F then .byteString
  else if type = 0xFF00 then .uint32
  else .unknown

/-- mirrors webrtc/p2p/base/stun.h:523-534 -/
def relayValueType (type : UInt16) : StunAttributeValueType :=
  if type = 0x000d then .uint32
  else if type = 0x000f then .byteString
  else if type = 0x0010 then .uint32
  else if type = 0x0011 then .address
  else if type = 0x0012 then .address
  else if type = 0x0013 then .byteString
  else if type = 0x8001 then .uint32
  else stunValueType type

/-- mirrors webrtc/p2p/base/stun.h:585-598 -/
def turnValueType (type : UInt16) : StunAttributeValueType :=
  if type = 0x000C then .uint32
  else if type = 0x000d then .uint32
  else if type = 0x0012 then .xorAddress
  else if type = 0x0013 then .byteString
  else if type = 0x0016 then .xorAddress
  else if type = 0x0018 then .byteString
  else if type = 0x0019 then .uint32
  else if type = 0x001A then .byteString
  else if type = 0x0022 then .byteString
  else stunValueType type

/-- mirrors webrtc/p2p/base/stun.h:619-627 -/
def iceValueType (type : UInt16) : StunAttributeValueType :=
  if type = 0x0024 then .uint32
  else if type = 0x0025 then .byteString
  else if type = 0x8029 then .uint64
  else if type = 0x802A then .uint64
  else stunValueType type

def MessageClass.getAttributeValueType : MessageClass → UInt16 → StunAttributeValueType
  | stun => stunValueType
  | relay => relayValueType
  | turn => turnValueType
  | ice => iceValueType

/-- mirrors webrtc/p2p/base/stun.h:201-205, the constructor's id is sixteen
`0` characters -/
structure StunMessage where
  type : UInt16 := 0
  length : UInt16 := 0
  transactionId : Bytes := List.replicate 16 0x30
  attrs : List StunAttribute := []
  deriving DecidableEq, Repr

namespace StunMessage

variable (cls : MessageClass) (m : StunMessage)

def setType (type : UInt16) : StunMessage := { m with type := type }

/-- mirrors webrtc/p2p/base/stun.cc:412-415 -/
def isValidTransactionId (id : Bytes) : Bool := id.length = 12 || id.length = 16

/-- mirrors webrtc/p2p/base/stun.cc:66-72 -/
def setTransactionID (id : Bytes) : Option StunMessage :=
  if isValidTransactionId id then some { m with transactionId := id } else none

/-- mirrors webrtc/p2p/base/stun.cc:74-87 -/
def addAttribute (a : StunAttribute) : Option StunMessage :=
  if a.valueType ≠ cls.getAttributeValueType a.type then none
  else some { m with
    attrs := m.attrs ++ [a]
    length := m.length + .ofNat (a.length.toNat + padding a.length.toNat + 4) }

def isLegacy : Bool := m.transactionId.length = 16

/-- Type, length and value of an attribute. -/
def writeAttribute (transactionId : Bytes) (a : StunAttribute) : Option Bytes :=
  (a.write transactionId).map fun value => be16 a.type.toNat ++ be16 a.length.toNat ++ value

/-- mirrors webrtc/p2p/base/stun.cc:360-375 -/
def write : Option Bytes :=
  (m.attrs.mapM (writeAttribute m.transactionId)).map fun attrs =>
    be16 m.type.toNat ++ be16 m.length.toNat ++ (if m.isLegacy then [] else cookieBytes) ++
      m.transactionId ++ attrs.flatten

/-- An attribute with the offsets, in the message, of its first octet and
behind what its object took. -/
structure Parsed where
  start : Nat
  attr : StunAttribute
  stop : Nat
  deriving DecidableEq, Repr

/-- `attr_length` with its padding, in 16 bits. -/
def paddedLength (attrLength : UInt16) : UInt16 :=
  if attrLength % 4 ≠ 0 then attrLength + (4 - attrLength % 4) else attrLength

/-- Each pass takes four octets at least. `pos` is the offset in the message.
mirrors webrtc/p2p/base/stun.cc:333-354 -/
def readAttributes (transactionId : Bytes) : Nat → Nat → Bytes → Option (List Parsed)
  | 0, _, _ => some []
  | fuel + 1, pos, buf =>
    if buf.length = 0 then some []
    else do
      let (attrType, rest) ← readUInt16 buf
      let (attrLength, rest) ← readUInt16 rest
      let kind := cls.getAttributeValueType attrType
      if kind = .unknown then do
        let rest ← consume (paddedLength attrLength).toNat rest
        readAttributes transactionId fuel (pos + (buf.length - rest.length)) rest
      else do
        let (attr, rest) ← readAttribute transactionId attrType attrLength rest kind
        let next := pos + (buf.length - rest.length)
        let attrs ← readAttributes transactionId fuel next rest
        some (⟨pos, attr, next⟩ :: attrs)

/-- `Read` with the offsets of the attributes.
mirrors webrtc/p2p/base/stun.cc:297-358 -/
def readParsed (data : Bytes) : Option (StunMessage × List Parsed) := do
  let (type, buf) ← readUInt16 data
  if type &&& 0x8000 ≠ 0 then none
  else do
    let (length, buf) ← readUInt16 buf
    let (magicCookie, buf) ← readBytes 4 buf
    let (id, buf) ← readBytes 12 buf
    let id := if beValue magicCookie ≠ kStunMagicCookie.toNat then magicCookie ++ id else id
    if length.toNat ≠ buf.length then none
    else do
      let attrs ← readAttributes cls id (buf.length + 1) 20 buf
      some (⟨type, length, id, attrs.map (·.attr)⟩, attrs)

/-- mirrors webrtc/p2p/base/stun.cc:297-358 -/
def read (data : Bytes) : Option StunMessage := (readParsed cls data).map (·.1)

/-! ## What the handlers read -/

/-- The first of the type.
mirrors webrtc/p2p/base/stun.cc:402-409 -/
def getAttribute (type : UInt16) : Option StunAttribute := m.attrs.find? (·.type == type)

/-- The static casts of `GetUInt32`, `GetByteString` and `GetAddress`: a message read holds no
attribute of another class under the types they are used for.
mirrors webrtc/p2p/base/stun.cc:89-116 -/
def getUInt32 (type : UInt16) : Option UInt32 :=
  match m.getAttribute type with
  | some (.uint32 _ bits) => some bits
  | _ => none

def getByteString (type : UInt16) : Option Bytes :=
  match m.getAttribute type with
  | some (.byteString _ bytes) => some bytes
  | _ => none

def getAddress (type : UInt16) : Option SocketAddress :=
  match m.getAttribute type with
  | some (.address _ addr) | some (.xorAddress _ addr) => some addr
  | _ => none

/-! ## The integrity check -/

/-- The first MESSAGE-INTEGRITY header: `some none` where the check gives up,
no value where it would read outside of the message.
mirrors webrtc/p2p/base/stun.cc:144-168 -/
def findMessageIntegrity (data : Bytes) : Nat → Nat → Option (Option Nat)
  | 0, _ => some none
  | fuel + 1, pos =>
    if pos < data.length then do
      let attrType ← (readAt data pos 2).map beValue
      let attrLength ← (readAt data (pos + 2) 2).map beValue
      if attrType = 0x0008 then
        if attrLength ≠ 20 ∨ pos + attrLength > data.length then some none else some (some pos)
      else findMessageIntegrity data fuel (pos + 4 + attrLength + padding attrLength)
    else some none

/-- What the HMAC is taken of: the octets up to the attribute, with the length
field ending behind it.
mirrors webrtc/p2p/base/stun.cc:174-192 -/
def coveredBytes (data : Bytes) (miPos : Nat) : Bytes :=
  let temp := data.take miPos
  if data.length > miPos + 4 + 20 then
    temp.take 2 ++ be16 (miPos + 4 + 20 - 20) ++ temp.drop 4
  else temp

/-- `hmac` is `ComputeHmac` with SHA-1.
mirrors webrtc/p2p/base/stun.cc:130-207 -/
def validateMessageIntegrity (hmac : Bytes → Bytes → Bytes) (data password : Bytes) :
    Option Bool :=
  if data.length % 4 ≠ 0 then some false
  else do
    let msgLength ← (readAt data 2 2).map beValue
    if data.length ≠ msgLength + 20 then some false
    else
      match ← findMessageIntegrity data data.length 20 with
      | none => some false
      | some miPos => do
        let found ← readAt data (miPos + 4) 20
        some (found == hmac password (coveredBytes data miPos))

theorem valueType_messageIntegrity (cls : MessageClass) :
    cls.getAttributeValueType 0x0008 = .byteString := by
  cases cls <;> decide

end StunMessage

end Stun

end RtcCore.L1
