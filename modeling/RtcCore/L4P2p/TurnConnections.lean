import Mathlib.Data.List.Lex
import Mathlib.Data.List.Nodup
import Mathlib.Data.Prod.Lex
import Mathlib.Order.Lattice
import RtcCore.Core.ComparedMap
import RtcCore.Core.LTS
import RtcCore.L4P2p.TurnServer

/-!
# The connections that allocations are found by

`allocations_` is a `std::map` ordered by `TurnServerConnection::operator<`,
which takes one connection to be less than another when its source is, or its
destination, or its protocol. Each of the three is a linear order, so this is "not
above in all three", and an order only of connections that the three do not set
in different orders: a TCP client below a UDP client in its source is above it in
the two others, and each of them is then less than the other.

Results:
* `SocketAddress.lt_iff`, `eq_iff`: the comparison of addresses is linear, and
  equality is its equivalence.
* `connections_identify`: the comparison is a strict weak order with `==` as its
  equivalence exactly on connections that are comparable; among those every run
  finds the allocation that was created and is not destroyed.
* `clients_comparable_iff`: of UDP and TCP clients these are the ones where no
  TCP source is below a UDP source.
-/
namespace RtcCore.L4.Turn

open Bytes L1.Stun

/-! ## Addresses -/

/-- mirrors webrtc/base/ipaddress.cc:89-112 -/
def ipLt : IPAddress → IPAddress → Bool
  | .unspec, .unspec => false
  | .unspec, _ => true
  | .ipv4 _, .unspec => false
  | .ipv4 a, .ipv4 b => a < b
  | .ipv4 _, .ipv6 .. => true
  | .ipv6 a b c d, .ipv6 a' b' c' d' =>
    a < a' || a == a' && (b < b' || b == b' && (c < c' || c == c' && d < d'))
  | .ipv6 .., _ => false

/-- mirrors webrtc/base/ipaddress.cc:37-38, 273-283 -/
def ipIsAny : IPAddress → Bool
  | .unspec => false
  | .ipv4 a => a == 0
  | .ipv6 a b c d => a == 0 && b == 0 && d == 0 && (c == 0 || c == 0xFFFF)

/-- mirrors webrtc/base/ipaddress.cc:309-311 -/
def ipIsUnspec (ip : IPAddress) : Bool := ip == .unspec

/-- `operator<` of strings. -/
def stringLt : Bytes → Bytes → Bool
  | _, [] => false
  | [], _ :: _ => true
  | a :: as, b :: bs => a < b || a == b && stringLt as bs

/-- `rtc::SocketAddress`, with the name that an address without a number has.
mirrors webrtc/base/socketaddress.h:200-205 -/
structure HostAddress where
  ip : IPAddress := .unspec
  hostname : Bytes := []
  port : UInt16 := 0
  deriving DecidableEq

namespace HostAddress

/-- mirrors webrtc/base/socketaddress.cc:229-239 -/
def lt (a b : HostAddress) : Bool :=
  if a.ip ≠ b.ip then ipLt a.ip b.ip
  else if (ipIsAny a.ip || ipIsUnspec a.ip) ∧ a.hostname ≠ b.hostname then
    stringLt a.hostname b.hostname
  else a.port < b.port

/-- mirrors webrtc/base/socketaddress.cc:225-227, 241-248 -/
def eq (a b : HostAddress) : Bool :=
  (a.ip == b.ip && (!ipIsAny a.ip && !ipIsUnspec a.ip || a.hostname == b.hostname)) &&
    a.port == b.port

end HostAddress

/-! ## Connections -/

/-- mirrors webrtc/p2p/base/portinterface.h:29-34 -/
def ProtocolType.value : ProtocolType → Nat
  | .udp => 0
  | .tcp => 1
  | .ssltcp => 2

/-- mirrors webrtc/p2p/base/turnserver.h:41-58 -/
structure TurnServerConnection where
  src : HostAddress := {}
  dst : HostAddress := {}
  proto : ProtocolType := .udp
  deriving DecidableEq

namespace TurnServerConnection

/-- mirrors webrtc/p2p/base/turnserver.cc:541-544 -/
def lt (a b : TurnServerConnection) : Bool :=
  a.src.lt b.src || a.dst.lt b.dst || a.proto.value < b.proto.value

/-- mirrors webrtc/p2p/base/turnserver.cc:537-539 -/
def eq (a b : TurnServerConnection) : Bool :=
  a.src.eq b.src && a.dst.eq b.dst && a.proto == b.proto

/-- In none of the three above. -/
def Below (a b : TurnServerConnection) : Prop :=
  b.src.lt a.src = false ∧ b.dst.lt a.dst = false ∧ a.proto.value ≤ b.proto.value

def Comparable (S : TurnServerConnection → Prop) : Prop :=
  ∀ a b, S a → S b → Below a b ∨ Below b a

end TurnServerConnection

/-! ## The table of allocations -/

/-- `allocations_`, and the allocations there are with their connections. -/
structure AllocationTable where
  allocations : List (TurnServerConnection × Nat) := []
  live : List (TurnServerConnection × Nat) := []
  deriving DecidableEq

/-- `search` is the shape the tree has at the moment, `a` the address of the allocation. -/
inductive TableEvent where
  | create (search : Search TurnServerConnection) (conn : TurnServerConnection) (a : Nat)
  | destroy (search : Search TurnServerConnection) (a : Nat)

namespace AllocationTable

open TurnServerConnection (Comparable)

variable (s : AllocationTable)

/-- mirrors webrtc/p2p/base/turnserver.cc:430-433 -/
def findAllocation (search : Search TurnServerConnection) (conn : TurnServerConnection) :
    Option Nat :=
  (ComparedMap.find? search TurnServerConnection.lt Prod.fst conn s.allocations).map Prod.snd

/-- An allocation is created for a connection that has none.
mirrors webrtc/p2p/base/turnserver.cc:256-264, 435-450, 502-516 -/
def next : TableEvent → Option AllocationTable
  | .create search conn a =>
    if s.findAllocation search conn = none ∧ a ∉ s.live.map Prod.snd then
      some {
        allocations := ComparedMap.insert search TurnServerConnection.lt Prod.fst (conn, a)
          s.allocations
        live := s.live ++ [(conn, a)] }
    else none
  | .destroy search a =>
    match s.live.find? (·.2 == a) with
    | none => none
    | some e =>
      some {
        allocations := ComparedMap.erase search TurnServerConnection.lt Prod.fst e.1 s.allocations
        live := s.live.filter (·.2 ≠ a) }

def system : LTS AllocationTable TableEvent := .ofFn (· = {}) next

/-- The connections of the clients are of the set. -/
def Of (S : TurnServerConnection → Prop) : TableEvent → Prop
  | .create _ conn _ => S conn
  | .destroy .. => True

/-- The allocation found is the one there is for an equal connection. -/
def Identifies (conn : TurnServerConnection) : Prop :=
  ∀ search a, s.findAllocation search conn = some a ↔ ∃ e ∈ s.live, e.1.eq conn = true ∧ e.2 = a

end AllocationTable
/-! ## Addresses are in a linear order -/

def ipRank : IPAddress → Nat
  | .unspec => 0
  | .ipv4 a => a.toNat + 1
  | .ipv6 a b c d => ((a.toNat * 4294967296 + b.toNat) * 4294967296 + c.toNat) * 4294967296 +
      d.toNat + 4294967297

theorem ipLt_iff (x y : IPAddress) : ipLt x y = true ↔ ipRank x < ipRank y := by
  cases x with
  | unspec => cases y <;> simp [ipLt, ipRank]
  | ipv4 a =>
    cases y with
    | unspec => simp [ipLt, ipRank]
    | ipv4 b => simp [ipLt, ipRank, UInt32.lt_iff_toNat_lt]
    | ipv6 a' b' c' d' =>
      have ha := a.toNat_lt
      simp only [ipLt, ipRank, true_iff]
      omega
  | ipv6 a b c d =>
    cases y with
    | unspec => simp [ipLt, ipRank]
    | ipv4 e =>
      have he := e.toNat_lt
      simp only [ipLt, ipRank, Bool.false_eq_true, false_iff]
      omega
    | ipv6 a' b' c' d' =>
      have hb := b.toNat_lt
      have hc := c.toNat_lt
      have hd := d.toNat_lt
      have hb' := b'.toNat_lt
      have hc' := c'.toNat_lt
      have hd' := d'.toNat_lt
      simp only [ipLt, ipRank, Bool.or_eq_true, Bool.and_eq_true, decide_eq_true_eq, beq_iff_eq,
        UInt32.lt_iff_toNat_lt, ← UInt32.toNat_inj]
      omega

theorem ipRank_inj {x y : IPAddress} (h : ipRank x = ipRank y) : x = y := by
  cases x with
  | unspec => cases y <;> simp [ipRank] at h ⊢
  | ipv4 a =>
    cases y with
    | unspec => simp [ipRank] at h
    | ipv4 b =>
      simp only [ipRank, Nat.add_right_cancel_iff, UInt32.toNat_inj] at h
      rw [h]
    | ipv6 a' b' c' d' =>
      have ha := a.toNat_lt
      simp only [ipRank] at h
      omega
  | ipv6 a b c d =>
    cases y with
    | unspec => simp [ipRank] at h
    | ipv4 e =>
      have he := e.toNat_lt
      simp only [ipRank] at h
      omega
    | ipv6 a' b' c' d' =>
      have hb := b.toNat_lt
      have hc := c.toNat_lt
      have hd := d.toNat_lt
      have hb' := b'.toNat_lt
      have hc' := c'.toNat_lt
      have hd' := d'.toNat_lt
      simp only [ipRank] at h
      have h1 : a.toNat = a'.toNat := by omega
      have h2 : b.toNat = b'.toNat := by omega
      have h3 : c.toNat = c'.toNat := by omega
      have h4 : d.toNat = d'.toNat := by omega
      rw [UInt32.toNat_inj] at h1 h2 h3 h4
      rw [h1, h2, h3, h4]

theorem stringLt_iff (a b : Bytes) :
    stringLt a b = true ↔ a.map UInt8.toNat < b.map UInt8.toNat := by
  induction a generalizing b with
  | nil =>
    cases b with
    | nil => simp [stringLt]
    | cons x b => simp [stringLt]
  | cons x a ih =>
    cases b with
    | nil => simp [stringLt]
    | cons y b =>
      rw [stringLt, Bool.or_eq_true, Bool.and_eq_true, decide_eq_true_eq, beq_iff_eq, ih,
        List.map_cons, List.map_cons, List.cons_lt_cons_iff, UInt8.lt_iff_toNat_lt,
        ← UInt8.toNat_inj]

namespace HostAddress

/-- The name counts only for an address without a number. -/
def wild (a : HostAddress) : Bool := ipIsAny a.ip || ipIsUnspec a.ip

def rank (a : HostAddress) : ℕ ×ₗ List ℕ ×ₗ ℕ :=
  toLex (ipRank a.ip,
    toLex (if a.wild then a.hostname.map UInt8.toNat else [], a.port.toNat))

theorem hostname_inj {a b : Bytes} : a.map UInt8.toNat = b.map UInt8.toNat ↔ a = b :=
  (List.map_injective_iff.2 fun _ _ => UInt8.toNat_inj.1).eq_iff

theorem lt_iff (a b : HostAddress) : a.lt b = true ↔ a.rank < b.rank := by
  rw [rank, rank, Prod.Lex.toLex_lt_toLex, Prod.Lex.toLex_lt_toLex, lt]
  by_cases hip : a.ip = b.ip
  · have hwild : a.wild = b.wild := by rw [wild, wild, hip]
    rw [if_neg (not_not_intro hip), hip, ← hwild]
    simp only [lt_irrefl, false_or, true_and]
    split
    · rename_i hname
      have ha : a.wild = true := by
        rw [wild, hip]
        exact hname.1
      rw [if_pos ha, if_pos ha, hostname_inj, stringLt_iff]
      simp [hname.2]
    · rename_i hname
      have hport : (a.port < b.port) = (a.port.toNat < b.port.toNat) :=
        propext UInt16.lt_iff_toNat_lt
      have hsame : (if a.wild = true then a.hostname.map UInt8.toNat else []) =
          if a.wild = true then b.hostname.map UInt8.toNat else [] := by
        split
        · rename_i ha
          rw [wild, hip] at ha
          rw [hostname_inj]
          by_contra hc
          exact hname ⟨ha, hc⟩
        · rfl
      rw [hsame, decide_eq_true_eq, hport]
      simp
  · have hne : ipRank a.ip ≠ ipRank b.ip := fun hc => hip (ipRank_inj hc)
    rw [if_pos hip, ipLt_iff]
    simp [hne]

theorem eq_iff (a b : HostAddress) : a.eq b = true ↔ a.rank = b.rank := by
  have hrank : a.rank = b.rank ↔ ipRank a.ip = ipRank b.ip ∧
      (if a.wild = true then a.hostname.map UInt8.toNat else []) =
        (if b.wild = true then b.hostname.map UInt8.toNat else []) ∧
        a.port.toNat = b.port.toNat := by
    simp only [rank, EmbeddingLike.apply_eq_iff_eq, Prod.mk.injEq]
  have hip : ipRank a.ip = ipRank b.ip ↔ a.ip = b.ip := ⟨ipRank_inj, congrArg _⟩
  rw [hrank, hip, eq, Bool.and_eq_true, Bool.and_eq_true, beq_iff_eq, beq_iff_eq, UInt16.toNat_inj,
    and_assoc]
  refine and_congr_right fun hsame => and_congr_left fun _ => ?_
  have hwild : a.wild = b.wild := by rw [wild, wild, hsame]
  rw [← hwild, wild]
  cases ipIsAny a.ip <;> cases ipIsUnspec a.ip <;> simp [hostname_inj]

end HostAddress

namespace TurnServerConnection

/-! ## Connections are not -/

def rank (c : TurnServerConnection) :
    (ℕ ×ₗ List ℕ ×ₗ ℕ) × (ℕ ×ₗ List ℕ ×ₗ ℕ) × ℕ := (c.src.rank, c.dst.rank, c.proto.value)

theorem rank_le_iff (a b : TurnServerConnection) : a.rank ≤ b.rank ↔ Below a b := by
  rw [Below, ← Bool.not_eq_true, ← Bool.not_eq_true, HostAddress.lt_iff, HostAddress.lt_iff,
    not_lt, not_lt, rank, rank, Prod.mk_le_mk, Prod.mk_le_mk]

/-- To be less is not to be above. -/
theorem lt_iff (a b : TurnServerConnection) : a.lt b = true ↔ ¬ b.rank ≤ a.rank := by
  rw [rank_le_iff, Below, lt, Bool.or_eq_true, Bool.or_eq_true, decide_eq_true_eq,
    ← Bool.not_eq_true, ← Bool.not_eq_true, not_and_or, not_and_or, not_not, not_not, not_le,
    or_assoc]

theorem value_inj : ∀ {p q : ProtocolType}, p.value = q.value ↔ p = q := by
  intro p q
  cases p <;> cases q <;> simp [ProtocolType.value]

theorem eq_iff (a b : TurnServerConnection) : a.eq b = true ↔ a.rank = b.rank := by
  rw [eq, Bool.and_eq_true, Bool.and_eq_true, HostAddress.eq_iff, HostAddress.eq_iff, beq_iff_eq,
    rank, rank, Prod.mk.injEq, Prod.mk.injEq, value_inj, and_assoc]

/-- The comparison is an order of the connections that are comparable. -/
theorem order_iff (S : TurnServerConnection → Prop) :
    (StrictWeakOn lt S ∧ ∀ a b, S a → S b →
        ((a.lt b = false ∧ b.lt a = false) ↔ a.eq b = true)) ↔ Comparable S := by
  have h := strictWeakOn_iff lt_iff S
  simp only [← eq_iff, rank_le_iff] at h
  exact h

end TurnServerConnection

/-! ## Runs -/

namespace AllocationTable

open TurnServerConnection (Comparable)

variable {S : TurnServerConnection → Prop} {s s' : AllocationTable} {ev : TableEvent}

/-- The map holds the allocations there are, in order. -/
structure Inv (S : TurnServerConnection → Prop) (s : AllocationTable) : Prop where
  sorted : ComparedMap.Sorted TurnServerConnection.lt Prod.fst S s.allocations
  same : ∀ e, e ∈ s.allocations ↔ e ∈ s.live
  addresses : (s.live.map Prod.snd).Nodup

theorem inv_create (hS : Comparable S) (h : Inv S s) {search : Search TurnServerConnection}
    {conn : TurnServerConnection} {a : Nat} (hconn : S conn)
    (hs : s.next (.create search conn a) = some s') : Inv S s' := by
  obtain ⟨horder, -⟩ := (TurnServerConnection.order_iff S).2 hS
  simp only [next] at hs
  split at hs
  · rename_i hnew
    cases hs
    have hnone := Option.map_eq_none_iff.1 hnew.1
    constructor
    · exact ComparedMap.insert_sorted horder h.sorted (x := (conn, a)) hconn hnone
    · intro e
      rw [ComparedMap.mem_insert, h.same, List.mem_append, List.mem_singleton, or_comm]
    · rw [List.map_append]
      refine List.nodup_append.2 ⟨h.addresses, List.nodup_singleton a, ?_⟩
      intro b hb c hc hbc
      rw [List.map_singleton, List.mem_singleton] at hc
      rw [hbc, hc] at hb
      exact hnew.2 hb
  · cases hs

/-- The key of an allocation takes out that allocation. -/
theorem apart_iff (hS : Comparable S) (h : Inv S s) {e y : TurnServerConnection × Nat}
    (he : e ∈ s.live) (hy : y ∈ s.allocations) :
    (y.1.lt e.1 = true ∨ e.1.lt y.1 = true) ↔ y.2 ≠ e.2 := by
  obtain ⟨horder, -⟩ := (TurnServerConnection.order_iff S).2 hS
  have he' := (h.same e).2 he
  constructor
  · intro hlt heq
    have hye : y = e := List.inj_on_of_nodup_map h.addresses ((h.same y).1 hy) he heq
    rw [hye, horder.irrefl (h.sorted.keys e he')] at hlt
    simp at hlt
  · intro hne
    have hye : y ≠ e := fun hc => hne (by rw [hc])
    obtain ⟨i, hi, rfl⟩ := List.getElem_of_mem hy
    obtain ⟨j, hj, rfl⟩ := List.getElem_of_mem he'
    have hij : i ≠ j := by
      rintro rfl
      exact hye rfl
    have hpair := List.pairwise_iff_getElem.1 h.sorted.order
    rcases Nat.lt_or_gt_of_ne hij with hlt | hlt
    · exact .inl (hpair i j hi hj hlt)
    · exact .inr (hpair j i hj hi hlt)

theorem inv_destroy (hS : Comparable S) (h : Inv S s) {search : Search TurnServerConnection}
    {a : Nat} (hs : s.next (.destroy search a) = some s') : Inv S s' := by
  obtain ⟨horder, -⟩ := (TurnServerConnection.order_iff S).2 hS
  simp only [next] at hs
  split at hs
  · cases hs
  · rename_i e hfound
    cases hs
    have he := List.mem_of_find?_eq_some hfound
    have hea : e.2 = a := by simpa using List.find?_some hfound
    have hkey := h.sorted.keys e ((h.same e).2 he)
    constructor
    · exact ComparedMap.erase_sorted horder h.sorted hkey
    · intro y
      rw [ComparedMap.mem_erase horder h.sorted hkey, List.mem_filter, ← h.same,
        decide_eq_true_eq, ← hea]
      exact and_congr_right fun hy => apart_iff hS h he hy
    · exact h.addresses.sublist (List.filter_sublist.map _)

theorem system_inductive (hS : Comparable S) :
    (system.within fun _ => Of S).Inductive (Inv S) where
  init s h := by
    rw [h]
    exact ⟨⟨fun _ hx => (nomatch hx), .nil⟩, fun _ => Iff.rfl, .nil⟩
  step s ev s' h hs := by
    cases ev with
    | create search conn a => exact inv_create hS h hs.1 hs.2
    | destroy search a => exact inv_destroy hS h hs.2

theorem Inv.identifies (hS : Comparable S) (h : Inv S s) {conn : TurnServerConnection}
    (hconn : S conn) : s.Identifies conn := by
  obtain ⟨horder, hequiv⟩ := (TurnServerConnection.order_iff S).2 hS
  intro search a
  have hfound {e : TurnServerConnection × Nat} :
      ComparedMap.find? search TurnServerConnection.lt Prod.fst conn s.allocations = some e ↔
        e ∈ s.live ∧ e.1.eq conn = true := by
    rw [ComparedMap.find?_eq_some_iff horder h.sorted hconn, h.same]
    refine and_congr_right fun he => ?_
    exact hequiv e.1 conn (h.sorted.keys e ((h.same e).2 he)) hconn
  rw [findAllocation, Option.map_eq_some_iff]
  constructor
  · rintro ⟨e, he, rfl⟩
    obtain ⟨hmem, heq⟩ := hfound.1 he
    exact ⟨e, hmem, heq, rfl⟩
  · rintro ⟨e, hmem, heq, rfl⟩
    exact ⟨e, hfound.2 ⟨hmem, heq⟩, rfl⟩

/-- Of connections that are comparable, and of no others. -/
theorem connections_identify (S : TurnServerConnection → Prop) :
    ((StrictWeakOn TurnServerConnection.lt S ∧ ∀ a b, S a → S b →
        ((a.lt b = false ∧ b.lt a = false) ↔ a.eq b = true)) ↔ Comparable S) ∧
      (Comparable S → ∀ s, (system.within fun _ => Of S).Reachable s →
        ∀ conn, S conn → s.Identifies conn) :=
  ⟨TurnServerConnection.order_iff S, fun hS s hr _ hconn =>
    ((system_inductive hS).reachable s hr).identifies hS hconn⟩

end AllocationTable

/-! ## Clients -/

/-- A connection of the server: its addresses have numbers and no names. -/
def Connection.named (c : Connection) : TurnServerConnection where
  src := { ip := c.src.ip, port := c.src.port }
  dst := { ip := c.dst.ip, port := c.dst.port }
  proto := c.proto

/-- The server may look for the connection itself. -/
theorem Connection.named_eq_iff (a b : Connection) : a.named.eq b.named = true ↔ a = b := by
  obtain ⟨⟨ip, port⟩, ⟨ip', port'⟩, proto⟩ := a
  obtain ⟨⟨jp, qort⟩, ⟨jp', qort'⟩, qroto⟩ := b
  simp [named, TurnServerConnection.eq, HostAddress.eq, and_assoc]

/-- Where an allocation is found, the server finds the one whose connection is equal. -/
theorem AllocationTable.Identifies.server {s : AllocationTable} {server : Server}
    {address : Allocation → Nat} {conn : Connection} (h : s.Identifies conn.named)
    (hlive : s.live = server.allocations.map fun a => (a.conn.named, address a))
    {search : Search TurnServerConnection} {a : Allocation}
    (hfound : server.findAllocation conn = some a) :
    s.findAllocation search conn.named = some (address a) := by
  refine (h search _).2 ⟨(a.conn.named, address a), ?_, ?_, rfl⟩
  · rw [hlive]
    exact List.mem_map_of_mem (List.mem_of_find?_eq_some hfound)
  · rw [Connection.named_eq_iff]
    simpa using List.find?_some hfound


/-- A UDP socket has no remote address; that of a TCP socket is the source of its packets. -/
def udpClient (src : HostAddress) : TurnServerConnection := { src, proto := .udp }

def tcpClient (src : HostAddress) : TurnServerConnection := { src, dst := src, proto := .tcp }

/-- An address without number, name and port is above no other. -/
theorem nil_least (a : HostAddress) : a.lt {} = false := by
  have hip : ipLt a.ip .unspec = false := by cases a.ip <;> rfl
  have hname : stringLt a.hostname [] = false := by cases a.hostname <;> rfl
  rw [HostAddress.lt]
  split
  · exact hip
  · split
    · exact hname
    · simp

theorem lt_total (a b : HostAddress) : a.lt b = false ∨ b.lt a = false := by
  rw [← Bool.not_eq_true, ← Bool.not_eq_true, HostAddress.lt_iff, HostAddress.lt_iff, not_lt, not_lt]
  exact le_total b.rank a.rank

/-- UDP clients are comparable with each other, TCP clients too, and the two kinds exactly if no
TCP source is below a UDP source. -/
theorem clients_comparable_iff (udp tcp : HostAddress → Prop) :
    TurnServerConnection.Comparable (fun c =>
        (∃ src, udp src ∧ c = udpClient src) ∨ ∃ src, tcp src ∧ c = tcpClient src) ↔
      ∀ u t, udp u → tcp t → t.lt u = false := by
  constructor
  · intro h u t hu ht
    rcases h _ _ (.inl ⟨u, hu, rfl⟩) (.inr ⟨t, ht, rfl⟩) with ⟨hsrc, -, -⟩ | ⟨-, -, hproto⟩
    · exact hsrc
    · exact absurd hproto (by simp [tcpClient, udpClient, ProtocolType.value])
  · rintro h a b (⟨u, hu, rfl⟩ | ⟨t, ht, rfl⟩) (⟨u', hu', rfl⟩ | ⟨t', ht', rfl⟩)
    · exact (lt_total u' u).imp (fun hle => ⟨hle, nil_least _, Nat.le_refl _⟩)
        fun hle => ⟨hle, nil_least _, Nat.le_refl _⟩
    · exact .inl ⟨h u t' hu ht', nil_least _, Nat.zero_le _⟩
    · exact .inr ⟨h u' t hu' ht, nil_least _, Nat.zero_le _⟩
    · exact (lt_total t' t).imp (fun hle => ⟨hle, hle, Nat.le_refl _⟩)
        fun hle => ⟨hle, hle, Nat.le_refl _⟩

/-! ## A TCP client above a UDP client, and one below -/

/-- A client of each kind, the TCP client above the UDP client. -/
def Ordered (c : TurnServerConnection) : Prop :=
  (∃ src, src = { ip := .ipv4 0x0A000001, port := 5000 } ∧ c = udpClient src) ∨
    ∃ src, src = { ip := .ipv4 0x0A000002, port := 5000 } ∧ c = tcpClient src

def orderedEvents : List TableEvent :=
  [.create .last (udpClient { ip := .ipv4 0x0A000001, port := 5000 }) 1,
    .create .linear (tcpClient { ip := .ipv4 0x0A000002, port := 5000 }) 2, .destroy .last 1]

theorem orderedEvents_run : (orderedEvents.foldlM AllocationTable.next {}).isSome = true := by
  decide

def orderedTable : AllocationTable := (orderedEvents.foldlM AllocationTable.next {}).get orderedEvents_run

/-- The one that is left is found, the other not any more. -/
theorem ordered_identified :
    orderedTable.live.map Prod.snd = [2] ∧
      ∀ conn, Ordered conn → orderedTable.Identifies conn := by
  have hS : TurnServerConnection.Comparable Ordered :=
    (clients_comparable_iff (· = { ip := .ipv4 0x0A000001, port := 5000 })
      (· = { ip := .ipv4 0x0A000002, port := 5000 })).2 (by rintro u t rfl rfl; decide)
  have hrun : (AllocationTable.system.within fun _ => AllocationTable.Of Ordered).Run {}
      orderedEvents orderedTable := by
    refine LTS.Run.keep (LTS.Run.of_foldlM (Option.some_get orderedEvents_run).symm) ?_
    intro _ ev hev
    simp only [orderedEvents, List.mem_cons, List.not_mem_nil, or_false] at hev
    rcases hev with rfl | rfl | rfl
    · exact .inl ⟨_, rfl, rfl⟩
    · exact .inr ⟨_, rfl, rfl⟩
    · exact trivial
  exact ⟨by decide, (AllocationTable.connections_identify Ordered).2 hS _ ⟨{}, orderedEvents, rfl, hrun⟩⟩


def lowTcp : TurnServerConnection := tcpClient { ip := .ipv4 0x0A000001, port := 5000 }

def highUdp : TurnServerConnection := udpClient { ip := .ipv4 0x0A000002, port := 5000 }

/-- The two are allocated one after the other, the UDP client first. -/
def clientEvents : List TableEvent :=
  [.create .last highUdp 1, .create .last lowTcp 2]

theorem clientEvents_run : (clientEvents.foldlM AllocationTable.next {}).isSome = true := by decide

def bothAllocated : AllocationTable := (clientEvents.foldlM AllocationTable.next {}).get clientEvents_run

/-- Each is less than the other; and in a tree with the UDP client at the root the allocation of
the TCP client is not found. -/
theorem tcp_client_lost :
    highUdp.lt lowTcp = true ∧ lowTcp.lt highUdp = true ∧
      AllocationTable.system.Reachable bothAllocated ∧ (lowTcp, 2) ∈ bothAllocated.live ∧
        bothAllocated.findAllocation .last lowTcp = none := by
  refine ⟨by decide, by decide, ⟨{}, clientEvents, rfl,
    LTS.Run.of_foldlM (Option.some_get clientEvents_run).symm⟩, by decide, by decide⟩

end RtcCore.L4.Turn
