import RtcCore.L4P2p.P2PTransportChannel

/-!
# The priority of a candidate pair

`Connection::priority()` adds 32-bit numbers before it widens them. The sum loses
its top bit where one of the two candidates has a priority of 2 ^ 31 or more, and a
pair with such a candidate ranks below pairs that it should win against.

Results:
* `priority_mirror`: both agents give a pair the same value, whatever it is.
* `ranksAlike_iff`: the value is the formula's and the pairs are in its order exactly
  for priorities below 2 ^ 31.
* `getPriority_lt`, `small_iff_remote`: what an agent computes for its own candidates is
  below, so what the peer sends decides.
-/
namespace RtcCore.L4.Ice

namespace Connection

variable {a b a' b' : Connection}

/-- The connections of the controlling and of the controlled agent for one pair. -/
structure Mirrors (a b : Connection) : Prop where
  controlling : a.iceRole = .controlling
  controlled : b.iceRole = .controlled
  local_eq : a.localPriority = b.remotePriority
  remote_eq : a.remotePriority = b.localPriority

/-- `G` and `D`. -/
def ofControlling (c : Connection) : UInt32 :=
  if c.iceRole = .controlling then c.localPriority else c.remotePriority

def ofControlled (c : Connection) : UInt32 :=
  if c.iceRole = .controlling then c.remotePriority else c.localPriority

/-- The formula of the comment, on 64-bit numbers.
mirrors webrtc/p2p/base/port.cc:895-899 -/
def exactPriority (c : Connection) : Nat :=
  (4294967296 * min c.ofControlling.toNat c.ofControlled.toNat +
    2 * max c.ofControlling.toNat c.ofControlled.toNat +
    if c.ofControlled < c.ofControlling then 1 else 0) % 18446744073709551616

/-- First by the smaller, then by the larger priority. -/
def InOrder (c c' : Connection) : Prop :=
  let low (c : Connection) := min c.ofControlling.toNat c.ofControlled.toNat
  let high (c : Connection) := max c.ofControlling.toNat c.ofControlled.toNat
  (low c < low c' → c.priority < c'.priority) ∧
    (low c = low c' → high c < high c' → c.priority < c'.priority)

/-- Two pairs at two agents: the formula's values, the same at both agents, in its order. -/
structure RanksAlike (a b a' b' : Connection) : Prop where
  exact : ∀ c ∈ [a, b, a', b'], c.priority = c.exactPriority
  same : a.priority = b.priority
  same' : a'.priority = b'.priority
  order : InOrder a a' ∧ InOrder a' a

def Small (c : Connection) : Prop :=
  c.localPriority.toNat < 2147483648 ∧ c.remotePriority.toNat < 2147483648

theorem toNat_min (x y : UInt32) : (min x y).toNat = min x.toNat y.toNat := by
  show (if x ≤ y then x else y).toNat = _
  rw [apply_ite UInt32.toNat, Nat.min_def]
  rfl

theorem toNat_max (x y : UInt32) : (max x y).toNat = max x.toNat y.toNat := by
  show (if x ≤ y then y else x).toNat = _
  rw [apply_ite UInt32.toNat, Nat.max_def]
  rfl

theorem pair_eq (g d : UInt32) : priority.pair g d = min g.toNat d.toNat * 4294967296 +
    (2 * max g.toNat d.toNat + if d < g then 1 else 0) % 4294967296 := by
  unfold priority.pair
  rw [toNat_min, UInt32.toNat_add, UInt32.toNat_mul, toNat_max]
  split <;> simp only [UInt32.reduceToNat] <;> omega

theorem priority_eq (h : a.iceRole ≠ .unknown) :
    a.priority = priority.pair a.ofControlling a.ofControlled := by
  unfold priority ofControlling ofControlled
  cases hr : a.iceRole with
  | unknown => exact absurd hr h
  | controlling => rfl
  | controlled => rfl

/-- Both agents give a pair the same value. -/
theorem priority_mirror (h : Mirrors a b) : a.priority = b.priority := by
  unfold priority
  rw [h.controlling, h.controlled]
  dsimp only
  rw [h.local_eq, h.remote_eq]

theorem small_iff (a : Connection) :
    a.Small ↔ a.ofControlling.toNat < 2147483648 ∧ a.ofControlled.toNat < 2147483648 := by
  unfold Small ofControlling ofControlled
  split
  · rfl
  · exact and_comm

theorem exact_iff (h : a.iceRole ≠ .unknown) : a.priority = a.exactPriority ↔ a.Small := by
  have hg := a.ofControlling.toNat_lt
  have hd := a.ofControlled.toNat_lt
  rw [small_iff, priority_eq h, pair_eq, exactPriority]
  split <;> omega

theorem inOrder_of_small (h : a.iceRole ≠ .unknown) (h' : a'.iceRole ≠ .unknown)
    (hs : a.Small) (hs' : a'.Small) : InOrder a a' := by
  rw [small_iff] at hs hs'
  unfold InOrder
  rw [priority_eq h, priority_eq h', pair_eq, pair_eq]
  dsimp only
  split <;> split <;> omega

theorem Mirrors.small (h : Mirrors a b) (hs : a.Small) : b.Small :=
  ⟨h.remote_eq ▸ hs.2, h.local_eq ▸ hs.1⟩

theorem ranksAlike_iff (h : Mirrors a b) (h' : Mirrors a' b') :
    RanksAlike a b a' b' ↔ a.Small ∧ a'.Small := by
  have ha : a.iceRole ≠ .unknown := by rw [h.controlling]; exact nofun
  have ha' : a'.iceRole ≠ .unknown := by rw [h'.controlling]; exact nofun
  have hb : b.iceRole ≠ .unknown := by rw [h.controlled]; exact nofun
  have hb' : b'.iceRole ≠ .unknown := by rw [h'.controlled]; exact nofun
  constructor
  · intro hr
    exact ⟨(exact_iff ha).1 (hr.exact a (by simp)), (exact_iff ha').1 (hr.exact a' (by simp))⟩
  · rintro ⟨hs, hs'⟩
    refine ⟨fun c hc => ?_, priority_mirror h, priority_mirror h', inOrder_of_small ha ha' hs hs',
      inOrder_of_small ha' ha hs' hs⟩
    simp only [List.mem_cons, List.not_mem_nil, or_false] at hc
    rcases hc with rfl | rfl | rfl | rfl
    · exact (exact_iff ha).2 hs
    · exact (exact_iff hb).2 (h.small hs)
    · exact (exact_iff ha').2 hs'
    · exact (exact_iff hb').2 (h'.small hs')

/-- The two ends of a pair with these priorities. -/
def atController (g d : UInt32) : Connection :=
  ⟨0, 0, .controlling, g, d, 0, 0, .init, .init, false, 3000⟩

def atControlled (g d : UInt32) : Connection :=
  ⟨0, 0, .controlled, d, g, 0, 0, .init, .init, false, 3000⟩

theorem ranksAlike_hosts :
    RanksAlike (atController 2130706431 1862270975) (atControlled 2130706431 1862270975)
      (atController 1862270975 1694498815) (atControlled 1862270975 1694498815) :=
  (ranksAlike_iff ⟨rfl, rfl, rfl, rfl⟩ ⟨rfl, rfl, rfl, rfl⟩).2
    ⟨⟨by decide, by decide⟩, by decide, by decide⟩

/-- A peer that sends 2 ^ 31 loses the pair to one with a lower priority at both ends. -/
theorem ranksAlike_top_bit : ¬ ∀ a b a' b' : Connection, Mirrors a b → Mirrors a' b' →
    RanksAlike a b a' b' := fun hall =>
  absurd ((hall (atController 1 1) (atControlled 1 1) (atController 1 2147483648)
    (atControlled 1 2147483648) ⟨rfl, rfl, rfl, rfl⟩ ⟨rfl, rfl, rfl, rfl⟩).order.1.2
      (by decide) (by decide)) (by decide)

end Connection

/-! ## Where the priorities come from -/

/-- The NIC preference, the precedence of the address and the relay's, as 32 bits.
mirrors webrtc/p2p/base/candidate.h:182-195 -/
def localPreference (networkAdapterPreference addrPref relayPreference : UInt32) : UInt32 :=
  ((networkAdapterPreference <<< 8) ||| addrPref) + relayPreference

/-- mirrors webrtc/p2p/base/candidate.h:197-199 -/
def getPriority (typePreference localPreference component : UInt32) : UInt32 :=
  (typePreference <<< 24) ||| (localPreference <<< 8) ||| (256 - component)

/-- A type preference below 128 leaves the top bit of an agent's own priorities clear. -/
theorem getPriority_lt {typePreference localPreference component : UInt32}
    (ht : typePreference.toNat < 128) (hl : localPreference.toNat < 65536)
    (hc : 1 ≤ component.toNat) (hc' : component.toNat ≤ 256) :
    (getPriority typePreference localPreference component).toNat < 2147483648 := by
  have htype : (typePreference <<< 24).toNat < 2 ^ 31 := by
    rw [UInt32.toNat_shiftLeft, Nat.shiftLeft_eq]
    simp only [UInt32.reduceToNat, Nat.reduceMod]
    omega
  have hlocal : (localPreference <<< 8).toNat < 2 ^ 31 := by
    rw [UInt32.toNat_shiftLeft, Nat.shiftLeft_eq]
    simp only [UInt32.reduceToNat, Nat.reduceMod]
    omega
  have hcomponent : (256 - component).toNat < 2 ^ 31 := by
    rw [UInt32.toNat_sub]
    simp only [UInt32.reduceToNat]
    omega
  unfold getPriority
  rw [UInt32.toNat_or, UInt32.toNat_or]
  exact Nat.or_lt_two_pow (Nat.or_lt_two_pow htype hlocal) hcomponent

/-- The peer decides: what it signals or sends as PRIORITY is taken as it comes.
mirrors webrtc/p2p/base/p2ptransportchannel.cc:520-538 -/
theorem Connection.small_iff_remote {c : Connection}
    {typePreference localPreference component : UInt32}
    (hlocal : c.localPriority = getPriority typePreference localPreference component)
    (ht : typePreference.toNat < 128) (hl : localPreference.toNat < 65536)
    (hc : 1 ≤ component.toNat) (hc' : component.toNat ≤ 256) :
    c.Small ↔ c.remotePriority.toNat < 2147483648 := by
  unfold Connection.Small
  rw [hlocal]
  exact and_iff_right (getPriority_lt ht hl hc hc')

end RtcCore.L4.Ice
