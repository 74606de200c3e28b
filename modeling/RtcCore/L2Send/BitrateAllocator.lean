import RtcCore.Core.Ranked
import RtcCore.Core.FairShare
import Mathlib.Algebra.Group.Nat.Even
import Mathlib.Algebra.Order.BigOperators.Group.List

/-!
# Sharing the bitrate out (`bitrate_allocator.cc`)

`OnNetworkChanged` gives every observer its minimum and an equal share of what
is left; an observer whose maximum is below that gets its maximum, and the
rest of its share is divided among the observers still to come, which are
taken in the order of their maxima. Below the sum of the minima each observer
gets its minimum (where minima are enforced), or what is left of the bitrate
up to its minimum.

Every `uint32_t` result goes through a parameter: under `wrapping` it is the
code's, modulo 2^32; under `checked` a result outside of 32 bits, like a
division by zero under both, has no value.

Results:
* `wrapping_of_checked`: where no computation wraps, the code computes what
  `checked` does.
* `normalLoop_spec`: what the loop hands out, for every list and share.
* `onNetworkChanged_allocates`: fewer than 2^32 observers are each notified
  once, within their limits, never above the bitrate, and nothing wraps.
* `onNetworkChanged_conserves`: what is left over is rounding loss, unless the
  observer of the greatest maximum has reached it.
-/
namespace RtcCore.L2.BitrateAllocator

variable {O : Type}

/-- An entry of `bitrate_observers_`: the observer and the limits of its
`BitrateConfiguration`. -/
structure Observer (O : Type) where
  observer : O
  minBitrate : Nat
  maxBitrate : Nat
  deriving DecidableEq, Repr

/-- One call of `observer_->OnNetworkChanged`. -/
structure Notified (O : Type) where
  observer : O
  bitrate : Nat
  deriving DecidableEq, Repr

/-- What becomes of a `uint32_t` result. -/
abbrev Arith := Int → Option Nat

def wrapping : Arith := fun n => some (n % 4294967296).toNat

def checked : Arith := fun n => if 0 ≤ n ∧ n < 4294967296 then some n.toNat else none

def divide (a b : Nat) : Option Nat := if b = 0 then none else some (a / b)

/-- The sum of the minima, as the loop adds them up.
mirrors bitrate_allocator.cc:40-43 -/
def sumMin (u : Arith) : Nat → List (Observer O) → Option Nat
  | sum, [] => some sum
  | sum, c :: rest => do
    let sum ← u (sum + c.minBitrate)
    sumMin u sum rest

/-- The share once `remainder` is carried forward to those still to come.
mirrors bitrate_allocator.cc:163-167 -/
def carryForward (u : Arith) (numberOfObservers share remainder : Nat) : Option Nat :=
  if numberOfObservers ≠ 0 then u (share + (remainder / numberOfObservers : Nat)) else some share

/-- One turn per observer of the sorted list: the count, the share of each
observer, and the observers still to come.
mirrors bitrate_allocator.cc:155-178 -/
def normalLoop (u : Arith) : Nat → Nat → List (Observer O) → Option (List (Notified O))
  | _, _, [] => some []
  | numberOfObservers, share, c :: rest => do
    let numberOfObservers ← u (numberOfObservers - 1)
    let observerAllowance ← u (c.minBitrate + share)
    if c.maxBitrate < observerAllowance then
      let remainder ← u (observerAllowance - c.maxBitrate)
      let share ← carryForward u numberOfObservers share remainder
      let log ← normalLoop u numberOfObservers share rest
      return ⟨c.observer, c.maxBitrate⟩ :: log
    else
      let log ← normalLoop u numberOfObservers share rest
      return ⟨c.observer, observerAllowance⟩ :: log

/-- The order in which a `std::multimap` with the maxima as its keys holds the
observers: equal keys stay in the order they came in. -/
def byMax (observers : List (Observer O)) : List (Observer O) :=
  sortBy (fun a b => decide (a < b)) Observer.maxBitrate observers

/-- mirrors bitrate_allocator.cc:141-179 -/
def normalRateAllocation (u : Arith) (bitrate sum : Nat) (observers : List (Observer O)) :
    Option (List (Notified O)) := do
  let numberOfObservers ← u observers.length
  let spare ← u (bitrate - sum)
  let share ← divide spare numberOfObservers
  normalLoop u numberOfObservers share (byMax observers)

/-- mirrors bitrate_allocator.cc:193-202 -/
def lowLoop (u : Arith) : Nat → List (Observer O) → Option (List (Notified O))
  | _, [] => some []
  | remainder, c :: rest => do
    let allocation := min remainder c.minBitrate
    let remainder ← u (remainder - allocation)
    let log ← lowLoop u remainder rest
    return ⟨c.observer, allocation⟩ :: log

/-- mirrors bitrate_allocator.cc:181-204 -/
def lowRateAllocation (u : Arith) (enforceMinBitrate : Bool) (bitrate : Nat)
    (observers : List (Observer O)) : Option (List (Notified O)) :=
  if enforceMinBitrate then some (observers.map fun c => ⟨c.observer, c.minBitrate⟩)
  else lowLoop u bitrate observers

/-- mirrors bitrate_allocator.cc:32-48 -/
def onNetworkChanged (u : Arith) (enforceMinBitrate : Bool) (bitrate : Nat)
    (observers : List (Observer O)) : Option (List (Notified O)) :=
  if observers.isEmpty then some []
  else do
    let sum ← sumMin u 0 observers
    if bitrate ≤ sum then lowRateAllocation u enforceMinBitrate bitrate observers
    else normalRateAllocation u bitrate sum observers

/-! ## Where nothing wraps -/

/-- Where no result of `checked` is missing, the code computes the same. -/
def Arith.Le (u v : Arith) : Prop := ∀ n m, u n = some m → v n = some m

theorem checked_le_wrapping : Arith.Le checked wrapping := by
  intro n m h
  rw [checked] at h
  split at h
  · rename_i hn
    rw [wrapping, Int.emod_eq_of_lt hn.1 hn.2]
    exact h
  · cases h

theorem checked_of_lt {n : Nat} (h : n < 4294967296) : checked n = some n := by
  rw [checked, if_pos ⟨by omega, by omega⟩, Int.toNat_natCast]

theorem checked_sub {a b : Nat} (hle : b ≤ a) (h : a < 4294967296) :
    checked (a - b) = some (a - b) := by
  rw [← Int.ofNat_sub hle, checked_of_lt (by omega)]

theorem checked_add {a b : Nat} (h : a + b < 4294967296) : checked (a + b) = some (a + b) := by
  rw [← Int.natCast_add, checked_of_lt h]

variable {u v : Arith} {observers rest : List (Observer O)} {sum bitrate share n : Nat}

theorem sumMin_mono (h : Arith.Le u v) (observers : List (Observer O)) :
    ∀ {sum r}, sumMin u sum observers = some r → sumMin v sum observers = some r := by
  induction observers with
  | nil => exact fun hr => hr
  | cons c rest ih =>
    intro sum r hr
    obtain ⟨m, hm, hr⟩ := Option.bind_eq_some_iff.1 hr
    exact Option.bind_eq_some_iff.2 ⟨m, h _ _ hm, ih hr⟩

theorem lowLoop_mono (h : Arith.Le u v) (observers : List (Observer O)) :
    ∀ {remainder log}, lowLoop u remainder observers = some log →
      lowLoop v remainder observers = some log := by
  induction observers with
  | nil => exact fun hr => hr
  | cons c rest ih =>
    intro remainder log hr
    obtain ⟨m, hm, hr⟩ := Option.bind_eq_some_iff.1 hr
    obtain ⟨tail, htail, hr⟩ := Option.bind_eq_some_iff.1 hr
    exact Option.bind_eq_some_iff.2 ⟨m, h _ _ hm,
      Option.bind_eq_some_iff.2 ⟨tail, ih htail, hr⟩⟩

theorem carryForward_mono (h : Arith.Le u v) {remainder s : Nat}
    (hs : carryForward u n share remainder = some s) :
    carryForward v n share remainder = some s := by
  rw [carryForward] at hs ⊢
  by_cases hzero : n ≠ 0
  · rw [if_pos hzero] at hs ⊢
    exact h _ _ hs
  · rw [if_neg hzero] at hs ⊢
    exact hs

theorem normalLoop_mono (h : Arith.Le u v) (observers : List (Observer O)) :
    ∀ {n share log}, normalLoop u n share observers = some log →
      normalLoop v n share observers = some log := by
  induction observers with
  | nil => exact fun hr => hr
  | cons c rest ih =>
    intro n share log hr
    rw [normalLoop] at hr ⊢
    obtain ⟨m, hm, hr⟩ := Option.bind_eq_some_iff.1 hr
    obtain ⟨a, ha, hr⟩ := Option.bind_eq_some_iff.1 hr
    refine Option.bind_eq_some_iff.2 ⟨m, h _ _ hm, Option.bind_eq_some_iff.2 ⟨a, h _ _ ha, ?_⟩⟩
    by_cases hmax : c.maxBitrate < a
    · rw [if_pos hmax] at hr ⊢
      obtain ⟨r, hrem, hr⟩ := Option.bind_eq_some_iff.1 hr
      obtain ⟨s, hs, hr⟩ := Option.bind_eq_some_iff.1 hr
      obtain ⟨tail, htail, hr⟩ := Option.bind_eq_some_iff.1 hr
      exact Option.bind_eq_some_iff.2 ⟨r, h _ _ hrem, Option.bind_eq_some_iff.2
        ⟨s, carryForward_mono h hs, Option.bind_eq_some_iff.2 ⟨tail, ih htail, hr⟩⟩⟩
    · rw [if_neg hmax] at hr ⊢
      obtain ⟨tail, htail, hr⟩ := Option.bind_eq_some_iff.1 hr
      exact Option.bind_eq_some_iff.2 ⟨tail, ih htail, hr⟩

theorem normalRateAllocation_mono (h : Arith.Le u v) {log : List (Notified O)}
    (hr : normalRateAllocation u bitrate sum observers = some log) :
    normalRateAllocation v bitrate sum observers = some log := by
  obtain ⟨n, hn, hr⟩ := Option.bind_eq_some_iff.1 hr
  obtain ⟨spare, hspare, hr⟩ := Option.bind_eq_some_iff.1 hr
  obtain ⟨share, hshare, hr⟩ := Option.bind_eq_some_iff.1 hr
  exact Option.bind_eq_some_iff.2 ⟨n, h _ _ hn, Option.bind_eq_some_iff.2 ⟨spare, h _ _ hspare,
    Option.bind_eq_some_iff.2 ⟨share, hshare, normalLoop_mono h _ hr⟩⟩⟩

/-- What `checked` has a value for is what the code computes. -/
theorem wrapping_of_checked {enforce : Bool} {log : List (Notified O)}
    (h : onNetworkChanged checked enforce bitrate observers = some log) :
    onNetworkChanged wrapping enforce bitrate observers = some log := by
  rw [onNetworkChanged] at h ⊢
  by_cases hempty : observers.isEmpty
  · rw [if_pos hempty] at h ⊢
    exact h
  · rw [if_neg hempty] at h ⊢
    obtain ⟨sum, hsum, h⟩ := Option.bind_eq_some_iff.1 h
    refine Option.bind_eq_some_iff.2 ⟨sum, sumMin_mono checked_le_wrapping _ hsum, ?_⟩
    by_cases hlow : bitrate ≤ sum
    · rw [if_pos hlow] at h ⊢
      rw [lowRateAllocation] at h ⊢
      by_cases henforce : enforce
      · rw [if_pos henforce] at h ⊢
        exact h
      · rw [if_neg henforce] at h ⊢
        exact lowLoop_mono checked_le_wrapping _ h
    · rw [if_neg hlow] at h ⊢
      exact normalRateAllocation_mono checked_le_wrapping h

/-! ## What is handed out -/

def Observer.limits (c : Observer O) : Limits := ⟨c.minBitrate, c.maxBitrate⟩

/-- An observer and what it was told. -/
abbrev Grant (O : Type) := Observer O × Nat

def notify (p : Grant O) : Notified O := ⟨p.1.observer, p.2⟩

theorem sumMin_eq (observers : List (Observer O)) :
    ∀ sum, sum + (observers.map Observer.minBitrate).sum < 4294967296 →
      sumMin checked sum observers = some (sum + (observers.map Observer.minBitrate).sum) := by
  induction observers with
  | nil => exact fun _ _ => rfl
  | cons c rest ih =>
    intro sum h
    rw [List.map_cons, List.sum_cons, ← Nat.add_assoc] at h ⊢
    rw [sumMin, checked_add (by omega), Option.bind_eq_bind, Option.bind_some, ih _ h]

theorem carryForward_eq (k share remainder : Nat) (h : share + remainder / k < 4294967296) :
    carryForward checked k share remainder = some (share + remainder / k) := by
  rw [carryForward]
  split
  · exact checked_add h
  · rename_i hk
    rw [Decidable.not_not.1 hk, Nat.div_zero, Nat.add_zero]

/-- The loop hands out what `shareOut` does. -/
theorem normalLoop_spec (rest : List (Observer O)) :
    ∀ share, (rest.map Observer.minBitrate).sum + rest.length * share < 4294967296 →
      rest.length < 4294967296 →
      normalLoop checked rest.length share rest =
        some ((rest.zip (FairShare.shareOut share (rest.map Observer.limits))).map notify) := by
  induction rest with
  | nil => exact fun _ _ _ => rfl
  | cons c rest ih =>
    intro share hsum hcount
    have hnext := FairShare.grant_add_next share rest.length c.limits
    simp only [List.map_cons, List.sum_cons, List.length_cons, Nat.add_mul, Nat.one_mul] at hsum
    simp only [List.length_cons] at hcount
    have hshare : c.minBitrate + share < 4294967296 := by omega
    have htail := ih (FairShare.next share rest.length c.limits)
      (by simp only [Observer.limits] at hnext ⊢; omega) (by omega)
    have hlen : checked ((rest.length + 1 : Nat) - 1) = some rest.length :=
      checked_sub (b := 1) (by omega) hcount
    rw [normalLoop, List.length_cons, hlen, checked_add hshare]
    simp only [Option.bind_eq_bind, Option.bind_some, Option.pure_def]
    have hraise : FairShare.next share rest.length c.limits < 4294967296 := by
      obtain hk | hk := Nat.eq_zero_or_pos rest.length
      · rw [FairShare.next, hk, Nat.div_zero]
        omega
      · have := Nat.le_mul_of_pos_left (FairShare.next share rest.length c.limits) hk
        simp only [Observer.limits] at hnext this ⊢
        omega
    by_cases hmax : c.maxBitrate < c.minBitrate + share
    · have hcarry : carryForward checked rest.length share (c.minBitrate + share - c.maxBitrate) =
          some (FairShare.next share rest.length c.limits) := carryForward_eq _ _ _ hraise
      rw [if_pos hmax, checked_sub (by omega) hshare, Option.bind_some, hcarry, Option.bind_some,
        htail]
      have hgrant : FairShare.grant share c.limits = c.maxBitrate := Nat.min_eq_left (by
        simp only [Observer.limits]
        omega)
      simp only [Option.bind_some, FairShare.shareOut, List.map_cons, List.length_map,
        List.zip_cons_cons, hgrant]
      rfl
    · have hnone : FairShare.next share rest.length c.limits = share :=
        FairShare.next_of_short (Nat.not_lt.1 hmax) _
      have hgrant : FairShare.grant share c.limits = c.minBitrate + share :=
        Nat.min_eq_right (Nat.not_lt.1 hmax)
      rw [hnone] at htail
      rw [if_neg hmax, htail]
      simp only [Option.bind_some, FairShare.shareOut, List.map_cons, List.length_map,
        List.zip_cons_cons, hgrant, hnone]
      rfl

/-- Every observer is told once what it is granted. -/
structure Tells (observers : List (Observer O)) (log : List (Notified O))
    (grants : List (Grant O)) : Prop where
  once : (grants.map Prod.fst).Perm observers
  told : log = grants.map notify

def total (grants : List (Grant O)) : Nat := (grants.map Prod.snd).sum

theorem byMax_perm (observers : List (Observer O)) : (byMax observers).Perm observers :=
  sortBy_perm _ _ observers

/-- The grants of `normalRateAllocation`, in the order it makes them. -/
def granted (bitrate : Nat) (observers : List (Observer O)) : List (Grant O) :=
  (byMax observers).zip (FairShare.shareOut
    ((bitrate - (observers.map Observer.minBitrate).sum) / observers.length)
    ((byMax observers).map Observer.limits))

theorem granted_fst (bitrate : Nat) (observers : List (Observer O)) :
    (granted bitrate observers).map Prod.fst = byMax observers :=
  List.map_fst_zip (by rw [FairShare.length_shareOut, List.length_map])

theorem granted_snd (bitrate : Nat) (observers : List (Observer O)) :
    (granted bitrate observers).map Prod.snd = FairShare.shareOut
      ((bitrate - (observers.map Observer.minBitrate).sum) / observers.length)
      ((byMax observers).map Observer.limits) :=
  List.map_snd_zip (by rw [FairShare.length_shareOut, List.length_map])

theorem byMax_lo_sum (observers : List (Observer O)) :
    (((byMax observers).map Observer.limits).map Limits.lo).sum =
      (observers.map Observer.minBitrate).sum := by
  rw [List.map_map]
  exact ((byMax_perm observers).map Observer.minBitrate).sum_eq

theorem normalRateAllocation_spec (hbitrate : bitrate < 4294967296)
    (hsum : (observers.map Observer.minBitrate).sum ≤ bitrate) (hne : observers ≠ [])
    (hcount : observers.length < 4294967296) :
    normalRateAllocation checked bitrate (observers.map Observer.minBitrate).sum observers =
      some ((granted bitrate observers).map notify) := by
  have hlen := (byMax_perm observers).length_eq
  have hpos : observers.length ≠ 0 := fun h => hne (List.length_eq_zero_iff.1 h)
  have hloop := normalLoop_spec (byMax observers)
    ((bitrate - (observers.map Observer.minBitrate).sum) / observers.length) (by
      have hdiv := Nat.mul_div_le (bitrate - (observers.map Observer.minBitrate).sum)
        observers.length
      have hmins := ((byMax_perm observers).map Observer.minBitrate).sum_eq
      rw [hmins, hlen]
      omega) (by rw [hlen]; exact hcount)
  rw [normalRateAllocation, checked_of_lt hcount, checked_sub hsum hbitrate]
  rw [hlen] at hloop
  simp only [Option.bind_eq_bind, Option.bind_some, divide, if_neg hpos, hloop]
  rfl

theorem lowLoop_spec (observers : List (Observer O)) :
    ∀ remainder, remainder < 4294967296 →
      ∃ grants : List (Grant O), lowLoop checked remainder observers = some (grants.map notify) ∧
        grants.map Prod.fst = observers ∧ (∀ p ∈ grants, p.2 ≤ p.1.minBitrate) ∧
        total grants = min remainder (observers.map Observer.minBitrate).sum := by
  induction observers with
  | nil =>
    intro remainder _
    exact ⟨[], rfl, rfl, fun p hp => absurd hp List.not_mem_nil, (Nat.min_zero _).symm⟩
  | cons c rest ih =>
    intro remainder h
    obtain ⟨grants, hlog, hfst, hle, htotal⟩ :=
      ih (remainder - min remainder c.minBitrate) (by omega)
    refine ⟨(c, min remainder c.minBitrate) :: grants, ?_, ?_, ?_, ?_⟩
    · rw [lowLoop, checked_sub (Nat.min_le_left _ _) h]
      simp only [Option.bind_eq_bind, Option.bind_some, hlog]
      rfl
    · rw [List.map_cons, hfst]
    · rintro p (_ | ⟨_, hp⟩)
      · exact Nat.min_le_right _ _
      · exact hle p hp
    · rw [total, List.map_cons, List.sum_cons, List.map_cons, List.sum_cons]
      rw [total] at htotal
      omega

/-! ## Every observer within its limits, and the bitrate kept -/

theorem byMax_limits (h : ∀ c ∈ observers, c.minBitrate ≤ c.maxBitrate) :
    ∀ d ∈ (byMax observers).map Observer.limits, d.lo ≤ d.hi := by
  intro d hd
  obtain ⟨c, hc, rfl⟩ := List.mem_map.1 hd
  exact h c ((byMax_perm observers).mem_iff.1 hc)

theorem granted_within (h : ∀ c ∈ observers, c.minBitrate ≤ c.maxBitrate) {p : Grant O}
    (hp : p ∈ granted bitrate observers) : p.1.minBitrate ≤ p.2 ∧ p.2 ≤ p.1.maxBitrate := by
  have hwithin := List.forall₂_map_left_iff.1 (FairShare.shareOut_within (byMax_limits h)
    ((bitrate - (observers.map Observer.minBitrate).sum) / observers.length))
  exact List.forall₂_zip hwithin hp

theorem total_granted_le (h : (observers.map Observer.minBitrate).sum ≤ bitrate) :
    total (granted bitrate observers) ≤ bitrate := by
  have hshare := FairShare.sum_shareOut_le
    ((bitrate - (observers.map Observer.minBitrate).sum) / observers.length)
    ((byMax observers).map Observer.limits)
  have hdiv := Nat.mul_div_le (bitrate - (observers.map Observer.minBitrate).sum) observers.length
  rw [byMax_lo_sum, List.length_map, (byMax_perm observers).length_eq] at hshare
  rw [total, granted_snd]
  omega

/-- What the grants keep to, above the sum of the minima and below. -/
structure Allocates (enforce : Bool) (bitrate : Nat) (observers : List (Observer O))
    (grants : List (Grant O)) : Prop where
  normal : (observers.map Observer.minBitrate).sum < bitrate →
    (∀ p ∈ grants, p.1.minBitrate ≤ p.2 ∧ p.2 ≤ p.1.maxBitrate) ∧ total grants ≤ bitrate
  low : bitrate ≤ (observers.map Observer.minBitrate).sum → enforce = false →
    (∀ p ∈ grants, p.2 ≤ p.1.minBitrate) ∧ total grants = bitrate
  enforced : bitrate ≤ (observers.map Observer.minBitrate).sum → enforce = true →
    ∀ p ∈ grants, p.2 = p.1.minBitrate

theorem lowRateAllocation_spec (enforce : Bool) (hbitrate : bitrate < 4294967296)
    (hlow : bitrate ≤ (observers.map Observer.minBitrate).sum) :
    ∃ log grants, lowRateAllocation checked enforce bitrate observers = some log ∧
      Tells observers log grants ∧ Allocates enforce bitrate observers grants := by
  cases enforce with
  | true =>
    refine ⟨_, observers.map fun c => (c, c.minBitrate), rfl, ⟨?_, ?_⟩,
      fun h => absurd hlow (Nat.not_le.2 h), fun _ h => Bool.noConfusion h, fun _ _ p hp => ?_⟩
    · rw [List.map_map]
      exact List.Perm.of_eq (List.map_id _)
    · rw [List.map_map]
      rfl
    · obtain ⟨c, -, rfl⟩ := List.mem_map.1 hp
      rfl
  | false =>
    obtain ⟨grants, hlog, hfst, hle, htotal⟩ := lowLoop_spec observers bitrate hbitrate
    refine ⟨_, grants, hlog, ⟨List.Perm.of_eq hfst, rfl⟩,
      fun h => absurd hlow (Nat.not_le.2 h), fun _ _ => ⟨hle, ?_⟩, fun _ h => Bool.noConfusion h⟩
    rw [htotal, Nat.min_eq_left hlow]

/-- Which allocation runs, once the minima are added up. -/
theorem onNetworkChanged_eq (enforce : Bool) (bitrate : Nat) (hne : observers ≠ [])
    (hsum : (observers.map Observer.minBitrate).sum < 4294967296) :
    onNetworkChanged checked enforce bitrate observers =
      if bitrate ≤ (observers.map Observer.minBitrate).sum then
        lowRateAllocation checked enforce bitrate observers
      else normalRateAllocation checked bitrate (observers.map Observer.minBitrate).sum
        observers := by
  have hmins := sumMin_eq observers 0 (by omega)
  rw [Nat.zero_add] at hmins
  rw [onNetworkChanged, if_neg (by rwa [List.isEmpty_iff]), hmins]
  rfl

/-- Above the minima the grants are those of `granted`. -/
theorem onNetworkChanged_normal (enforce : Bool) (hbitrate : bitrate < 4294967296)
    (hspare : (observers.map Observer.minBitrate).sum < bitrate) (hne : observers ≠ [])
    (hcount : observers.length < 4294967296) :
    onNetworkChanged checked enforce bitrate observers =
      some ((granted bitrate observers).map notify) := by
  rw [onNetworkChanged_eq enforce bitrate hne (Nat.lt_trans hspare hbitrate),
    if_neg (Nat.not_le.2 hspare),
    normalRateAllocation_spec hbitrate (Nat.le_of_lt hspare) hne hcount]

theorem tells_granted (bitrate : Nat) (observers : List (Observer O)) :
    Tells observers ((granted bitrate observers).map notify) (granted bitrate observers) := by
  refine ⟨?_, rfl⟩
  rw [granted_fst]
  exact byMax_perm observers

theorem onNetworkChanged_allocates (enforce : Bool) (hbitrate : bitrate < 4294967296)
    (hlimits : ∀ c ∈ observers, c.minBitrate ≤ c.maxBitrate)
    (hsum : (observers.map Observer.minBitrate).sum < 4294967296)
    (hcount : observers.length < 4294967296) :
    ∃ log grants, onNetworkChanged wrapping enforce bitrate observers = some log ∧
      onNetworkChanged checked enforce bitrate observers = some log ∧
      Tells observers log grants ∧ Allocates enforce bitrate observers grants := by
  suffices ∃ log grants, onNetworkChanged checked enforce bitrate observers = some log ∧
      Tells observers log grants ∧ Allocates enforce bitrate observers grants by
    obtain ⟨log, grants, hlog, h⟩ := this
    exact ⟨log, grants, wrapping_of_checked hlog, hlog, h⟩
  by_cases hempty : observers = []
  · subst hempty
    exact ⟨[], [], rfl, ⟨List.Perm.refl _, rfl⟩,
      fun _ => ⟨fun _ hp => absurd hp List.not_mem_nil, Nat.zero_le _⟩,
      fun hle _ => ⟨fun _ hp => absurd hp List.not_mem_nil, (Nat.le_zero.1 hle).symm⟩,
      fun _ _ _ hp => absurd hp List.not_mem_nil⟩
  by_cases hlow : bitrate ≤ (observers.map Observer.minBitrate).sum
  · rw [onNetworkChanged_eq enforce bitrate hempty hsum, if_pos hlow]
    exact lowRateAllocation_spec enforce hbitrate hlow
  · have hspare := Nat.lt_of_not_le hlow
    exact ⟨_, granted bitrate observers,
      onNetworkChanged_normal enforce hbitrate hspare hempty hcount, tells_granted _ _,
      ⟨fun _ => ⟨fun p hp => granted_within hlimits hp,
        total_granted_le (Nat.le_of_lt hspare)⟩,
      fun h => absurd h hlow, fun h => absurd h hlow⟩⟩

/-- Limits of the kind `VideoSendStream` and the audio channels register. -/
def pair : List (Observer Nat) := [⟨0, 30000, 300000⟩, ⟨1, 32000, 64000⟩]

theorem onNetworkChanged_pair :
    ∃ log grants, onNetworkChanged wrapping true 200001 pair = some log ∧
      onNetworkChanged checked true 200001 pair = some log ∧ Tells pair log grants ∧
      Allocates true 200001 pair grants :=
  onNetworkChanged_allocates true (by decide) (by decide) (by decide) (by decide)

/-! The number of observers is a `uint32_t`, which 2^32 of them bring back to zero. -/

def crowd : List (Observer Nat) := (List.range 4294967296).map fun i => ⟨i, 0, 10⟩

theorem sumMin_zero (u : Arith) (hu : u 0 = some 0) (observers : List (Observer O))
    (h : ∀ c ∈ observers, c.minBitrate = 0) : sumMin u 0 observers = some 0 := by
  induction observers with
  | nil => rfl
  | cons c rest ih =>
    have hc := h c (List.mem_cons_self ..)
    rw [sumMin, hc]
    exact (congrArg (Option.bind · _) hu).trans (ih fun d hd => h d (.tail _ hd))

/-- 2^32 observers without minima share nothing: the code divides by zero. -/
theorem onNetworkChanged_none (enforce : Bool) (hbitrate : 0 < bitrate)
    (hzero : ∀ c ∈ observers, c.minBitrate = 0) (hlen : observers.length = 4294967296) :
    onNetworkChanged wrapping enforce bitrate observers = none := by
  have hne : ¬ observers.isEmpty := by
    rw [List.isEmpty_iff, ← List.length_eq_zero_iff, hlen]
    omega
  have hcount : wrapping (observers.length : Nat) = some 0 := by
    rw [hlen]
    rfl
  rw [onNetworkChanged, if_neg hne, sumMin_zero wrapping rfl observers hzero]
  simp only [Option.bind_eq_bind, Option.bind_some]
  rw [if_neg (Nat.not_le.2 hbitrate), normalRateAllocation, hcount]
  simp only [Option.bind_eq_bind, Option.bind_some, divide, if_true, Option.bind_none,
    Option.bind_fun_none]

theorem crowd_limits {c : Observer Nat} (hc : c ∈ crowd) : c.minBitrate = 0 := by
  obtain ⟨i, -, rfl⟩ := List.mem_map.1 hc
  rfl

theorem crowd_divides_by_zero :
    (crowd.map Observer.observer).Nodup ∧ (∀ c ∈ crowd, c.minBitrate ≤ c.maxBitrate) ∧
      (crowd.map Observer.minBitrate).sum < 4294967296 ∧
      onNetworkChanged wrapping true 5 crowd = none := by
  refine ⟨?_, fun c hc => ?_, ?_, ?_⟩
  · rw [crowd, List.map_map]
    exact (List.nodup_range).map Function.injective_id
  · rw [crowd_limits hc]
    exact Nat.zero_le _
  · rw [List.sum_eq_zero fun m hm => ?_]
    · omega
    · obtain ⟨c, hc, rfl⟩ := List.mem_map.1 hm
      exact crowd_limits hc
  · exact onNetworkChanged_none true (by omega) (fun c hc => crowd_limits hc)
      (by rw [crowd, List.length_map, List.length_range])

/-! ## What is left over -/

/-- The observer whose turn came last was given its maximum. -/
def LastFull (grants : List (Grant O)) : Prop := ∀ p ∈ grants.getLast?, p.2 = p.1.maxBitrate

/-- In the order of the maxima, the room between an observer's limits does not
shrink. -/
def RoomsGrow (observers : List (Observer O)) : Prop :=
  (byMax observers).Pairwise fun a b =>
    a.maxBitrate - a.minBitrate ≤ b.maxBitrate - b.minBitrate

theorem byMax_ne_nil (hne : observers ≠ []) : (byMax observers).map Observer.limits ≠ [] := by
  rw [Ne, List.map_eq_nil_iff]
  exact fun h => hne (List.Perm.nil_eq (h ▸ byMax_perm observers)).symm

/-- Where the last observer is short of its maximum, only rounding is left over. -/
theorem spare_of_lastShort (hne : observers ≠ [])
    (hspare : (observers.map Observer.minBitrate).sum ≤ bitrate)
    (h : FairShare.LastShort ((byMax observers).map Observer.limits)
      ((granted bitrate observers).map Prod.snd)) :
    2 * bitrate ≤ 2 * total (granted bitrate observers) +
      observers.length * (observers.length - 1) := by
  rw [granted_snd] at h
  have hshort := FairShare.le_sum_shareOut _ (byMax_ne_nil hne) h
  rw [byMax_lo_sum, List.length_map, (byMax_perm observers).length_eq] at hshort
  rw [total, granted_snd]
  obtain ⟨n, hn⟩ := Nat.exists_eq_succ_of_ne_zero fun h0 => hne (List.length_eq_zero_iff.1 h0)
  have hdiv := Nat.lt_mul_div_succ (bitrate - (observers.map Observer.minBitrate).sum)
    (show 0 < observers.length by omega)
  have hsquare : observers.length * (observers.length - 1) =
      (observers.length - 1) * (observers.length - 2) + 2 * (observers.length - 1) := by
    rw [hn]
    obtain _ | n := n
    · rfl
    · show (n + 2) * (n + 1) = (n + 1) * n + 2 * (n + 1)
      ring
  rw [Nat.mul_succ] at hdiv
  rw [hsquare]
  omega

/-- The last claimant is the last observer. -/
theorem lastFull_or_lastShort (h : ∀ c ∈ observers, c.minBitrate ≤ c.maxBitrate) :
    LastFull (granted bitrate observers) ∨
      FairShare.LastShort ((byMax observers).map Observer.limits)
        ((granted bitrate observers).map Prod.snd) := by
  have hfst := congrArg List.getLast? (granted_fst bitrate observers)
  rw [List.getLast?_map] at hfst
  obtain hlast | ⟨p, hlast⟩ := Option.eq_none_or_eq_some (granted bitrate observers).getLast?
  · left
    rw [LastFull, hlast]
    exact fun p hp => nomatch hp
  · have hle := (granted_within h (List.mem_of_getLast? hlast)).2
    rw [hlast, Option.map_some] at hfst
    obtain hfull | hshort := Nat.eq_or_lt_of_le hle
    · left
      rw [LastFull, hlast]
      rintro _ ⟨⟩
      exact hfull
    · right
      rw [FairShare.LastShort, List.getLast?_map, List.getLast?_map, ← hfst, hlast]
      rintro _ ⟨⟩ _ ⟨⟩
      exact hshort

/-- Every observer is given its maximum. -/
def AllFull (grants : List (Grant O)) : Prop := ∀ p ∈ grants, p.2 = p.1.maxBitrate

theorem allFull_of_shareOut (h : FairShare.shareOut
      ((bitrate - (observers.map Observer.minBitrate).sum) / observers.length)
      ((byMax observers).map Observer.limits) =
        ((byMax observers).map Observer.limits).map Limits.hi) :
    AllFull (granted bitrate observers) := by
  intro p hp
  have hzip : (List.map id (byMax observers)).zip ((byMax observers).map Observer.maxBitrate) =
      (byMax observers).map fun c => (c, c.maxBitrate) := List.zip_map'
  rw [List.map_id] at hzip
  rw [granted, h, List.map_map] at hp
  obtain ⟨c, -, rfl⟩ := List.mem_map.1 (hzip ▸ hp)
  rfl

theorem allFull_or_spare (hne : observers ≠ [])
    (hlimits : ∀ c ∈ observers, c.minBitrate ≤ c.maxBitrate)
    (hspare : (observers.map Observer.minBitrate).sum ≤ bitrate) (hgrow : RoomsGrow observers) :
    AllFull (granted bitrate observers) ∨
      2 * bitrate ≤ 2 * total (granted bitrate observers) +
        observers.length * (observers.length - 1) := by
  have hpair : ((byMax observers).map Observer.limits).Pairwise fun a b =>
      FairShare.room a ≤ FairShare.room b := List.pairwise_map.2 hgrow
  obtain hfull | hshort := FairShare.all_full_or_last_short hpair (byMax_limits hlimits)
    ((bitrate - (observers.map Observer.minBitrate).sum) / observers.length)
  · exact .inl (allFull_of_shareOut hfull)
  · rw [← granted_snd] at hshort
    exact .inr (spare_of_lastShort hne hspare hshort)

/-- A grant below its maximum makes the sum fall below that of the maxima. -/
theorem allFull_of_total (hlimits : ∀ c ∈ observers, c.minBitrate ≤ c.maxBitrate)
    (h : (observers.map Observer.maxBitrate).sum ≤ total (granted bitrate observers)) :
    AllFull (granted bitrate observers) := by
  have hmax : ((granted bitrate observers).map fun p => p.1.maxBitrate).sum =
      (observers.map Observer.maxBitrate).sum := by
    rw [← ((byMax_perm observers).map Observer.maxBitrate).sum_eq, ← granted_fst bitrate observers,
      List.map_map]
    rfl
  rw [← hmax, total] at h
  intro p hp
  by_contra hshort
  refine absurd h (Nat.not_le.2 (List.sum_lt_sum _ _ (fun q hq => ?_) ⟨p, hp, ?_⟩))
  · exact (granted_within hlimits hq).2
  · exact Nat.lt_of_le_of_ne (granted_within hlimits hp).2 hshort

/-- The rate left over is that of the rounding, unless the observer of the
greatest maximum is full; where the rooms grow in the order of the maxima,
unless all observers are. -/
structure Conserves (bitrate : Nat) (observers : List (Observer O)) (grants : List (Grant O)) :
    Prop where
  last : LastFull grants ∨
    bitrate - total grants ≤ observers.length * (observers.length - 1) / 2
  all : RoomsGrow observers → AllFull grants ∨
    bitrate - total grants ≤ observers.length * (observers.length - 1) / 2
  enough : RoomsGrow observers →
    (observers.map Observer.maxBitrate).sum + observers.length * (observers.length - 1) / 2 ≤
      bitrate → AllFull grants
  plenty : (∀ c ∈ observers, observers.length * (c.maxBitrate - c.minBitrate) ≤
    bitrate - (observers.map Observer.minBitrate).sum) → AllFull grants

theorem conserves_granted (hne : observers ≠ [])
    (hlimits : ∀ c ∈ observers, c.minBitrate ≤ c.maxBitrate)
    (hspare : (observers.map Observer.minBitrate).sum ≤ bitrate) :
    Conserves bitrate observers (granted bitrate observers) := by
  have heven := Nat.div_mul_cancel (Nat.even_mul_pred_self observers.length).two_dvd
  refine ⟨?_, fun hgrow => ?_, fun hgrow henough => ?_, fun hplenty => ?_⟩
  · obtain hfull | hshort := lastFull_or_lastShort hlimits
    · exact .inl hfull
    · have := spare_of_lastShort hne hspare hshort
      exact .inr (by omega)
  · obtain hfull | hle := allFull_or_spare hne hlimits hspare hgrow
    · exact .inl hfull
    · exact .inr (by omega)
  · obtain hfull | hle := allFull_or_spare hne hlimits hspare hgrow
    · exact hfull
    · exact allFull_of_total hlimits (by omega)
  · have hpos : 0 < observers.length := List.length_pos_iff.2 hne
    refine allFull_of_shareOut (FairShare.shareOut_full (byMax_limits hlimits) fun d hd => ?_)
    obtain ⟨c, hc, rfl⟩ := List.mem_map.1 hd
    have hroom := hplenty c ((byMax_perm observers).mem_iff.1 hc)
    exact (Nat.le_div_iff_mul_le hpos).2 (by rwa [Nat.mul_comm])

theorem onNetworkChanged_conserves (enforce : Bool) (hbitrate : bitrate < 4294967296)
    (hlimits : ∀ c ∈ observers, c.minBitrate ≤ c.maxBitrate)
    (hspare : (observers.map Observer.minBitrate).sum < bitrate)
    (hcount : observers.length < 4294967296) :
    ∃ log grants, onNetworkChanged wrapping enforce bitrate observers = some log ∧
      Tells observers log grants ∧ Conserves bitrate observers grants := by
  by_cases hempty : observers = []
  · subst hempty
    have hnone : ∀ {P : Grant O → Prop}, ∀ p ∈ ([] : List (Grant O)), P p :=
      fun p hp => absurd hp List.not_mem_nil
    exact ⟨[], [], rfl, ⟨List.Perm.refl _, rfl⟩, ⟨.inl fun _ hp => (nomatch hp),
      fun _ => .inl hnone, fun _ _ => hnone, fun _ => hnone⟩⟩
  · exact ⟨_, granted bitrate observers, wrapping_of_checked
      (onNetworkChanged_normal enforce hbitrate hspare hempty hcount), tells_granted _ _,
      conserves_granted hempty hlimits (Nat.le_of_lt hspare)⟩

theorem onNetworkChanged_conserves_pair :
    ∃ log grants, onNetworkChanged wrapping true 500000 pair = some log ∧ Tells pair log grants ∧
      Conserves 500000 pair grants :=
  onNetworkChanged_conserves true (by decide) (by decide) (by decide) (by decide)

/-- The second observer has ten units of room, and its turn comes last: what it
cannot take is lost, while the first one is not full. -/
def narrow : List (Observer Nat) := [⟨0, 0, 100⟩, ⟨1, 190, 200⟩]

theorem narrow_strands :
    onNetworkChanged wrapping true 303 narrow = some [⟨0, 56⟩, ⟨1, 200⟩] ∧
      granted 303 narrow = [(⟨0, 0, 100⟩, 56), (⟨1, 190, 200⟩, 200)] ∧
      ¬ AllFull (granted 303 narrow) ∧
      ¬ 303 - total (granted 303 narrow) < narrow.length * (narrow.length + 1) / 2 ∧
      (narrow.map Observer.maxBitrate).sum + narrow.length * (narrow.length + 1) / 2 ≤ 303 :=
  ⟨by decide, by decide, fun h => absurd (h (⟨0, 0, 100⟩, 56) (by decide)) (by decide), by decide,
    by decide⟩

end RtcCore.L2.BitrateAllocator
