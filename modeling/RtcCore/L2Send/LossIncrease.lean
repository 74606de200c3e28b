import RtcCore.Core.SuffixMinima
import RtcCore.L2Send.SendSideBandwidth

/-!
# What a step without loss raises the bitrate to

`UpdateMinHistory` keeps the queue of a sliding minimum over the bitrates of
the last second. With hardly any loss, `UpdateEstimate` raises the bitrate to
8 to 30 percent above that minimum, in 32-bit arithmetic, and brings the result
between the configured limits.

Results:
* `call_tracked`: what one call does to the history and to what it has seen.
* `increase_bounded`: in every run, the front of the history is the least
  bitrate seen in the last second, and a step without loss goes at most 30
  percent and 1001 bps above it, or to the configured minimum.
* `increase_wraps`: from 2^29 bps on the percentage is lost.
-/
namespace RtcCore.L2.SendSideBandwidthEstimation

open Pacing

/-! ## What the history has seen -/

def Call.nowMs : Call → Option Int
  | .updateReceiverBlock _ _ _ nowMs => some nowMs
  | .updateEstimate nowMs => some nowMs
  | _ => none

/-- When a call gets as far as `UpdateEstimate`: a report does not as long as
the packets of the reports so far are too few. -/
def updates (s : SendSideBandwidthEstimation) : Call → Option Int
  | .updateReceiverBlock _ _ packets nowMs =>
    if packets > 0 ∧ toInt32 (s.accumulateExpectedPackets + packets) < 20 then none else some nowMs
  | .updateEstimate nowMs => some nowMs
  | _ => none

/-- The bitrates that `UpdateMinHistory` has seen since the bitrate was set. -/
def record (s : SendSideBandwidthEstimation) (seen : List (Int × Nat)) : Call → List (Int × Nat)
  | .setSendBitrate _ => []
  | c => seen ++ (s.updates c).toList.map fun nowMs => (nowMs, s.bitrate)

variable (tfrc : Int → Nat → Nat)

def recordStep (p : SendSideBandwidthEstimation × List (Int × Nat)) (c : Call) :
    SendSideBandwidthEstimation × List (Int × Nat) :=
  (p.1.call tfrc c, p.1.record p.2 c)

def seen (calls : List Call) : List (Int × Nat) := (calls.foldl (recordStep tfrc) ({}, [])).2

def recent (nowMs : Int) (e : Int × Nat) : Bool := nowMs - e.1 < 1000

/-- The history of an estimation whose last update is not after `nowMs`. -/
structure Tracked (s : SendSideBandwidthEstimation) (seen : List (Int × Nat)) (nowMs : Int) :
    Prop where
  incoming : s.bweIncoming = 0
  sorted : seen.Pairwise fun a b => a.1 ≤ b.1
  past : ∀ e ∈ seen, e.1 ≤ nowMs
  history : ∃ last, last ≤ nowMs ∧ s.minBitrateHistory = suffixMinima (seen.filter (recent last))

variable {s : SendSideBandwidthEstimation} {log : List (Int × Nat)} {nowMs : Int}

theorem Tracked.mono {later : Int} (h : Tracked s log nowMs) (hle : nowMs ≤ later) :
    Tracked s log later := by
  obtain ⟨last, hlast, hhis⟩ := h.history
  exact ⟨h.incoming, h.sorted, fun e he => Int.le_trans (h.past e he) hle,
    last, Int.le_trans hlast hle, hhis⟩

/-! ## One call -/

/-- `UpdateMinHistory` expires entries, and takes out those that are not below the bitrate. -/
theorem updateMinHistory_tracked (h : Tracked s log nowMs) :
    (s.updateMinHistory nowMs).minBitrateHistory =
      suffixMinima ((log ++ [(nowMs, s.bitrate)]).filter (recent nowMs)) := by
  obtain ⟨last, hlast, hhis⟩ := h.history
  have hexpire : (suffixMinima (log.filter (recent last))).dropWhile
      (fun e => nowMs - e.1 + 1 > 1000) = suffixMinima (log.filter (recent nowMs)) := by
    have hsorted : (log.filter (recent last)).Pairwise
        fun a b => recent nowMs a = true → recent nowMs b = true := by
      refine (h.sorted.filter _).imp fun {a b} hab ha => ?_
      simp only [recent, decide_eq_true_eq] at ha ⊢
      omega
    have hfilter : (log.filter (recent last)).filter (recent nowMs) =
        log.filter (recent nowMs) := by
      rw [List.filter_filter]
      refine List.filter_congr fun e _ => ?_
      simp only [recent, Bool.and_eq_left_iff_imp, decide_eq_true_eq]
      omega
    rw [← hfilter, suffixMinima_filter hsorted]
    congr 1
    funext e
    simp only [recent, gt_iff_lt, ← decide_not, decide_eq_decide]
    omega
  have hnew : (log ++ [(nowMs, s.bitrate)]).filter (recent nowMs) =
      log.filter (recent nowMs) ++ [(nowMs, s.bitrate)] := by
    simp [List.filter_append, recent]
  rw [hnew, suffixMinima_append, ← hexpire, ← hhis]
  rfl

/-- The fields that only `UpdateMinHistory` and the setters change. -/
def historyFields (s : SendSideBandwidthEstimation) :
    List (Int × Nat) × Nat × Nat × Nat × Nat × Int :=
  (s.minBitrateHistory, s.bweIncoming, s.minBitrateConfigured, s.maxBitrateConfigured,
    s.lastFractionLoss, s.timeLastReceiverBlockMs)

theorem countRecover_historyFields (nowMs : Int) :
    (s.countRecover nowMs).historyFields = s.historyFields := by
  unfold countRecover
  split <;> rfl

theorem applyLoss_historyFields (nowMs : Int) :
    (s.applyLoss tfrc nowMs).historyFields = s.historyFields := by
  unfold applyLoss
  split
  · simp only [historyFields]
  · split
    · rfl
    · split <;> rfl

/-- The bitrate that the history front `m` is raised to, with `p` percent. -/
def increased (m p : Nat) : Nat := (m + (m * p % 2 ^ 32 + 50) % 2 ^ 32 / 100 + 1000) % 2 ^ 32

theorem increased_le {m p : Nat} (hp : p ≤ 30) : 100 * increased m p ≤ 130 * m + 100100 := by
  have hmul : m * p ≤ m * 30 := Nat.mul_le_mul_left m hp
  have h1 : (m * p % 2 ^ 32 + 50) % 2 ^ 32 ≤ m * 30 + 50 :=
    Nat.le_trans (Nat.mod_le _ _) (Nat.add_le_add_right (Nat.le_trans (Nat.mod_le _ _) hmul) 50)
  have h2 : increased m p ≤ m + (m * p % 2 ^ 32 + 50) % 2 ^ 32 / 100 + 1000 := Nat.mod_le _ _
  omega

theorem increased_exact {m p : Nat} (hm : m ≤ 143165574) (hp : p ≤ 30) :
    increased m p = m + (m * p + 50) / 100 + 1000 := by
  have hmul : m * p ≤ m * 30 := Nat.mul_le_mul_left m hp
  unfold increased
  rw [Nat.mod_eq_of_lt (by omega : m * p < 2 ^ 32), Nat.mod_eq_of_lt (by omega),
    Nat.mod_eq_of_lt (by omega)]

theorem applyLoss_low (h : s.lastFractionLoss ≤ 5) {front : Int × Nat}
    (hfront : s.minBitrateHistory.head? = some front) (nowMs : Int) :
    ∃ p, 8 ≤ p ∧ p ≤ 30 ∧ (s.applyLoss tfrc nowMs).bitrate = increased front.2 p := by
  unfold applyLoss
  simp only [h, ↓reduceIte, hfront, Option.map_some, Option.getD_some]
  split_ifs
  · exact ⟨_, by omega, Nat.min_le_left _ _, rfl⟩
  · exact ⟨_, by omega, Nat.min_le_left _ _, rfl⟩
  · exact ⟨8, Nat.le_refl 8, by decide, rfl⟩

theorem capBitrateToThresholds_eq (h : s.bweIncoming = 0) (bitrate : Nat) :
    s.capBitrateToThresholds bitrate =
      max (min bitrate s.maxBitrateConfigured) s.minBitrateConfigured := by
  unfold capBitrateToThresholds
  simp only [h, Nat.lt_irrefl, gt_iff_lt, false_and, ↓reduceIte]
  split_ifs <;> omega

theorem updateEstimate_eq (h : s.bweIncoming = 0) (nowMs : Int) :
    s.updateEstimate tfrc nowMs =
      let s := s.updateMinHistory nowMs
      let s :=
        if s.timeLastReceiverBlockMs ≠ 0 then (s.countRecover nowMs).applyLoss tfrc nowMs else s
      { s with bitrate := s.capBitrateToThresholds s.bitrate } := by
  unfold updateEstimate
  rw [if_neg fun hs => by rw [h] at hs; exact absurd hs.2.2 (Nat.not_lt_zero _)]

theorem updateEstimate_historyFields (h : s.bweIncoming = 0) (nowMs : Int) :
    (s.updateEstimate tfrc nowMs).historyFields = (s.updateMinHistory nowMs).historyFields := by
  rw [updateEstimate_eq tfrc h]
  dsimp only
  split
  · exact (applyLoss_historyFields tfrc nowMs).trans (countRecover_historyFields nowMs)
  · rfl

/-- The limits an estimation is capped to are among the fields an update keeps. -/
theorem cap_congr {s' : SendSideBandwidthEstimation} (h : s.bweIncoming = 0)
    (hf : s'.historyFields = s.historyFields) (bitrate : Nat) :
    s'.capBitrateToThresholds bitrate = s.capBitrateToThresholds bitrate := by
  simp only [historyFields, Prod.mk.injEq] at hf
  rw [capBitrateToThresholds_eq h, capBitrateToThresholds_eq (by rw [hf.2.1, h]), hf.2.2.1,
    hf.2.2.2.1]

theorem updateEstimate_bitrate (h : s.bweIncoming = 0) (hloss : s.lastFractionLoss ≤ 5)
    {front : Int × Nat} (hfront : (s.updateMinHistory nowMs).minBitrateHistory.head? = some front) :
    (s.timeLastReceiverBlockMs = 0 →
      (s.updateEstimate tfrc nowMs).bitrate = s.capBitrateToThresholds s.bitrate) ∧
    (s.timeLastReceiverBlockMs ≠ 0 → ∃ p, 8 ≤ p ∧ p ≤ 30 ∧
      (s.updateEstimate tfrc nowMs).bitrate = s.capBitrateToThresholds (increased front.2 p)) := by
  rw [updateEstimate_eq tfrc h]
  refine ⟨fun ht => ?_, fun ht => ?_⟩
  · have ht' : (s.updateMinHistory nowMs).timeLastReceiverBlockMs = 0 := ht
    simp only [ht', ne_eq, not_true_eq_false, ↓reduceIte]
    rfl
  · have ht' : (s.updateMinHistory nowMs).timeLastReceiverBlockMs ≠ 0 := ht
    have hf := countRecover_historyFields (s := s.updateMinHistory nowMs) nowMs
    have hf' := (applyLoss_historyFields tfrc
      (s := (s.updateMinHistory nowMs).countRecover nowMs) nowMs).trans hf
    simp only [historyFields, Prod.mk.injEq] at hf
    obtain ⟨p, h8, h30, hp⟩ := applyLoss_low tfrc
      (s := (s.updateMinHistory nowMs).countRecover nowMs) (by rw [hf.2.2.2.2.1]; exact hloss)
      (by rw [hf.1]; exact hfront) nowMs
    refine ⟨p, h8, h30, ?_⟩
    simp only [ht', ne_eq, not_false_eq_true, ↓reduceIte, hp]
    exact cap_congr (s := s.updateMinHistory nowMs) h hf' _

/-- What an update leaves of a `bitrate`, given what has been seen up to it. -/
structure Increase (bitrate : Nat) (s' : SendSideBandwidthEstimation) (nowMs : Int)
    (seen : List (Int × Nat)) (m : Nat) : Prop where
  front : s'.minBitrateHistory.head?.map (·.2) = some m
  least : IsLeast {v | ∃ e ∈ seen, nowMs - e.1 < 1000 ∧ e.2 = v} m
  bounded : s'.lastFractionLoss ≤ 5 → bitrate < s'.bitrate →
    100 * s'.bitrate ≤ 130 * m + 100100 ∨ s'.bitrate = s'.minBitrateConfigured
  within : s'.lastFractionLoss ≤ 5 → bitrate < s'.bitrate →
    s'.minBitrateConfigured ≤ s'.maxBitrateConfigured →
    s'.minBitrateConfigured ≤ s'.bitrate ∧ s'.bitrate ≤ s'.maxBitrateConfigured
  exact : s'.lastFractionLoss ≤ 5 → s'.timeLastReceiverBlockMs ≠ 0 → m ≤ 143165574 →
    ∃ p, 8 ≤ p ∧ p ≤ 30 ∧
      s'.bitrate = s'.capBitrateToThresholds (m + (m * p + 50) / 100 + 1000)

theorem updateEstimate_increase (h : Tracked s log nowMs) :
    ∃ m, Increase s.bitrate (s.updateEstimate tfrc nowMs) nowMs (log ++ [(nowMs, s.bitrate)])
      m := by
  obtain ⟨front, hfront⟩ : ∃ front,
      (s.updateMinHistory nowMs).minBitrateHistory.head? = some front := by
    cases hhis : (s.updateMinHistory nowMs).minBitrateHistory with
    | nil => simp [updateMinHistory] at hhis
    | cons front rest => exact ⟨front, rfl⟩
  have hf := updateEstimate_historyFields tfrc h.incoming nowMs
  have hcap := cap_congr (s := s.updateMinHistory nowMs) h.incoming hf
  simp only [historyFields, Prod.mk.injEq] at hf
  obtain ⟨hhis, -, hmin, hmax, hlost, htime⟩ := hf
  have hlim (bitrate : Nat) : s.capBitrateToThresholds bitrate =
      max (min bitrate s.maxBitrateConfigured) s.minBitrateConfigured :=
    capBitrateToThresholds_eq h.incoming bitrate
  -- a raised bitrate is capped from the increased minimum, or from itself
  have hbitrate (hloss : s.lastFractionLoss ≤ 5) :=
    updateEstimate_bitrate tfrc h.incoming hloss hfront
  refine ⟨front.2, ?_, ?_, ?_, ?_, ?_⟩
  · rw [hhis, hfront]
    rfl
  · have hleast := head_suffixMinima (l := (log ++ [(nowMs, s.bitrate)]).filter (recent nowMs))
      (m := front) (by rw [← updateMinHistory_tracked h]; exact hfront)
    simpa only [List.mem_filter, recent, decide_eq_true_eq, and_assoc] using hleast
  · intro hloss hlt
    rw [hmin]
    obtain ⟨hidle, hstep⟩ := hbitrate (hlost ▸ hloss)
    by_cases ht : s.timeLastReceiverBlockMs = 0
    · have := hidle ht
      rw [hlim] at this
      exact .inr (show _ = s.minBitrateConfigured by omega)
    · obtain ⟨p, -, h30, hp⟩ := hstep ht
      have hle := increased_le (m := front.2) h30
      rw [hlim] at hp
      rw [show (s.updateMinHistory nowMs).minBitrateConfigured = s.minBitrateConfigured from rfl]
      omega
  · intro hloss hlt hle
    rw [hmin, hmax] at hle
    rw [hmin, hmax]
    obtain ⟨hidle, hstep⟩ := hbitrate (hlost ▸ hloss)
    have hlimits : s.minBitrateConfigured ≤ s.maxBitrateConfigured := hle
    have hwithin : ∃ b, (s.updateEstimate tfrc nowMs).bitrate = s.capBitrateToThresholds b := by
      by_cases ht : s.timeLastReceiverBlockMs = 0
      · exact ⟨_, hidle ht⟩
      · obtain ⟨p, -, -, hp⟩ := hstep ht
        exact ⟨_, hp⟩
    obtain ⟨b, hb⟩ := hwithin
    rw [hb, hlim]
    exact ⟨by simp only [updateMinHistory]; omega, by simp only [updateMinHistory]; omega⟩
  · intro hloss ht hm
    obtain ⟨p, h8, h30, hp⟩ := (hbitrate (hlost ▸ hloss)).2 (htime ▸ ht)
    refine ⟨p, h8, h30, ?_⟩
    rw [hcap, hp, increased_exact hm h30]
    rfl

theorem updateEstimate_tracked (h : Tracked s log nowMs) :
    Tracked (s.updateEstimate tfrc nowMs) (log ++ [(nowMs, s.bitrate)]) nowMs := by
  have hf := updateEstimate_historyFields tfrc h.incoming nowMs
  simp only [historyFields, Prod.mk.injEq] at hf
  refine ⟨hf.2.1.trans h.incoming, ?_, ?_, nowMs, Int.le_refl _, ?_⟩
  · rw [List.pairwise_append]
    refine ⟨h.sorted, List.pairwise_singleton _ _, fun e he x hx => ?_⟩
    rw [List.mem_singleton.mp hx]
    exact h.past e he
  · intro e he
    rcases List.mem_append.mp he with he | he
    · exact h.past e he
    · rw [List.mem_singleton.mp he]
  · rw [hf.1, updateMinHistory_tracked h]

/-- A call that updates is an update of a state with the same bitrates. -/
theorem call_updates {c : Call} (h : s.updates c = some nowMs) :
    ∃ s₀ : SendSideBandwidthEstimation, s.call tfrc c = s₀.updateEstimate tfrc nowMs ∧
      s₀.bitrate = s.bitrate ∧ s₀.minBitrateHistory = s.minBitrateHistory ∧
      s₀.bweIncoming = s.bweIncoming ∧ c.nowMs = some nowMs := by
  cases c with
  | updateEstimate now =>
    cases h
    exact ⟨s, rfl, rfl, rfl, rfl, rfl⟩
  | updateReceiverBlock loss rtt packets now =>
    simp only [updates] at h
    split at h
    · cases h
    · rename_i hreports
      cases h
      unfold call updateReceiverBlock updateLoss
      simp only [not_and, Int.not_lt] at hreports
      by_cases hp : packets > 0
      · have hge : toInt32 ((s.updateRtt rtt nowMs).accumulateExpectedPackets + packets) ≥ 20 :=
          hreports hp
        simp only [hp, ↓reduceIte, hge]
        exact ⟨_, rfl, rfl, rfl, rfl, rfl⟩
      · simp only [hp, ↓reduceIte]
        exact ⟨_, rfl, rfl, rfl, rfl, rfl⟩
  | setSendBitrate => cases h
  | setMinMaxBitrate => cases h
  | updateReceiverEstimate => cases h

/-- A call that does not update leaves the history and the bitrates, or clears them. -/
theorem call_idle (log : List (Int × Nat)) {c : Call} (h : s.updates c = none) :
    (s.call tfrc c).bweIncoming = s.bweIncoming ∧
      ((s.call tfrc c).minBitrateHistory = s.minBitrateHistory ∧ s.record log c = log ∨
        (s.call tfrc c).minBitrateHistory = [] ∧ s.record log c = []) := by
  cases c with
  | updateEstimate => cases h
  | updateReceiverBlock loss rtt packets now =>
    have hrecord : s.record log (.updateReceiverBlock loss rtt packets now) = log := by
      simp [record, h]
    simp only [updates] at h
    split at h
    · rename_i hreports
      have hlt : ¬toInt32 ((s.updateRtt rtt now).accumulateExpectedPackets + packets) ≥ 20 :=
        Int.not_le.mpr hreports.2
      unfold call updateReceiverBlock updateLoss
      simp only [hreports.1, ↓reduceIte, hlt]
      exact ⟨rfl, .inl ⟨rfl, hrecord⟩⟩
    · cases h
  | setSendBitrate => exact ⟨rfl, .inr ⟨rfl, rfl⟩⟩
  | setMinMaxBitrate => exact ⟨rfl, .inl ⟨rfl, List.append_nil _⟩⟩
  | updateReceiverEstimate => exact ⟨rfl, .inl ⟨rfl, List.append_nil _⟩⟩

theorem record_updates {c : Call} (h : s.updates c = some nowMs) :
    s.record log c = log ++ [(nowMs, s.bitrate)] := by
  cases c with
  | setSendBitrate => cases h
  | setMinMaxBitrate => cases h
  | updateReceiverEstimate => cases h
  | updateReceiverBlock => simp [record, h]
  | updateEstimate => simp [record, h]

theorem call_tracked (h : Tracked s log nowMs) {c : Call}
    (hc : ∀ now, c.nowMs = some now → now = nowMs) :
    Tracked (s.call tfrc c) (s.record log c) nowMs := by
  cases hu : s.updates c with
  | none =>
    obtain ⟨hbwe, ⟨hhis, hrecord⟩ | ⟨hhis, hrecord⟩⟩ := call_idle tfrc log hu
    · rw [hrecord]
      exact ⟨hbwe.trans h.incoming, h.sorted, h.past, by rw [hhis]; exact h.history⟩
    · rw [hrecord]
      exact ⟨hbwe.trans h.incoming, List.Pairwise.nil, fun _ he => absurd he List.not_mem_nil,
        nowMs, Int.le_refl _, hhis⟩
  | some now =>
    obtain ⟨s₀, hcall, hbitrate, hhis, hbwe, htime⟩ := call_updates tfrc hu
    obtain rfl := hc now htime
    have h₀ : Tracked s₀ log now :=
      ⟨hbwe.trans h.incoming, h.sorted, h.past, by rw [hhis]; exact h.history⟩
    rw [hcall, record_updates hu, ← hbitrate]
    exact updateEstimate_tracked tfrc h₀

/-! ## Every run -/

theorem foldl_recordStep (calls : List Call) :
    calls.foldl (recordStep tfrc) ({}, []) = (run tfrc calls, seen tfrc calls) := by
  refine Prod.ext ?_ rfl
  unfold run
  generalize ({} : SendSideBandwidthEstimation) = s₀
  generalize ([] : List (Int × Nat)) = log₀
  induction calls generalizing s₀ log₀ with
  | nil => rfl
  | cons c calls ih => exact ih (s₀.call tfrc c) (s₀.record log₀ c)

theorem run_concat (calls : List Call) (c : Call) :
    run tfrc (calls ++ [c]) = (run tfrc calls).call tfrc c ∧
      seen tfrc (calls ++ [c]) = (run tfrc calls).record (seen tfrc calls) c := by
  have h := foldl_recordStep tfrc (calls ++ [c])
  rw [List.foldl_append, foldl_recordStep] at h
  exact ⟨congrArg Prod.fst h.symm, congrArg Prod.snd h.symm⟩

theorem run_tracked {calls : List Call}
    (hsorted : (calls.filterMap Call.nowMs).Pairwise (· ≤ ·)) (nowMs : Int)
    (hpast : ∀ now ∈ calls.filterMap Call.nowMs, now ≤ nowMs) :
    Tracked (run tfrc calls) (seen tfrc calls) nowMs := by
  induction calls using List.reverseRecOn generalizing nowMs with
  | nil =>
    exact ⟨rfl, List.Pairwise.nil, fun _ he => absurd he List.not_mem_nil, nowMs,
      Int.le_refl _, rfl⟩
  | append_singleton calls c ih =>
    rw [(run_concat tfrc calls c).1, (run_concat tfrc calls c).2]
    rw [List.filterMap_append, List.pairwise_append] at hsorted
    rw [List.filterMap_append] at hpast
    cases hc : c.nowMs with
    | none =>
      refine call_tracked tfrc (ih hsorted.1 nowMs fun now hn => hpast now ?_)
        (fun now hn => by rw [hc] at hn; cases hn)
      exact List.mem_append_left _ hn
    | some now =>
      have hmem : now ∈ [c].filterMap Call.nowMs := by simp [hc]
      have hle : now ≤ nowMs := hpast now (List.mem_append_right _ hmem)
      refine (call_tracked tfrc (ih hsorted.1 now fun n hn => hsorted.2.2 n hn now hmem)
        (fun n hn => ?_)).mono hle
      rw [hc] at hn
      exact (Option.some.inj hn).symm

theorem Tracked.rising (h : Tracked s log nowMs) :
    s.minBitrateHistory.Pairwise fun a b => a.1 ≤ b.1 ∧ a.2 < b.2 := by
  obtain ⟨last, -, hhis⟩ := h.history
  have hsub : s.minBitrateHistory.Sublist log := by
    rw [hhis]
    exact (suffixMinima_sublist _).trans List.filter_sublist
  have hrising : s.minBitrateHistory.Pairwise fun a b => a.2 < b.2 := by
    rw [hhis]
    exact suffixMinima_rising _
  exact (h.sorted.sublist hsub).and hrising

theorem exists_upper (l : List Int) : ∃ b, ∀ x ∈ l, x ≤ b := by
  induction l with
  | nil => exact ⟨0, fun _ h => absurd h List.not_mem_nil⟩
  | cons y ys ih =>
    obtain ⟨b, hb⟩ := ih
    refine ⟨max y b, fun x hx => ?_⟩
    rcases List.mem_cons.mp hx with rfl | hx
    · exact Int.le_max_left ..
    · exact Int.le_trans (hb x hx) (Int.le_max_right ..)

/-- In every run of calls at times that do not go back, the history rises, its
front is the least bitrate seen in the last second, and an update with hardly
any loss raises the bitrate to at most 30 percent and 1001 bps above that. -/
theorem increase_bounded (tfrc : Int → Nat → Nat) (calls : List Call)
    (hsorted : (calls.filterMap Call.nowMs).Pairwise (· ≤ ·)) :
    ((run tfrc calls).minBitrateHistory.Pairwise fun a b => a.1 ≤ b.1 ∧ a.2 < b.2) ∧
      ∀ before c nowMs, before ++ [c] <+: calls → (run tfrc before).updates c = some nowMs →
        ∃ m, Increase (run tfrc before).bitrate (run tfrc (before ++ [c])) nowMs
          (seen tfrc (before ++ [c])) m := by
  obtain ⟨last, hlast⟩ := exists_upper (calls.filterMap Call.nowMs)
  refine ⟨(run_tracked tfrc hsorted last hlast).rising, fun before c nowMs hpre hu => ?_⟩
  obtain ⟨s₀, hcall, hbitrate, hhis, hbwe, htime⟩ := call_updates tfrc hu
  have hs := hsorted.sublist ((hpre.sublist).filterMap Call.nowMs)
  rw [List.filterMap_append, List.pairwise_append] at hs
  have hmem : nowMs ∈ [c].filterMap Call.nowMs := by simp [htime]
  have h := run_tracked tfrc hs.1 nowMs fun n hn => hs.2.2 n hn nowMs hmem
  have h₀ : Tracked s₀ (seen tfrc before) nowMs :=
    ⟨hbwe.trans h.incoming, h.sorted, h.past, by rw [hhis]; exact h.history⟩
  rw [(run_concat tfrc before c).1, (run_concat tfrc before c).2, hcall, record_updates hu, ← hbitrate]
  exact updateEstimate_increase tfrc h₀

theorem increase_bounded_step :
    ∃ m, Increase (run (fun _ _ => 0) [.setMinMaxBitrate 10000 2000000, .setSendBitrate 500000,
        .updateReceiverBlock 0 100 0 1000]).bitrate
      (run (fun _ _ => 0) ([.setMinMaxBitrate 10000 2000000, .setSendBitrate 500000,
        .updateReceiverBlock 0 100 0 1000] ++ [.updateReceiverBlock 0 100 0 1500])) 1500
      (seen (fun _ _ => 0) ([.setMinMaxBitrate 10000 2000000, .setSendBitrate 500000,
        .updateReceiverBlock 0 100 0 1000] ++ [.updateReceiverBlock 0 100 0 1500])) m :=
  (increase_bounded (fun _ _ => 0) ([.setMinMaxBitrate 10000 2000000, .setSendBitrate 500000,
    .updateReceiverBlock 0 100 0 1000] ++ [.updateReceiverBlock 0 100 0 1500]) (by decide)).2 _ _ _
    ( List.prefix_refl _) rfl

/-- A bitrate below the configured minimum is raised to that; and 8 percent of
2^29 bps are a multiple of 2^32, so that only the 1000 bps are added. -/
theorem increase_wraps :
    let capped := run (fun _ _ => 0) [.setMinMaxBitrate 30000 100000, .setSendBitrate 10000,
      .updateReceiverBlock 0 100 0 1000]
    let wrapped := run (fun _ _ => 0) [.setMinMaxBitrate 30000 4294967295,
      .setSendBitrate 536870912, .updateReceiverBlock 0 100 0 1000]
    (capped.minBitrateHistory = [(1000, 10000)] ∧ capped.lastFractionLoss = 0 ∧
        capped.bitrate = 30000 ∧ ¬100 * capped.bitrate ≤ 130 * 10000 + 100100) ∧
      wrapped.minBitrateHistory = [(1000, 536870912)] ∧ wrapped.bitrate = 536870912 + 1000 := by
  decide

end RtcCore.L2.SendSideBandwidthEstimation
