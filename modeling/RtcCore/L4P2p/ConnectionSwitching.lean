import RtcCore.L4P2p.ConnectionPruning

/-!
# Switching between connections that are as good

A channel that chooses its connection itself is to leave the best one for another
of the same preference only where the round trip gets shorter by
`kMinImprovement`. `ShouldSwitch` adds the margin on the wrong side: it keeps the
best connection where the other is slower by more than the margin, which the head
of the sorted list never is.

Results:
* `updateConnectionStates_eq`: what the update before a sort makes of each
  connection.
* `replaced_iff`: a sort replaces the best connection exactly by the first in the
  order, if that is another and no less preferred.
* `margin_iff`: in a run every switch keeps the margin exactly where no sort finds
  the best connection overtaken. `flapping` alternates between two connections a
  millisecond apart.
-/
namespace RtcCore.L4.Ice

/-! ## The update before a sort -/

/-- As `UpdateState` leaves it. -/
def Connection.updated (t : Timing) (c : Connection) : Connection :=
  let c := if P2PTransportChannel.readTimesOut t c = true then { c with readState := .timeout }
    else c
  let c := if P2PTransportChannel.becomesUnreliable t c = true then
      { c with writeState := .unreliable }
    else c
  if P2PTransportChannel.writeTimesOut t c = true then { c with writeState := .timeout } else c

theorem Connection.updated_eq (t : Timing) (c : Connection) :
    c.updated t = { c with
      readState := (c.updated t).readState, writeState := (c.updated t).writeState } := by
  unfold Connection.updated
  dsimp only
  repeat' split
  all_goals rfl

namespace P2PTransportChannel

variable {s : P2PTransportChannel} {timing : Nat → Timing}

theorem touched_updateState (hs : s.ids.Nodup) (h : s.choosesItself = true) (t : Timing)
    (id : Nat) : Touched id (Connection.updated t) s (s.updateState t id) := by
  have hid (c : Connection) : (if readTimesOut t c = true then { c with readState := .timeout }
      else c).id = c.id := by split <;> rfl
  have hid' (c : Connection) : (if becomesUnreliable t c = true then
      { c with writeState := .unreliable } else c).id = c.id := by split <;> rfl
  have h1 := (touched_setReadState h id .timeout).ite (P := readTimesOut t) hs
  have hs1 := h1.ids hid ▸ hs
  have h2 := (touched_setWriteState id .unreliable (.inr (by decide))).ite
    (P := becomesUnreliable t) hs1
  have h3 := (touched_setWriteState id .timeout (.inr (by decide))).ite
    (P := writeTimesOut t) (h2.ids hid' ▸ hs1)
  exact (h1.trans h2 hid).trans h3 fun c => (hid' _).trans (hid c)

/-- The connections as the sort finds them. -/
def updated (s : P2PTransportChannel) (timing : Nat → Timing) : List Connection :=
  s.connections.map fun c => c.updated (timing c.id)

theorem updateConnectionStates_eq (hs : s.ids.Nodup) (h : s.choosesItself = true) :
    ∃ dirty, s.updateConnectionStates timing =
      { s with connections := s.updated timing, sortDirty := dirty } := by
  have hid : ∀ id (c : Connection), (c.updated (timing id)).id = c.id := fun id c =>
    c.updated_eq _ ▸ rfl
  obtain ⟨dirty, hd⟩ := touched_foldl (s := s)
    (Q := fun s => s.ids.Nodup ∧ s.choosesItself = true)
    (f := fun id c => c.updated (timing id)) hid
    (fun hs h => ⟨h.ids (hid _) ▸ hs.1, h.choosesItself.trans hs.2⟩)
    (fun s id hs => touched_updateState hs.1 hs.2 (timing id) id) hs ⟨hs, h⟩
  refine ⟨dirty, hd.trans (congrArg (fun l => { s with connections := l, sortDirty := dirty })
    (List.map_congr_left fun c hc => ?_))⟩
  exact if_pos (List.mem_map_of_mem hc)

/-! ## Which connection a sort switches to -/

/-- The best connection and the one a sort puts in its place, as the sort compares them. -/
def replaced (s : P2PTransportChannel) (timing : Nat → Timing) : Option (Connection × Connection) :=
  let u := s.updateConnectionStates timing
  u.bestConnection.bind fun a => ((s.sortConnections timing).best.bind u.find).bind fun b =>
    if a.id = b.id then none else some (a, b)

theorem replaced_eq_some {a b : Connection} :
    s.replaced timing = some (a, b) ↔
      (s.updateConnectionStates timing).bestConnection = some a ∧
        (s.sortConnections timing).best.bind (s.updateConnectionStates timing).find = some b ∧
          a.id ≠ b.id := by
  unfold replaced
  simp only [Option.bind_eq_some_iff]
  constructor
  · rintro ⟨a', ha, b', hb, hne⟩
    split at hne
    · cases hne
    · cases hne
      exact ⟨ha, hb, ‹_›⟩
  · rintro ⟨ha, hb, hne⟩
    exact ⟨a, ha, b, hb, if_neg hne⟩

/-- Pruning and the flag do not touch the choice. -/
theorem best_sortConnections (hs : s.Inv) (hp : s.protocolType ≠ .hybrid) :
    (s.sortConnections timing).best = (s.updateConnectionStates timing).sorted.chosen.best := by
  have hstays := stays_updateConnectionStates (s := s) timing
  have ht := inv_chosen (inv_sorted (hstays.inv hs))
  unfold sortConnections
  rw [if_neg (hstays.protocolType ▸ hp)]
  refine (connections_handleWritability _).2.trans ?_
  obtain ⟨K, dirty, -, h⟩ := prunedOn_pruning ht.nodup (s.updateConnectionStates timing).networks
  rw [h]

theorem find_sorted (hs : s.Inv) (id : Nat) : s.sorted.find id = s.find id := by
  cases hc : s.find id with
  | none =>
    refine List.find?_eq_none.2 fun c hmem => ?_
    exact List.find?_eq_none.1 hc c ((perm_sorted s).mem_iff.1 hmem)
  | some c =>
    obtain ⟨hmem, rfl⟩ := find_mem hc
    exact find_eq (inv_sorted hs).nodup ((perm_sorted s).mem_iff.2 hmem)

theorem bestConnection_sorted (hs : s.Inv) : s.sorted.bestConnection = s.bestConnection :=
  Option.bind_congr fun id _ => find_sorted hs id

theorem bestConnection_eq_some (hs : s.Inv) {a : Connection} :
    s.bestConnection = some a ↔ s.best = some a.id ∧ a ∈ s.connections := by
  constructor
  · intro h
    obtain ⟨id, hid, hfind⟩ := Option.bind_eq_some_iff.1 h
    obtain ⟨hmem, rfl⟩ := find_mem hfind
    exact ⟨hid, hmem⟩
  · rintro ⟨hid, hmem⟩
    exact Option.bind_eq_some_iff.2 ⟨a.id, hid, find_eq hs.nodup hmem⟩

theorem shouldSwitch_ne {a b : Connection} (h : shouldSwitch (some a) (some b) = true) :
    a.id ≠ b.id := by
  intro hid
  unfold shouldSwitch at h
  dsimp only at h
  rw [if_pos hid] at h
  cases h

/-- Of the connections as they are the first in the order replaces the best. -/
theorem chosen_iff (hs : s.Inv) (hc : s.choosesItself = true)
    (hg : ∀ c ∈ s.connections, c.generations < 2147483648) {a b : Connection}
    (ha : s.bestConnection = some a) :
    (s.sorted.chosen.best.bind s.find = some b ∧ a.id ≠ b.id) ↔
      First Connection.connectionCompare s.connections b ∧
        shouldSwitch (some a) (some b) = true := by
  have hhead (b : Connection) : s.sorted.connections.head? = some b ↔
      First Connection.connectionCompare s.connections b :=
    head?_stableSort Connection.connectionCompare_strictWeak hg
  have hcs : s.sorted.choosesItself = true := hc
  unfold chosen
  rw [bestConnection_sorted hs, ha, hcs, Bool.true_and]
  constructor
  · rintro ⟨hb, hne⟩
    split at hb
    · rename_i hswitch
      obtain ⟨id, hid, hfind⟩ := Option.bind_eq_some_iff.1 hb
      obtain ⟨b', hb', rfl⟩ := Option.map_eq_some_iff.1 hid
      have hfirst := (hhead b').1 hb'
      rw [find_eq hs.nodup hfirst.mem] at hfind
      cases hfind
      rw [hb'] at hswitch
      exact ⟨hfirst, hswitch⟩
    · cases ha.symm.trans hb
      exact absurd rfl hne
  · rintro ⟨hfirst, hswitch⟩
    rw [(hhead b).2 hfirst, if_pos hswitch]
    exact ⟨find_eq hs.nodup hfirst.mem, shouldSwitch_ne hswitch⟩

/-- A channel that does not choose itself, or cannot tell yet what protocol it speaks, keeps what
it has. -/
theorem replaced_none (hs : s.Inv) (h : ¬ (s.choosesItself = true ∧ s.protocolType ≠ .hybrid)) :
    s.replaced timing = none := by
  have hstays := stays_updateConnectionStates (s := s) timing
  have hbest : (s.sortConnections timing).best = (s.updateConnectionStates timing).best := by
    by_cases hp : s.protocolType = .hybrid
    · unfold sortConnections
      rw [if_pos (hstays.protocolType.trans hp)]
      rfl
    · have hc : (s.updateConnectionStates timing).sorted.choosesItself = false := by
        have : s.choosesItself = false := Bool.eq_false_iff.2 fun hc => h ⟨hc, hp⟩
        rw [← this]
        unfold choosesItself
        rw [← hstays.protocolType, ← hstays.iceRole]
        rfl
      rw [best_sortConnections hs hp]
      unfold chosen
      rw [hc]
      rfl
  refine Option.eq_none_iff_forall_ne_some.2 fun ⟨a, b⟩ hab => ?_
  obtain ⟨ha, hb, hne⟩ := replaced_eq_some.1 hab
  rw [hbest] at hb
  cases ha.symm.trans hb
  exact hne rfl

theorem generations_updated (hg : ∀ c ∈ s.connections, c.generations < 2147483648) :
    ∀ c ∈ s.updated timing, c.generations < 2147483648 := by
  intro c hc
  obtain ⟨d, hd, rfl⟩ := List.mem_map.1 hc
  rw [Connection.updated_eq]
  exact hg d hd

theorem replaced_iff (hs : s.Inv) (hc : s.choosesItself = true) (hp : s.protocolType ≠ .hybrid)
    (hg : ∀ c ∈ s.connections, c.generations < 2147483648) {a b : Connection} :
    s.replaced timing = some (a, b) ↔
      s.best = some a.id ∧ a ∈ s.updated timing ∧
        First Connection.connectionCompare (s.updated timing) b ∧
          shouldSwitch (some a) (some b) = true := by
  have hu := (stays_updateConnectionStates (s := s) timing).inv hs
  rw [replaced_eq_some, best_sortConnections hs hp]
  obtain ⟨dirty, hd⟩ : ∃ dirty, s.updateConnectionStates timing =
      { s with connections := s.updated timing, sortDirty := dirty } :=
    updateConnectionStates_eq hs.nodup hc
  rw [hd] at hu ⊢
  have hg' : ∀ c ∈ s.updated timing, c.generations < 2147483648 := generations_updated hg
  constructor
  · rintro ⟨ha, hb⟩
    obtain ⟨hid, hmem⟩ := (bestConnection_eq_some hu).1 ha
    exact ⟨hid, hmem, (chosen_iff hu hc hg' ha).1 hb⟩
  · rintro ⟨hid, hmem, hb⟩
    have ha := (bestConnection_eq_some hu).2 ⟨hid, hmem⟩
    exact ⟨ha, (chosen_iff hu hc hg' ha).2 hb⟩

/-! ## The margin -/

/-- Of two connections that are as good the second is faster by the margin. -/
def KeepsMargin (p : Connection × Connection) : Prop :=
  p.1.compareConnections p.2 = 0 → p.2.rtt.toNat + kMinImprovement ≤ p.1.rtt.toNat

instance (p : Connection × Connection) : Decidable (KeepsMargin p) :=
  inferInstanceAs (Decidable (_ → _))

/-- The first in the order is another connection than the best, as good as that and not faster by
the margin. -/
def Overtaken (s : P2PTransportChannel) (timing : Nat → Timing) : Prop :=
  s.choosesItself = true ∧ s.protocolType ≠ .hybrid ∧ ∃ a ∈ s.updated timing, ∃ b,
    s.best = some a.id ∧ First Connection.connectionCompare (s.updated timing) b ∧ a.id ≠ b.id ∧
      a.compareConnections b = 0 ∧ a.rtt.toNat < b.rtt.toNat + kMinImprovement

/-- What comes first in the order is never the slower one, so the margin `ShouldSwitch` allows for
keeps nothing back. -/
theorem overtaken_iff (hs : s.Inv) (hg : ∀ c ∈ s.connections, c.generations < 2147483648) :
    s.Overtaken timing ↔ ∃ p, s.replaced timing = some p ∧ ¬ KeepsMargin p := by
  constructor
  · rintro ⟨hc, hp, a, ha, b, hid, hfirst, hne, hcmp, hrtt⟩
    have hnot := hfirst.not_lt Connection.connectionCompare_strictWeak
      (generations_updated hg) a ha
    have hle : b.rtt.toNat ≤ a.rtt.toNat := by
      unfold Connection.connectionCompare at hnot
      rw [hcmp, if_neg (lt_irrefl _), if_neg (lt_irrefl _), decide_eq_false_iff_not,
        UInt32.lt_iff_toNat_lt] at hnot
      exact not_lt.1 hnot
    have hswitch : shouldSwitch (some a) (some b) = true := by
      unfold shouldSwitch
      dsimp only
      rw [if_neg hne, hcmp, if_neg (lt_irrefl _), if_neg (lt_irrefl _)]
      exact decide_eq_true (le_trans hle (Nat.le_add_right ..))
    exact ⟨(a, b), (replaced_iff hs hc hp hg).2 ⟨hid, ha, hfirst, hswitch⟩, fun hk =>
      absurd (hk hcmp) (not_le.2 hrtt)⟩
  · rintro ⟨⟨a, b⟩, hr, hk⟩
    by_cases hown : s.choosesItself = true ∧ s.protocolType ≠ .hybrid
    · obtain ⟨hid, ha, hfirst, hswitch⟩ := (replaced_iff hs hown.1 hown.2 hg).1 hr
      unfold KeepsMargin at hk
      rw [Classical.not_imp, not_le] at hk
      exact ⟨hown.1, hown.2, a, ha, b, hid, hfirst, shouldSwitch_ne hswitch, hk.1, hk.2⟩
    · rw [replaced_none hs hown] at hr
      cases hr

end P2PTransportChannel

/-! ## Runs -/

/-- A channel, and the switches its sorts have made. -/
structure WatchedChannel where
  channel : P2PTransportChannel := {}
  log : List (Connection × Connection) := []
  deriving DecidableEq

def ChannelEvent.sorts : ChannelEvent → Bool
  | .sort _ => true
  | _ => false

namespace WatchedChannel

def replaced (w : WatchedChannel) : ChannelEvent → Option (Connection × Connection)
  | .sort timing => w.channel.replaced timing
  | _ => none

def next (w : WatchedChannel) (e : ChannelEvent) : Option WatchedChannel :=
  (w.channel.next e).map fun s => { channel := s, log := w.log ++ (w.replaced e).toList }

def system : LTS WatchedChannel ChannelEvent := .ofFn (· = {}) next

/-- There is an order to sort by. -/
def Ordered (w : WatchedChannel) (e : ChannelEvent) : Prop :=
  e.sorts = true → ∀ c ∈ w.channel.connections, c.generations < 2147483648

instance (w : WatchedChannel) (e : ChannelEvent) : Decidable (w.Ordered e) :=
  inferInstanceAs (Decidable (_ → _))

def Overtaken (w : WatchedChannel) : ChannelEvent → Prop
  | .sort timing => w.channel.Overtaken timing
  | _ => False

variable {w w' : WatchedChannel} {e : ChannelEvent}

theorem next_eq_some (h : w.next e = some w') :
    w.channel.next e = some w'.channel ∧ w'.log = w.log ++ (w.replaced e).toList := by
  obtain ⟨s, hs, rfl⟩ := Option.map_eq_some_iff.1 h
  exact ⟨hs, rfl⟩

/-- The switch of one step keeps the margin unless it finds the best connection overtaken. -/
theorem next_margin (hs : w.channel.Inv) (ho : w.Ordered e) (h : w.next e = some w') :
    (∀ p ∈ w'.log, P2PTransportChannel.KeepsMargin p) ↔
      (∀ p ∈ w.log, P2PTransportChannel.KeepsMargin p) ∧ ¬ w.Overtaken e := by
  rw [(next_eq_some h).2]
  have hstep : w.Overtaken e ↔
      ∃ p, w.replaced e = some p ∧ ¬ P2PTransportChannel.KeepsMargin p := by
    cases e with
    | sort timing => exact P2PTransportChannel.overtaken_iff hs (ho rfl)
    | _ => exact ⟨False.elim, fun ⟨_, hp, _⟩ => nomatch hp⟩
  rw [hstep]
  simp only [List.mem_append, or_imp, forall_and, Option.mem_toList, not_exists, not_and, not_not]

theorem run_margin {ls : List ChannelEvent} (r : (system.within Ordered).Run w ls w')
    (hs : w.channel.Inv) :
    (∀ p ∈ w'.log, P2PTransportChannel.KeepsMargin p) ↔
      (∀ p ∈ w.log, P2PTransportChannel.KeepsMargin p) ∧
        (system.within fun w e => w.Ordered e ∧ ¬ w.Overtaken e).Run w ls w' := by
  induction r with
  | nil w => exact ⟨fun h => ⟨h, .nil w⟩, fun h => h.1⟩
  | cons hn _ ih =>
    rw [ih (P2PTransportChannel.inv_next hs (next_eq_some hn.2).1), next_margin hs hn.1 hn.2]
    constructor
    · rintro ⟨⟨hlog, hno⟩, r⟩
      exact ⟨hlog, .cons ⟨⟨hn.1, hno⟩, hn.2⟩ r⟩
    · rintro ⟨hlog, r⟩
      cases r with
      | cons hn' r =>
        cases Option.some.inj (hn.2.symm.trans hn'.2)
        exact ⟨⟨hlog, hn'.1.2⟩, r⟩

/-- Over any events, with the estimates changing in between: every switch of a sort to another
connection that is as good makes the round trip shorter by the margin exactly where no sort finds
the best connection overtaken. -/
theorem margin_iff {ls : List ChannelEvent} (r : (system.within Ordered).Run {} ls w') :
    (∀ p ∈ w'.log, P2PTransportChannel.KeepsMargin p) ↔
      (system.within fun w e => w.Ordered e ∧ ¬ w.Overtaken e).Run {} ls w' := by
  rw [run_margin r (P2PTransportChannel.system_inv.init _ rfl)]
  exact and_iff_right fun p hp => (nomatch hp)

/-! ## Two connections on two networks -/

/-- The best connection has a round trip of 100 ms when the channel first sorts; then the
estimates change, and the channel sorts again. -/
def pairEvents (estimates : List (Nat × UInt32)) : List ChannelEvent :=
  [.setIceProtocolType .rfc5245, .setIceRole .controlling,
    .addConnection ⟨0, 1, .controlling, 200, 100, 0, 0, .init, .init, false, 3000⟩,
    .addConnection ⟨1, 2, .controlling, 200, 100, 0, 0, .init, .init, false, 3000⟩,
    .writeState 0 .writable, .writeState 1 .writable, .estimate 0 100, .sort fun _ => {}] ++
  estimates.flatMap fun (id, rtt) => [.estimate id rtt, .sort fun _ => {}]

def pairRun (estimates : List (Nat × UInt32)) : Option WatchedChannel :=
  (pairEvents estimates).foldlM (fun w e => if w.Ordered e then w.next e else none) {}

def steady : WatchedChannel := (pairRun [(1, 110), (1, 90)]).getD {}

/-- The other connection has to become faster by 10 ms. -/
theorem steady_margin :
    (system.within fun w e => w.Ordered e ∧ ¬ w.Overtaken e).Run {}
        (pairEvents [(1, 110), (1, 90)]) steady ∧
      steady.log.map (fun p => (p.1.id, p.2.id)) = [(0, 1)] :=
  ⟨(margin_iff (LTS.Run.within_of_foldlM (by decide))).1 (by decide),
    by decide⟩

def flapping : WatchedChannel := (pairRun [(1, 99), (0, 98), (1, 97)]).getD {}

/-- The channel alternates between the two as their estimates pass each other. -/
theorem flapping_margin :
    (system.within Ordered).Run {} (pairEvents [(1, 99), (0, 98), (1, 97)]) flapping ∧
      flapping.log.map (fun p => (p.1.id, p.2.id)) = [(0, 1), (1, 0), (0, 1)] ∧
      ¬ ∀ p ∈ flapping.log, P2PTransportChannel.KeepsMargin p :=
  ⟨LTS.Run.within_of_foldlM (by decide), by decide, by decide⟩

end WatchedChannel
end RtcCore.L4.Ice
