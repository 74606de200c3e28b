import RtcCore.Core.ComparedMap
import RtcCore.L4P2p.P2PTransportChannel

/-!
# Sorting the connections of a channel

Results:
* `connectionCompare_strictWeak`: where the generations add up to less than 2^31
  the order of the sort is a strict weak one.
* `prunedOn_pruning`: what the loop over the networks does, whatever the callbacks
  do in between: a connection is left as it is, or pruned for the primier of its
  network, which is writable, preferred and left as it is.
* `system_inv`, `sortConnections_safe`: the best connection is always one of those
  the channel has, and no sort prunes it, loses the last writable connection or
  leaves the flag of the channel wrong.
-/
namespace RtcCore.L4.Ice

/-! ## The order -/

namespace Connection

variable (a b : Connection)

/-- The sum that prefers the younger of two connections, were it not one of 32-bit numbers. -/
def generations : Nat := a.remoteGeneration.toNat + a.portGeneration.toNat

variable {a b}

theorem generation_toNat (h : a.generations < 2147483648) :
    (a.remoteGeneration + a.portGeneration).toNat = a.generations := by
  unfold generations at h ⊢
  rw [UInt32.toNat_add]
  omega

theorem generation_sub (ha : a.generations < 2147483648) (hb : b.generations < 2147483648) :
    ((a.remoteGeneration + a.portGeneration) -
      (b.remoteGeneration + b.portGeneration)).toInt32.toInt =
        (a.generations : Int) - b.generations := by
  have hsub := UInt32.toNat_sub (a.remoteGeneration + a.portGeneration)
    (b.remoteGeneration + b.portGeneration)
  rw [generation_toNat ha, generation_toNat hb] at hsub
  rw [← Int32.toInt_toBitVec, UInt32.toBitVec_toInt32, BitVec.toInt_eq_toNat_cond,
    UInt32.toNat_toBitVec, hsub]
  split <;> omega

theorem compareConnectionCandidates_nonneg (h : 0 ≤ a.compareConnectionCandidates b) :
    b.priority ≤ a.priority := by
  unfold compareConnectionCandidates at h
  split at h
  · omega
  · split at h
    · omega
    · omega

/-- A better state comes first, then a higher priority, then a younger generation. -/
theorem compareConnections_pos (ha : a.generations < 2147483648)
    (hb : b.generations < 2147483648) :
    0 < a.compareConnections b ↔
      a.writeState.value < b.writeState.value ∨ a.writeState.value = b.writeState.value ∧
        (b.priority < a.priority ∨ a.priority = b.priority ∧ b.generations < a.generations) := by
  unfold compareConnections compareConnectionCandidates
  rw [generation_sub ha hb]
  repeat' split
  all_goals omega

theorem compareConnections_neg (ha : a.generations < 2147483648)
    (hb : b.generations < 2147483648) :
    a.compareConnections b < 0 ↔
      b.writeState.value < a.writeState.value ∨ b.writeState.value = a.writeState.value ∧
        (a.priority < b.priority ∨ b.priority = a.priority ∧ a.generations < b.generations) := by
  unfold compareConnections compareConnectionCandidates
  rw [generation_sub ha hb]
  repeat' split
  all_goals omega

/-- Of two connections that are as good the one with the shorter round trip comes first. -/
theorem connectionCompare_iff (ha : a.generations < 2147483648)
    (hb : b.generations < 2147483648) :
    a.connectionCompare b = true ↔
      a.writeState.value < b.writeState.value ∨ a.writeState.value = b.writeState.value ∧
        (b.priority < a.priority ∨ a.priority = b.priority ∧
          (b.generations < a.generations ∨ a.generations = b.generations ∧
            a.rtt.toNat < b.rtt.toNat)) := by
  have hpos := compareConnections_pos ha hb
  have hneg := compareConnections_neg ha hb
  unfold connectionCompare
  split
  · simp only [true_iff]
    omega
  · split
    · simp only [Bool.false_eq_true, false_iff]
      omega
    · rw [decide_eq_true_iff, UInt32.lt_iff_toNat_lt]
      omega

theorem connectionCompare_strictWeak :
    StrictWeakOn connectionCompare (·.generations < 2147483648) where
  irrefl ha := by
    rw [← Bool.not_eq_true, connectionCompare_iff ha ha]
    omega
  trans ha hb hc hab hbc := by
    rw [connectionCompare_iff ha hb] at hab
    rw [connectionCompare_iff hb hc] at hbc
    rw [connectionCompare_iff ha hc]
    omega
  equiv_trans ha hb hc hab hba hbc hcb := by
    rw [← Bool.not_eq_true] at *
    rw [connectionCompare_iff ha hb] at hab
    rw [connectionCompare_iff hb ha] at hba
    rw [connectionCompare_iff hb hc] at hbc
    rw [connectionCompare_iff hc hb] at hcb
    rw [← Bool.not_eq_true, connectionCompare_iff ha hc, connectionCompare_iff hc ha]
    omega

end Connection

/-! ## Callbacks -/

namespace P2PTransportChannel

variable {s s' s'' : P2PTransportChannel}

def ids (s : P2PTransportChannel) : List Nat := s.connections.map (·.id)

theorem find_mem {id : Nat} {c : Connection} (h : s.find id = some c) :
    c ∈ s.connections ∧ c.id = id :=
  ⟨List.mem_of_find?_eq_some h, by simpa using List.find?_some h⟩

theorem find_isSome_of_mem {id : Nat} (h : id ∈ s.ids) : ∃ c, s.find id = some c := by
  obtain ⟨c, hc, rfl⟩ := List.mem_map.1 h
  exact Option.isSome_iff_exists.1 (List.find?_isSome.2 ⟨c, hc, by simp⟩)

theorem mem_ids_of_find {id : Nat} {c : Connection} (h : s.find id = some c) : id ∈ s.ids :=
  List.mem_map.2 ⟨c, (find_mem h).1, (find_mem h).2⟩

theorem find_eq (h : s.ids.Nodup) {c : Connection} (hc : c ∈ s.connections) :
    s.find c.id = some c := by
  obtain ⟨d, hd⟩ := find_isSome_of_mem (List.mem_map_of_mem hc : c.id ∈ s.ids)
  obtain ⟨hmem, hid⟩ := find_mem hd
  rw [hd, List.inj_on_of_nodup_map h hmem hc hid]

/-- No two connections have one address, the best connection is one of them, and the flag was set
where the channel was found to be writable. -/
structure Inv (s : P2PTransportChannel) : Prop where
  nodup : s.ids.Nodup
  best : ∀ id, s.best = some id → id ∈ s.ids
  flag : s.writable = true → s.wasWritable = true

/-- What a connection and its callback may do: the channel has the same connections in the same
order, in whatever state, and it stays with its best connection or goes to another of them. -/
structure Stays (s s' : P2PTransportChannel) : Prop where
  ids : s'.ids = s.ids
  best : s'.best = s.best ∨ ∃ id ∈ s.ids, s'.best = some id
  wasWritable : s'.wasWritable = s.wasWritable
  writable : s'.writable = s.writable
  protocolType : s'.protocolType = s.protocolType
  iceRole : s'.iceRole = s.iceRole

theorem Stays.refl (s : P2PTransportChannel) : Stays s s := ⟨rfl, .inl rfl, rfl, rfl, rfl, rfl⟩

theorem Stays.trans (h : Stays s s') (h' : Stays s' s'') : Stays s s'' where
  ids := h'.ids.trans h.ids
  best := by
    rcases h'.best with hb | ⟨id, hid, hb⟩
    · rw [hb]
      exact h.best
    · exact .inr ⟨id, h.ids ▸ hid, hb⟩
  wasWritable := h'.wasWritable.trans h.wasWritable
  writable := h'.writable.trans h.writable
  protocolType := h'.protocolType.trans h.protocolType
  iceRole := h'.iceRole.trans h.iceRole

theorem Stays.inv (h : Stays s s') (hs : s.Inv) : s'.Inv where
  nodup := h.ids ▸ hs.nodup
  best id hid := by
    rw [h.ids]
    rcases h.best with hb | ⟨id', hid', hb⟩
    · exact hs.best id (hb ▸ hid)
    · cases hb.symm.trans hid
      exact hid'
  flag hw := by
    rw [h.wasWritable]
    exact hs.flag (h.writable ▸ hw)

/-- `f` leaves a connection at its address. -/
theorem stays_modify (id : Nat) {f : Connection → Connection} (hf : ∀ c, (f c).id = c.id) :
    Stays s (s.modify id f) where
  ids := by
    unfold P2PTransportChannel.ids modify
    rw [List.map_map]
    refine List.map_congr_left fun c _ => ?_
    simp only [Function.comp_apply]
    split
    · exact hf c
    · rfl
  best := .inl rfl
  wasWritable := rfl
  writable := rfl
  protocolType := rfl
  iceRole := rfl

theorem stays_onConnectionStateChange (id : Nat) : Stays s (s.onConnectionStateChange id) := by
  unfold onConnectionStateChange
  split
  · rename_i h
    obtain ⟨c, hc, -⟩ := (Option.any_eq_true ..).1 h.2.2.2
    exact ⟨rfl, .inr ⟨id, mem_ids_of_find hc, rfl⟩, rfl, rfl, rfl, rfl⟩
  · exact ⟨rfl, .inl rfl, rfl, rfl, rfl, rfl⟩

theorem stays_setReadState (id : Nat) (value : ReadState) :
    Stays s (s.setReadState id value) := by
  unfold setReadState
  cases s.find id with
  | none => exact .refl s
  | some c =>
    have h : Stays s (s.modify id ({ · with readState := value })) := stays_modify id fun _ => rfl
    dsimp only
    split
    · exact h.trans (stays_onConnectionStateChange id)
    · exact h

theorem stays_setWriteState (id : Nat) (value : WriteState) :
    Stays s (s.setWriteState id value) := by
  unfold setWriteState
  cases s.find id with
  | none => exact .refl s
  | some c =>
    have h : Stays s (s.modify id ({ · with writeState := value })) := stays_modify id fun _ => rfl
    dsimp only
    split
    · exact h.trans (stays_onConnectionStateChange id)
    · exact h

theorem Stays.ite {p : Prop} [Decidable p] (h : Stays s s') : Stays s (if p then s' else s) := by
  split
  · exact h
  · exact .refl s

theorem stays_updateState (t : Timing) (id : Nat) : Stays s (s.updateState t id) :=
  ((stays_setReadState id _).ite.trans (stays_setWriteState id _).ite).trans
    (stays_setWriteState id _).ite

theorem stays_foldl {f : P2PTransportChannel → Nat → P2PTransportChannel}
    (hf : ∀ s id, Stays s (f s id)) (l : List Nat) : Stays s (l.foldl f s) := by
  induction l generalizing s with
  | nil => exact .refl s
  | cons id l ih => exact (hf s id).trans ih

theorem stays_updateConnectionStates (timing : Nat → Timing) :
    Stays s (s.updateConnectionStates timing) :=
  stays_foldl (fun _ _ => stays_updateState _ _) _

end P2PTransportChannel

/-! ## One connection at a time -/

namespace P2PTransportChannel

variable {s s' s'' : P2PTransportChannel} {id : Nat} {f g : Connection → Connection}

/-- Connections changed in their places are found at their addresses. -/
theorem find_map (hf : ∀ c, (f c).id = c.id) (id : Nat) :
    (s.connections.map f).find? (·.id == id) = (s.find id).map f := by
  rw [List.find?_map]
  congr 2
  funext c
  simp only [Function.comp_apply, hf]

theorem find_modify (hf : ∀ c, (f c).id = c.id) (id : Nat) :
    (s.modify id f).find id = (s.find id).map f := by
  have hmap := find_map (s := s) (f := fun c => if c.id = id then f c else c)
    (fun c => by split; exacts [hf c, rfl]) id
  refine hmap.trans ?_
  cases hc : s.find id with
  | none => rfl
  | some c => exact congrArg some (if_pos (find_mem hc).2)

theorem ids_map (hf : ∀ c ∈ s.connections, (f c).id = c.id) :
    (s.connections.map f).map (·.id) = s.ids := by
  rw [List.map_map]
  exact List.map_congr_left hf

/-- The one connection is changed by `f`, and a sort may be due. -/
def Touched (id : Nat) (f : Connection → Connection) (s s' : P2PTransportChannel) : Prop :=
  ∃ dirty, s' = { s with
    connections := s.connections.map fun c => if c.id = id then f c else c
    sortDirty := dirty }

theorem touched_modify (id : Nat) (f : Connection → Connection) :
    Touched id f s (s.modify id f) := ⟨s.sortDirty, rfl⟩

theorem touched_requestSort (h : Touched id f s s') : Touched id f s s'.requestSort := by
  obtain ⟨dirty, rfl⟩ := h
  exact ⟨true, rfl⟩

/-- `f` and `g` do the same to the connection. -/
theorem Touched.congr (h : Touched id f s s')
    (hfg : ∀ c ∈ s.connections, c.id = id → f c = g c) : Touched id g s s' := by
  obtain ⟨dirty, rfl⟩ := h
  refine ⟨dirty, congrArg (fun l => { s with connections := l, sortDirty := dirty })
    (List.map_congr_left fun c hc => ?_)⟩
  split
  · exact hfg c hc ‹_›
  · rfl

theorem Touched.trans (h : Touched id f s s') (h' : Touched id g s' s'')
    (hf : ∀ c, (f c).id = c.id) : Touched id (g ∘ f) s s'' := by
  obtain ⟨dirty, rfl⟩ := h
  obtain ⟨dirty', rfl⟩ := h'
  refine ⟨dirty', congrArg (fun l => { s with connections := l, sortDirty := dirty' })
    ((List.map_map ..).trans (List.map_congr_left fun c _ => ?_))⟩
  simp only [Function.comp_apply]
  by_cases hid : c.id = id
  · rw [if_pos hid, if_pos hid, hf, if_pos hid]
  · rw [if_neg hid, if_neg hid, if_neg hid]

theorem touched_refl (s : P2PTransportChannel) (id : Nat) : Touched id (fun c => c) s s :=
  ⟨s.sortDirty, congrArg (fun l => { s with connections := l })
    (((List.map_congr_left fun _ _ => ite_self _).trans (List.map_id _)).symm)⟩

/-- There is no such connection. -/
theorem touched_of_find_none (h : s.find id = none) (f : Connection → Connection) :
    Touched id f s s :=
  (touched_refl s id).congr fun c hc hid =>
    absurd hid (by simpa using List.find?_eq_none.1 h c hc)

/-- Only a connection that meets `P` is changed. -/
theorem Touched.ite {P : Connection → Bool} (h : Touched id f s s') (hs : s.ids.Nodup) :
    Touched id (fun c => if P c = true then f c else c) s
      (if (s.find id).any P = true then s' else s) := by
  have hfind : ∀ c ∈ s.connections, c.id = id → (s.find id).any P = P c := fun c hc hid => by
    rw [← hid, find_eq hs hc]
    rfl
  split
  · rename_i hp
    exact h.congr fun c hc hid => (if_pos (hfind c hc hid ▸ hp)).symm
  · rename_i hp
    exact (touched_refl s id).congr fun c hc hid => (if_neg (hfind c hc hid ▸ hp)).symm

theorem Touched.ids (h : Touched id f s s') (hf : ∀ c, (f c).id = c.id) : s'.ids = s.ids := by
  obtain ⟨dirty, rfl⟩ := h
  exact ids_map fun c _ => by split; exacts [hf c, rfl]

theorem Touched.choosesItself (h : Touched id f s s') : s'.choosesItself = s.choosesItself := by
  obtain ⟨dirty, rfl⟩ := h
  rfl

/-- Each connection of `l` is changed in turn, while the channel is in states that meet `Q`. -/
theorem touched_foldl {Q : P2PTransportChannel → Prop} {f : Nat → Connection → Connection}
    {step : P2PTransportChannel → Nat → P2PTransportChannel}
    (hf : ∀ id c, (f id c).id = c.id) (hQ : ∀ {s s' id}, Q s → Touched id (f id) s s' → Q s')
    (hstep : ∀ s id, Q s → Touched id (f id) s (step s id)) {l : List Nat} (hl : l.Nodup)
    (hs : Q s) :
    ∃ dirty, l.foldl step s = { s with
      connections := s.connections.map fun c => if c.id ∈ l then f c.id c else c
      sortDirty := dirty } := by
  induction l generalizing s with
  | nil => exact ⟨s.sortDirty, by simp⟩
  | cons id l ih =>
    have htouched := hstep s id hs
    obtain ⟨dirty, hd⟩ := ih (List.nodup_cons.1 hl).2 (hQ hs htouched)
    obtain ⟨dirty', hd'⟩ := htouched
    refine ⟨dirty, hd.trans ?_⟩
    rw [hd']
    refine congrArg (fun l => { s with connections := l, sortDirty := dirty })
      ((List.map_map ..).trans (List.map_congr_left fun c _ => ?_))
    simp only [Function.comp_apply, List.mem_cons]
    by_cases hid : c.id = id
    · subst hid
      rw [if_pos rfl, hf, if_neg (List.nodup_cons.1 hl).1, if_pos (.inl rfl)]
    · rw [if_neg hid]
      simp only [hid, false_or]

/-- The callback asks for a sort and no more where the channel chooses itself, and of a connection
that is not writable. -/
theorem onConnectionStateChange_eq
    (h : s.choosesItself = true ∨ (s.find id).any (·.writable) = false) :
    s.onConnectionStateChange id = s.requestSort := by
  refine if_neg fun hc => ?_
  rcases h with h | h
  · simp [choosesItself, hc.1, hc.2.1] at h
  · rw [h] at hc
    cases hc.2.2.2

theorem touched_setReadState (h : s.choosesItself = true) (id : Nat) (value : ReadState) :
    Touched id ({ · with readState := value }) s (s.setReadState id value) := by
  unfold setReadState
  cases hc : s.find id with
  | none => exact touched_of_find_none hc _
  | some c =>
    have htouched := touched_modify (s := s) id ({ · with readState := value })
    dsimp only
    split
    · rw [onConnectionStateChange_eq (.inl (htouched.choosesItself.trans h))]
      exact touched_requestSort htouched
    · exact htouched

theorem touched_setWriteState (id : Nat) (value : WriteState)
    (h : s.choosesItself = true ∨ value ≠ .writable) :
    Touched id ({ · with writeState := value }) s (s.setWriteState id value) := by
  unfold setWriteState
  cases hc : s.find id with
  | none => exact touched_of_find_none hc _
  | some c =>
    have htouched := touched_modify (s := s) id ({ · with writeState := value })
    have hany (hv : value ≠ .writable) :
        ((s.modify id ({ · with writeState := value })).find id).any (·.writable) = false := by
      have hfind := find_modify (s := s) (f := ({ · with writeState := value })) (fun _ => rfl) id
      rw [hfind, hc]
      exact decide_eq_false hv
    dsimp only
    split
    · rw [onConnectionStateChange_eq (h.imp htouched.choosesItself.trans hany)]
      exact touched_requestSort htouched
    · exact htouched

end P2PTransportChannel

/-! ## Pruning -/

/-- As `Prune` leaves it. -/
def Connection.cut (c : Connection) : Connection :=
  if c.pruned then c else { c with pruned := true, writeState := .timeout }

namespace Connection

variable (c p : Connection)

@[simp] theorem cut_id : c.cut.id = c.id := by unfold cut; split <;> rfl

@[simp] theorem cut_network : c.cut.network = c.network := by unfold cut; split <;> rfl

@[simp] theorem cut_priority : c.cut.priority = c.priority := by unfold cut; split <;> rfl

@[simp] theorem compareConnectionCandidates_cut :
    p.compareConnectionCandidates c.cut = p.compareConnectionCandidates c := by
  unfold cut
  split <;> rfl

theorem cut_of_pruned {c : Connection} (h : c.pruned = true) : c.cut = c := if_pos h

theorem pruned_cut : c.cut.pruned = true := by
  unfold cut
  split
  · assumption
  · rfl

@[simp] theorem cut_cut : c.cut.cut = c.cut := cut_of_pruned c.pruned_cut

end Connection

namespace P2PTransportChannel

variable {s s' : P2PTransportChannel}

theorem touched_prune (hs : s.ids.Nodup) (id : Nat) :
    Touched id Connection.cut s (s.prune id) := by
  unfold prune
  cases hc : s.find id with
  | none => exact touched_of_find_none hc _
  | some c =>
    have hone : ∀ d ∈ s.connections, d.id = id → d = c := fun d hd hdid =>
      Option.some_injective _ ((find_eq hs hd).symm.trans (hdid ▸ hc))
    dsimp only
    split
    · rename_i hp
      exact (touched_refl s id).congr fun d hd hdid => (if_pos (hone d hd hdid ▸ hp)).symm
    · rename_i hp
      refine ((touched_modify id ({ · with pruned := true })).trans
        (touched_setWriteState id _ (.inr (by decide))) fun _ => rfl).congr fun d hd hdid => ?_
      rw [hone d hd hdid, Connection.cut, if_neg hp]
      rfl

/-- The primier of the network is writable and `c`, another connection of it, is not preferred. -/
def yields (s : P2PTransportChannel) (network : Nat) (c : Connection) : Bool :=
  (s.getBestConnectionOnNetwork network).any fun p =>
    p.writable && (decide (c.id ≠ p.id) && c.network == network &&
      decide (0 ≤ p.compareConnectionCandidates c))

theorem pruneOnNetwork_eq (h : s.ids.Nodup) (network : Nat) :
    ∃ dirty, s.pruneOnNetwork network = { s with
      connections := s.connections.map fun c => if s.yields network c = true then c.cut else c
      sortDirty := dirty } := by
  unfold pruneOnNetwork yields
  cases s.getBestConnectionOnNetwork network with
  | none => exact ⟨s.sortDirty, by simp⟩
  | some p =>
    dsimp only
    split
    · rename_i hp
      exact ⟨s.sortDirty, by simp [Connection.writable, hp]⟩
    · rename_i hp
      obtain ⟨dirty, hd⟩ := touched_foldl (s := s) (Q := fun s => s.ids.Nodup)
        (f := fun _ c => if (decide (c.id ≠ p.id) && c.network == network &&
          decide (0 ≤ p.compareConnectionCandidates c)) = true then c.cut else c)
        (fun id c => by split; exacts [c.cut_id, rfl])
        (fun hs h => h.ids (fun c => by split; exacts [c.cut_id, rfl]) ▸ hs)
        (fun s id hs => (touched_prune hs id).ite hs) h h
      refine ⟨dirty, hd.trans (congrArg (fun l => { s with connections := l, sortDirty := dirty })
        (List.map_congr_left fun c hc => ?_))⟩
      have hid : c.id ∈ s.ids := List.mem_map_of_mem hc
      have hw : p.writable = true := decide_eq_true (not_not.1 hp)
      rw [if_pos hid, Option.any_some, hw, Bool.true_and]

end P2PTransportChannel

/-- Pruned where `K` says so. -/
def Connection.cutIf (K : Connection → Bool) (c : Connection) : Connection :=
  if K c = true then c.cut else c

namespace Connection

variable (K : Connection → Bool) (c : Connection)

@[simp] theorem cutIf_id : (c.cutIf K).id = c.id := by unfold cutIf; split <;> simp

@[simp] theorem cutIf_network : (c.cutIf K).network = c.network := by unfold cutIf; split <;> simp

@[simp] theorem cutIf_priority : (c.cutIf K).priority = c.priority := by
  unfold cutIf; split <;> simp

end Connection

namespace P2PTransportChannel

variable {s s' : P2PTransportChannel}

/-- `s'` is `s` with some connections pruned, each of them one that yields to the primier of its
network in `s`. -/
def Pruning (s s' : P2PTransportChannel) : Prop :=
  ∃ (K : Connection → Bool) (dirty : Bool),
    (∀ c, K c = true → s.yields c.network c = true) ∧
    s' = { s with connections := s.connections.map (·.cutIf K), sortDirty := dirty }

theorem getBestConnectionOnNetwork_mem {network : Nat} {p : Connection}
    (h : s.getBestConnectionOnNetwork network = some p) :
    p ∈ s.connections ∧ p.network = network := by
  have hfirst (h : s.connections.find? (·.network == network) = some p) :
      p ∈ s.connections ∧ p.network = network :=
    ⟨List.mem_of_find?_eq_some h, by simpa using List.find?_some h⟩
  unfold getBestConnectionOnNetwork at h
  cases hb : s.bestConnection with
  | none =>
    rw [hb] at h
    exact hfirst h
  | some c =>
    rw [hb] at h
    dsimp only at h
    split at h
    · cases h
      obtain ⟨id, -, hc⟩ := Option.bind_eq_some_iff.1 hb
      exact ⟨(find_mem hc).1, ‹_›⟩
    · exact hfirst h

/-- Which connection is the primier of a network does not depend on what is pruned. -/
theorem getBestConnectionOnNetwork_cutIf (K : Connection → Bool) (dirty : Bool) (network : Nat) :
    getBestConnectionOnNetwork
      { s with connections := s.connections.map (·.cutIf K), sortDirty := dirty } network =
      (s.getBestConnectionOnNetwork network).map (·.cutIf K) := by
  have hbest : bestConnection
      { s with connections := s.connections.map (·.cutIf K), sortDirty := dirty } =
      s.bestConnection.map (·.cutIf K) := by
    unfold bestConnection
    cases s.best with
    | none => rfl
    | some id => exact find_map (fun c => c.cutIf_id K) id
  have hfirst : (s.connections.map (·.cutIf K)).find? (·.network == network) =
      (s.connections.find? (·.network == network)).map (·.cutIf K) := by
    rw [List.find?_map]
    congr 2
    funext c
    simp
  unfold getBestConnectionOnNetwork
  rw [hbest]
  cases s.bestConnection with
  | none => exact hfirst
  | some c =>
    simp only [Option.map_some, Connection.cutIf_network]
    split
    · rfl
    · exact hfirst

theorem yields_iff {network : Nat} {c : Connection} :
    s.yields network c = true ↔ ∃ p, s.getBestConnectionOnNetwork network = some p ∧
      p.writable = true ∧ c.id ≠ p.id ∧ c.network = network ∧
        0 ≤ p.compareConnectionCandidates c := by
  unfold yields
  rw [Option.any_eq_true]
  simp only [Bool.and_eq_true, decide_eq_true_eq, beq_iff_eq, and_assoc]

/-- The primier of a network is not pruned for another. -/
theorem Pruning.primier {K : Connection → Bool}
    (hK : ∀ c, K c = true → s.yields c.network c = true) {network : Nat} {p : Connection}
    (h : s.getBestConnectionOnNetwork network = some p) : p.cutIf K = p := by
  refine if_neg fun hp => ?_
  obtain ⟨q, hq, -, hne, -⟩ := yields_iff.1 (hK p hp)
  rw [(getBestConnectionOnNetwork_mem h).2, h] at hq
  cases hq
  exact hne rfl

theorem Pruning.nodup (h : Pruning s s') (hs : s.ids.Nodup) : s'.ids.Nodup := by
  obtain ⟨K, dirty, -, rfl⟩ := h
  have hids : (s.connections.map (·.cutIf K)).map (·.id) = s.ids := ids_map fun c _ => c.cutIf_id K
  exact (hids.symm ▸ hs : List.Nodup (List.map _ _))

theorem Pruning.pruneOnNetwork (h : Pruning s s') (hs : s.ids.Nodup) (network : Nat) :
    Pruning s (s'.pruneOnNetwork network) := by
  obtain ⟨dirty', hd⟩ := pruneOnNetwork_eq (h.nodup hs) network
  obtain ⟨K, dirty, hK, rfl⟩ := h
  set s' : P2PTransportChannel :=
    { s with connections := s.connections.map (·.cutIf K), sortDirty := dirty } with hs'
  have hyields : ∀ c, s'.yields network c = true → s.yields c.network c = true := fun c hc => by
    obtain ⟨q, hq, hw, hne, hn, hle⟩ := yields_iff.1 hc
    rw [hs', getBestConnectionOnNetwork_cutIf] at hq
    obtain ⟨p, hp, rfl⟩ := Option.map_eq_some_iff.1 hq
    rw [Pruning.primier hK hp] at hw hne hle
    exact yields_iff.2 ⟨p, hn ▸ hp, hw, hne, rfl, hle⟩
  refine ⟨fun c => K c || s'.yields network c, dirty', fun c hc => ?_, hd.trans ?_⟩
  · rcases Bool.or_eq_true_iff.1 hc with h | h
    · exact hK c h
    · exact hyields c h
  · refine congrArg (fun l => { s with connections := l, sortDirty := dirty' })
      ((List.map_map ..).trans (List.map_congr_left fun c _ => ?_))
    simp only [Function.comp_apply, Connection.cutIf]
    by_cases hk : K c = true
    · simp [hk]
    · simp [hk]

/-- Over any networks, in any order. -/
theorem prunedOn_pruning (hs : s.ids.Nodup) (networks : List Nat) :
    Pruning s (s.prunedOn networks) := by
  have hrun : ∀ (networks : List Nat) {s' : P2PTransportChannel}, Pruning s s' →
      Pruning s (s'.prunedOn networks) := by
    intro networks
    induction networks with
    | nil => exact fun h => h
    | cons network networks ih => exact fun h => ih (h.pruneOnNetwork hs network)
  refine hrun networks ⟨fun _ => false, s.sortDirty, fun _ h => (nomatch h), ?_⟩
  have : s.connections.map (·.cutIf fun _ => false) = s.connections :=
    (List.map_congr_left fun c _ => if_neg Bool.false_ne_true).trans (List.map_id _)
  rw [this]

/-! ## A sort -/

theorem perm_sorted (s : P2PTransportChannel) : s.sorted.connections.Perm s.connections :=
  List.perm_insertionSort _ _

theorem inv_sorted (h : s.Inv) : s.sorted.Inv where
  nodup := ((perm_sorted s).map _).nodup_iff.2 h.nodup
  best id hid := ((perm_sorted s).map _).mem_iff.2 (h.best id hid)
  flag := h.flag

theorem inv_chosen (h : s.Inv) : s.chosen.Inv := by
  unfold chosen
  split
  · refine ⟨h.nodup, fun id hid => ?_, h.flag⟩
    obtain ⟨c, hc, rfl⟩ := Option.map_eq_some_iff.1 hid
    exact List.mem_map_of_mem (List.mem_of_mem_head? hc)
  · exact h

theorem connections_chosen (s : P2PTransportChannel) : s.chosen.connections = s.connections := by
  unfold chosen
  split <;> rfl

theorem Pruning.inv (h : Pruning s s') (hs : s.Inv) : s'.Inv := by
  have hnodup := h.nodup hs.nodup
  obtain ⟨K, dirty, -, rfl⟩ := h
  have hids : (s.connections.map (·.cutIf K)).map (·.id) = s.ids := ids_map fun c _ => c.cutIf_id K
  exact ⟨hnodup, fun id hid => (hids.symm ▸ hs.best id hid : id ∈ List.map _ _), hs.flag⟩

theorem connections_handleWritability (s : P2PTransportChannel) :
    s.handleWritability.connections = s.connections ∧ s.handleWritability.best = s.best := by
  unfold handleWritability handleNotWritable handleWritable
  repeat' split
  all_goals exact ⟨rfl, rfl⟩

theorem bestConnection_handleWritability (s : P2PTransportChannel) :
    s.handleWritability.bestConnection = s.bestConnection := by
  unfold bestConnection find
  rw [(connections_handleWritability s).1, (connections_handleWritability s).2]

/-- The flag is set where the best connection is writable, and cleared elsewhere if it ever was
set. -/
theorem writable_handleWritability (h : s.writable = true → s.wasWritable = true) :
    s.handleWritability.writable = s.bestConnection.any (·.writable) ∧
      (s.handleWritability.writable = true → s.handleWritability.wasWritable = true) := by
  unfold handleWritability
  cases hb : s.bestConnection.any (·.writable) with
  | true => exact ⟨rfl, fun _ => rfl⟩
  | false =>
    rw [if_neg Bool.false_ne_true]
    unfold handleNotWritable
    split
    · exact ⟨rfl, fun hw => (nomatch hw)⟩
    · rename_i hwas
      exact ⟨Bool.eq_false_iff.2 fun hw => hwas (h hw), h⟩

theorem inv_handleWritability (h : s.Inv) : s.handleWritability.Inv := by
  obtain ⟨hc, hb⟩ := connections_handleWritability s
  refine ⟨?_, fun id hid => ?_, (writable_handleWritability h.flag).2⟩
  · unfold ids
    rw [hc]
    exact h.nodup
  · unfold ids
    rw [hc]
    exact h.best id (hb ▸ hid)

theorem inv_updateChannelState (h : s.Inv) : s.updateChannelState.Inv := ⟨h.nodup, h.best, h.flag⟩

theorem inv_sortConnections (h : s.Inv) (timing : Nat → Timing) :
    (s.sortConnections timing).Inv := by
  have hu : (s.updateConnectionStates timing).Inv := (stays_updateConnectionStates timing).inv h
  unfold sortConnections
  dsimp only
  split
  · exact inv_updateChannelState hu
  · have ht := inv_chosen (inv_sorted hu)
    exact inv_updateChannelState
      (inv_handleWritability ((prunedOn_pruning ht.nodup _).inv ht))

/-! ## Runs -/

theorem inv_onConnectionDestroyed (h : s.Inv) (id : Nat) : (s.onConnectionDestroyed id).Inv := by
  have hsub : ((s.connections.eraseP (·.id == id)).map (·.id)).Sublist s.ids :=
    List.eraseP_sublist.map _
  unfold onConnectionDestroyed
  dsimp only
  split
  · exact ⟨hsub.nodup h.nodup, fun _ hid => (nomatch hid), h.flag⟩
  · rename_i hb
    refine ⟨hsub.nodup h.nodup, fun id' hid' => ?_, h.flag⟩
    obtain ⟨c, hc, rfl⟩ := List.mem_map.1 (h.best id' hid')
    have hne : ¬ (c.id == id) = true := by
      rw [beq_iff_eq]
      rintro rfl
      exact hb hid'
    exact List.mem_map_of_mem ((List.mem_eraseP_of_neg (p := (·.id == id)) hne).2 hc)

theorem inv_onUseCandidate (h : s.Inv) (id : Nat) : (s.onUseCandidate id).Inv := by
  unfold onUseCandidate
  cases hc : s.find id with
  | none => exact h
  | some c =>
    dsimp only
    repeat' split
    · refine ⟨h.nodup, fun id' hid' => ?_, h.flag⟩
      cases hid'
      exact mem_ids_of_find hc
    · exact h
    · exact ⟨h.nodup, h.best, h.flag⟩

theorem inv_next {e : ChannelEvent} (h : s.Inv) (hn : s.next e = some s') : s'.Inv := by
  cases e with
  | addConnection c =>
    simp only [next] at hn
    split at hn
    · cases hn
    · rename_i hc
      cases hn
      refine ⟨?_, fun id hid => ?_, h.flag⟩
      · unfold ids
        rw [List.map_append, List.map_singleton]
        exact List.nodup_append.2 ⟨h.nodup, List.nodup_singleton _, fun a ha b hb => by
          rintro rfl
          exact hc (.inl (List.mem_singleton.1 hb ▸ ha))⟩
      · unfold ids
        rw [List.map_append]
        exact List.mem_append_left _ (h.best id hid)
  | readState id value =>
    cases hn
    exact (stays_setReadState id value).inv h
  | writeState id value =>
    cases hn
    exact (stays_setWriteState id value).inv h
  | estimate id rtt =>
    cases hn
    exact (stays_modify (f := ({ · with rtt })) id fun _ => rfl).inv h
  | candidates id iceRole localPriority remotePriority signalled =>
    cases hn
    have hm := stays_modify (s := s) id
      (f := ({ · with iceRole, localPriority, remotePriority })) fun _ => rfl
    split
    · exact (hm.trans (stays_onConnectionStateChange id)).inv h
    · exact hm.inv h
  | useCandidate id =>
    simp only [next] at hn
    split at hn
    · cases hn
      exact inv_onUseCandidate h id
    · cases hn
  | destroyed id =>
    simp only [next] at hn
    split at hn
    · cases hn
      exact inv_onConnectionDestroyed h id
    · cases hn
  | updateStates timing =>
    cases hn
    exact (stays_updateConnectionStates timing).inv h
  | sort timing =>
    cases hn
    exact inv_sortConnections h timing
  | setIceRole role =>
    cases hn
    exact ⟨h.nodup, h.best, h.flag⟩
  | setIceProtocolType type =>
    cases hn
    exact ⟨h.nodup, h.best, h.flag⟩
  | reset =>
    cases hn
    exact ⟨List.nodup_nil, fun _ hid => (nomatch hid), fun hw => (nomatch hw)⟩

theorem system_inv : system.Inductive Inv where
  init := by
    rintro _ rfl
    exact ⟨List.nodup_nil, fun _ hid => (nomatch hid), fun hw => (nomatch hw)⟩
  step _ _ _ h hn := inv_next h hn

/-- What holds after a sort, given the connections as the update of their states left them. -/
structure Sorted (u s' : P2PTransportChannel) : Prop where
  /-- There is a best connection where one is named, and the sort left it as it was. -/
  best : ∀ id, s'.best = some id → ∃ c ∈ u.connections, c.id = id ∧ s'.bestConnection = some c
  writable : (∃ c ∈ u.connections, c.writable = true) → ∃ c ∈ s'.connections, c.writable = true
  /-- What was pruned has a writable connection to stand for it. -/
  pruned : ∀ c ∈ u.connections, ∀ c' ∈ s'.connections, c'.id = c.id → c.pruned = false →
    c'.pruned = true →
      ∃ p ∈ s'.connections, p.writable = true ∧ p.network = c.network ∧ c.priority ≤ p.priority
  flag : s'.writable = true ↔ ∃ c, s'.bestConnection = some c ∧ c.writable = true
  asserts : s'.asserts = true

/-- The primier of a network is there and as it was when the networks are done. -/
theorem Pruning.stands {K : Connection → Bool}
    (hK : ∀ c, K c = true → s.yields c.network c = true) {c : Connection} (hc : K c = true) :
    ∃ p ∈ s.connections.map (·.cutIf K), p.writable = true ∧ p.network = c.network ∧
      c.priority ≤ p.priority := by
  obtain ⟨p, hp, hw, -, -, hle⟩ := yields_iff.1 (hK c hc)
  obtain ⟨hmem, hn⟩ := getBestConnectionOnNetwork_mem hp
  exact ⟨p, List.mem_map.2 ⟨p, hmem, Pruning.primier hK hp⟩, hw, hn,
    Connection.compareConnectionCandidates_nonneg hle⟩

/-- The best connection is the primier of its network. -/
theorem Pruning.bestConnection {K : Connection → Bool} (hs : s.Inv)
    (hK : ∀ c, K c = true → s.yields c.network c = true) {id : Nat} (hid : s.best = some id) :
    ∃ c ∈ s.connections, c.id = id ∧ s.bestConnection = some c ∧ c.cutIf K = c := by
  obtain ⟨c, hc⟩ := find_isSome_of_mem (hs.best id hid)
  obtain ⟨hmem, rfl⟩ := find_mem hc
  have hb : s.bestConnection = some c := by
    unfold P2PTransportChannel.bestConnection
    rw [hid]
    exact hc
  have hprimier : s.getBestConnectionOnNetwork c.network = some c := by
    unfold getBestConnectionOnNetwork
    rw [hb]
    exact if_pos rfl
  exact ⟨c, hmem, rfl, hb, Pruning.primier hK hprimier⟩

theorem sorted_of_pruning {u t v : P2PTransportChannel} (ht : t.Inv)
    (hperm : t.connections.Perm u.connections) (h : Pruning t v) :
    Sorted u v.handleWritability.updateChannelState := by
  have hv := h.inv ht
  have hfound : v.handleWritability.updateChannelState.bestConnection = v.bestConnection :=
    bestConnection_handleWritability v
  have hflag : v.handleWritability.updateChannelState.writable =
      v.bestConnection.any (·.writable) := (writable_handleWritability hv.flag).1
  have hcon : v.handleWritability.updateChannelState.connections = v.connections :=
    (connections_handleWritability v).1
  have hbest : v.handleWritability.updateChannelState.best = v.best :=
    (connections_handleWritability v).2
  obtain ⟨K, dirty, hK, rfl⟩ := h
  constructor
  case best =>
    intro id hid
    obtain ⟨c, hc, hcid, hb, hcut⟩ := Pruning.bestConnection ht hK (hbest.symm.trans hid)
    refine ⟨c, hperm.mem_iff.1 hc, hcid, hfound.trans ?_⟩
    have hfind := find_map (s := t) (fun c => c.cutIf_id K) id
    unfold P2PTransportChannel.bestConnection at hb ⊢
    rw [hbest.symm.trans hid] at hb
    rw [show t.best = some id from hbest.symm.trans hid]
    refine hfind.trans ?_
    rw [show t.find id = some c from hb, Option.map_some, hcut]
  case writable =>
    rintro ⟨c, hc, hw⟩
    rw [hcon]
    by_cases hk : K c = true
    · obtain ⟨p, hp, hpw, -, -⟩ := Pruning.stands hK hk
      exact ⟨p, hp, hpw⟩
    · exact ⟨c, List.mem_map.2 ⟨c, hperm.mem_iff.2 hc, if_neg hk⟩, hw⟩
  case pruned =>
    intro c hc c' hc' hid hnot hpruned
    rw [hcon] at hc' ⊢
    obtain ⟨d, hd, rfl⟩ := List.mem_map.1 hc'
    rw [Connection.cutIf_id] at hid
    cases List.inj_on_of_nodup_map ht.nodup hd (hperm.mem_iff.2 hc) hid
    refine Pruning.stands hK (by_contra fun hk => ?_)
    rw [Connection.cutIf, if_neg hk, hnot] at hpruned
    cases hpruned
  case flag =>
    rw [hflag, hfound, Option.any_eq_true]
  case asserts =>
    unfold asserts
    rw [hflag, hfound, beq_self_eq_true]

/-- Whatever the connections, what they do while the channel sorts them, and what happened before,
the sort keeps the best connection and a writable one, and the flag is right. -/
theorem sortConnections_safe (h : system.Reachable s) (hp : s.protocolType ≠ .hybrid)
    (timing : Nat → Timing) :
    StrictWeakOn Connection.connectionCompare (·.generations < 2147483648) ∧
      Sorted (s.updateConnectionStates timing) (s.sortConnections timing) := by
  have hstays := stays_updateConnectionStates (s := s) timing
  have hu := hstays.inv (system_inv.reachable s h)
  refine ⟨Connection.connectionCompare_strictWeak, ?_⟩
  unfold sortConnections
  rw [if_neg (hstays.protocolType ▸ hp)]
  have ht := inv_chosen (inv_sorted hu)
  refine sorted_of_pruning ht ?_ (prunedOn_pruning ht.nodup _)
  rw [connections_chosen]
  exact perm_sorted _

/-- Two writable connections of a controlling channel, on one network. -/
def pairEvents : List ChannelEvent :=
  [.setIceProtocolType .rfc5245, .setIceRole .controlling,
    .addConnection ⟨0, 7, .controlling, 100, 50, 0, 0, .init, .init, false, 3000⟩,
    .addConnection ⟨1, 7, .controlling, 200, 150, 0, 0, .init, .init, false, 3000⟩,
    .writeState 0 .writable, .writeState 1 .writable]

def pairChannel : P2PTransportChannel := (pairEvents.foldlM next {}).getD {}

theorem pairChannel_reachable : system.Reachable pairChannel :=
  ⟨{}, pairEvents, rfl, LTS.Run.of_foldlM (by decide)⟩

theorem pairChannel_safe :
    StrictWeakOn Connection.connectionCompare (·.generations < 2147483648) ∧
      Sorted (pairChannel.updateConnectionStates fun _ => {})
        (pairChannel.sortConnections fun _ => {}) :=
  sortConnections_safe pairChannel_reachable (by decide) fun _ => {}

/-- The one that is preferred is best, and the other is pruned for it. -/
example : let s := pairChannel.sortConnections fun _ => {}
    s.best = some 1 ∧ s.connections.map (·.pruned) = [false, true] := by
  decide

end P2PTransportChannel
end RtcCore.L4.Ice
