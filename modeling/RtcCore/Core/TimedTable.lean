import Mathlib.Data.List.Nodup

/-!
# A table of objects with one timer each

Objects are known by their address and hold a value; the table lists them in the
order they came, and a queue has the messages that are still to be delivered to
them, each for an address at a time. To refresh an object is to take its messages
back and post one; an object that is destroyed is taken from the list and its
messages from the queue.

Results: `Sound` (no address twice, and exactly one message for each object) is
kept by every operation, given that a new object is at an address of its own;
`Distinct` values stay distinct if a value is looked up before it is added;
`values_add` and `values_refresh` are the operations without addresses.
-/
namespace RtcCore

structure TimedTable (κ : Type) where
  entries : List (Nat × κ) := []
  queue : List (Nat × Nat) := []
  deriving DecidableEq

namespace TimedTable

variable {κ ι : Type} (t : TimedTable κ) (p : Nat)

/-! ## Operations -/

def addresses : List Nat := t.entries.map Prod.fst

/-- Takes the messages for an object back. -/
def clear : TimedTable κ := { t with queue := t.queue.filter fun m => m.1 ≠ p }

def post (due : Nat) : TimedTable κ := { t with queue := t.queue ++ [(p, due)] }

def refresh (due : Nat) : TimedTable κ := (t.clear p).post p due

def add (x : κ) (due : Nat) : TimedTable κ :=
  ({ t with entries := t.entries ++ [(p, x)] } : TimedTable κ).refresh p due

def destroy : TimedTable κ :=
  ({ t with entries := t.entries.eraseP fun e => e.1 = p } : TimedTable κ).clear p

/-- The address of the first object with such a value. -/
def find? (f : κ → Bool) : Option Nat := (t.entries.find? fun e => f e.2).map Prod.fst

def due (q : List (Nat × Nat)) (p : Nat) : Nat := ((q.find? fun m => m.1 == p).map Prod.snd).getD 0

/-- What the objects hold, with the times their messages are due. -/
def values : List (κ × Nat) := t.entries.map fun e => (e.2, due t.queue e.1)

/-! ## Invariants -/

/-- Each object is listed once, and there is exactly one message for it. -/
structure Sound : Prop where
  objects : t.addresses.Nodup
  messages : (t.queue.map Prod.fst).Nodup
  armed : ∀ p, p ∈ t.queue.map Prod.fst ↔ p ∈ t.addresses

/-- What tells the values apart. -/
def Distinct (g : κ → ι) : Prop := (t.entries.map fun e => g e.2).Nodup

variable {t p} {x : κ} {d : Nat} {f : κ → Bool} {g : κ → ι}

theorem sound_empty : ({} : TimedTable κ).Sound := ⟨.nil, .nil, fun _ => Iff.rfl⟩

@[simp] theorem refresh_entries : (t.refresh p d).entries = t.entries := rfl

@[simp] theorem add_entries : (t.add p x d).entries = t.entries ++ [(p, x)] := rfl

theorem refresh_queue : (t.refresh p d).queue = t.queue.filter (fun m => m.1 ≠ p) ++ [(p, d)] := rfl

/-- The handlers of a queue without one of them. -/
theorem map_fst_filter (q : List (Nat × Nat)) :
    (q.filter fun m => m.1 ≠ p).map Prod.fst = (q.map Prod.fst).filter (· ≠ p) := by
  rw [List.filter_map]
  rfl

theorem refresh_messages (h : (t.queue.map Prod.fst).Nodup) :
    ((t.refresh p d).queue.map Prod.fst).Nodup := by
  rw [refresh_queue, List.map_append, map_fst_filter]
  refine List.nodup_append.2 ⟨h.filter _, List.nodup_singleton p, ?_⟩
  intro a ha b hb
  rw [List.map_singleton, List.mem_singleton] at hb
  rw [hb]
  exact of_decide_eq_true (List.mem_filter.1 ha).2

theorem mem_refresh_messages {a : Nat} :
    a ∈ (t.refresh p d).queue.map Prod.fst ↔ a ∈ t.queue.map Prod.fst ∨ a = p := by
  rw [refresh_queue, List.map_append, map_fst_filter, List.mem_append, List.mem_filter,
    List.map_singleton, List.mem_singleton, decide_eq_true_eq]
  by_cases h : a = p
  · simp [h]
  · simp [h]

theorem Sound.refresh (h : t.Sound) (hp : p ∈ t.addresses) : (t.refresh p d).Sound where
  objects := h.objects
  messages := refresh_messages h.messages
  armed a := by
    rw [mem_refresh_messages, h.armed]
    refine ⟨fun ha => ha.elim id ?_, Or.inl⟩
    rintro rfl
    exact hp

theorem Sound.add (h : t.Sound) (hp : p ∉ t.addresses) : (t.add p x d).Sound where
  objects := by
    rw [addresses, add_entries, List.map_append]
    refine List.nodup_append.2 ⟨h.objects, List.nodup_singleton p, ?_⟩
    intro a ha b hb hab
    rw [List.map_singleton, List.mem_singleton] at hb
    rw [hab, hb] at ha
    exact hp ha
  messages := refresh_messages h.messages
  armed a := by
    have hmem : a ∈ (t.add p x d).addresses ↔ a ∈ t.addresses ∨ a = p := by
      simp [addresses]
    rw [hmem, ← h.armed]
    exact mem_refresh_messages

theorem destroy_addresses : (t.destroy p).addresses = t.addresses.erase p := by
  unfold destroy clear addresses
  induction t.entries with
  | nil => rfl
  | cons e l ih =>
    by_cases he : e.1 = p
    · simp [he]
    · simp [he, ih]

theorem Sound.destroy (h : t.Sound) : (t.destroy p).Sound where
  objects := by
    rw [destroy_addresses]
    exact h.objects.erase p
  messages := by
    unfold TimedTable.destroy clear
    rw [map_fst_filter]
    exact h.messages.filter _
  armed a := by
    rw [destroy_addresses, h.objects.mem_erase_iff]
    unfold TimedTable.destroy clear
    rw [map_fst_filter, List.mem_filter, h.armed, decide_eq_true_eq, and_comm]

theorem find?_mem (h : t.find? f = some p) : p ∈ t.addresses := by
  obtain ⟨e, he, rfl⟩ := Option.map_eq_some_iff.1 h
  exact List.mem_map_of_mem (List.mem_of_find?_eq_some he)

theorem Distinct.add [DecidableEq ι] (h : t.Distinct g) (hx : t.find? (g · == g x) = none) :
    (t.add p x d).Distinct g := by
  rw [Distinct, add_entries, List.map_append]
  refine List.nodup_append.2 ⟨h, List.nodup_singleton _, ?_⟩
  intro a ha b hb hab
  obtain ⟨e, he, rfl⟩ := List.mem_map.1 ha
  rw [List.map_singleton, List.mem_singleton] at hb
  rw [find?, Option.map_eq_none_iff] at hx
  exact absurd (hab.trans hb) (by simpa using List.find?_eq_none.1 hx e he)

theorem Distinct.destroy (h : t.Distinct g) : (t.destroy p).Distinct g :=
  h.sublist (List.eraseP_sublist.map _)

/-- The object found under a value that tells it apart from the others. -/
theorem Distinct.find? [DecidableEq ι] (h : t.Distinct g) {e : Nat × κ} (he : e ∈ t.entries) :
    t.entries.find? (fun e' => g e'.2 == g e.2) = some e := by
  unfold Distinct at h
  generalize t.entries = l at h he ⊢
  induction l with
  | nil => cases he
  | cons e' l ih =>
    rw [List.map_cons, List.nodup_cons] at h
    rw [List.find?_cons]
    rcases List.mem_cons.1 he with rfl | he
    · simp
    · have hne : g e'.2 ≠ g e.2 := fun hc => h.1 (hc ▸ List.mem_map_of_mem he)
      rw [beq_false_of_ne hne]
      exact ih h.2 he

/-! ## Without addresses -/

@[simp] theorem due_post_same (q : List (Nat × Nat)) :
    due (q.filter (fun m => m.1 ≠ p) ++ [(p, d)]) p = d := by
  have hnone : (q.filter fun m => m.1 ≠ p).find? (fun m => m.1 == p) = none :=
    List.find?_eq_none.2 fun m hm => by simpa using (List.mem_filter.1 hm).2
  rw [due, List.find?_append, hnone]
  simp

theorem due_post_other (q : List (Nat × Nat)) {a : Nat} (ha : a ≠ p) :
    due (q.filter (fun m => m.1 ≠ p) ++ [(p, d)]) a = due q a := by
  have hlast : ([(p, d)] : List (Nat × Nat)).find? (fun m => m.1 == a) = none := by
    simp [ha.symm]
  rw [due, due, List.find?_append, hlast, Option.or_none, List.find?_filter]
  congr 3
  funext m
  by_cases hm : m.1 = a
  · simp [hm, ha]
  · simp [hm]

theorem values_add (hp : p ∉ t.addresses) : (t.add p x d).values = t.values ++ [(x, d)] := by
  unfold values
  rw [add_entries, List.map_append]
  congr 1
  · refine List.map_congr_left fun e he => ?_
    have hne : e.1 ≠ p := fun hc => hp (hc ▸ List.mem_map_of_mem he)
    exact congrArg (Prod.mk e.2) (due_post_other t.queue hne)
  · change [(x, due (t.queue.filter (fun m => m.1 ≠ p) ++ [(p, d)]) p)] = [(x, d)]
    rw [due_post_same]

/-- The object found is the one at the place found. -/
theorem find?_place (t : TimedTable κ) (f : κ → Bool) :
    (t.find? f = none ∧ t.entries.findIdx? (fun e => f e.2) = none) ∨
      ∃ i, ∃ hi : i < t.entries.length, t.entries.findIdx? (fun e => f e.2) = some i ∧
        t.find? f = some t.entries[i].1 := by
  cases hplace : t.entries.findIdx? (fun e => f e.2) with
  | none =>
    have hno : t.entries.find? (fun e => f e.2) = none :=
      List.find?_eq_none.2 fun e he => by simpa using List.findIdx?_eq_none_iff.1 hplace e he
    exact .inl ⟨by rw [find?, hno, Option.map_none], rfl⟩
  | some i =>
    obtain ⟨hi, hf, hbefore⟩ := List.findIdx?_eq_some_iff_getElem.1 hplace
    have hfound : t.entries.find? (fun e => f e.2) = some t.entries[i] :=
      List.find?_eq_some_iff_getElem.2 ⟨hf, i, hi, rfl, fun j hj => by simpa using hbefore j hj⟩
    exact .inr ⟨i, hi, rfl, by rw [find?, hfound, Option.map_some]⟩

/-- What a refresh does to the object at a place of the list. -/
theorem values_refresh (h : t.Sound) {i : Nat} (hi : i < t.entries.length)
    (hp : t.entries[i].1 = p) :
    (t.refresh p d).values = t.values.modify i fun v => (v.1, d) := by
  apply List.ext_getElem
  · simp [values]
  · intro j hj _
    have hjl : j < t.entries.length := by simpa [values] using hj
    rw [List.getElem_modify]
    simp only [values, refresh_entries, List.getElem_map, refresh_queue]
    by_cases hij : i = j
    · subst hij
      rw [if_pos rfl, hp, due_post_same]
    · have hne : t.entries[j].1 ≠ p := by
        intro hc
        have hil : i < t.addresses.length := by simpa [addresses] using hi
        have hjl' : j < t.addresses.length := by simpa [addresses] using hjl
        refine hij (h.objects.getElem_inj_iff.1 (show t.addresses[i] = t.addresses[j] from ?_))
        simp only [addresses, List.getElem_map, hp, hc]
      rw [if_neg hij, due_post_other _ hne]

end TimedTable
end RtcCore
