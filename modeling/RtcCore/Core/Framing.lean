/-!
# Messages in a stream

A reader of a stream takes the first message off what it has buffered as soon as all of it is
there. `Framing` is what it needs for that: a frame for every message, and a function that reads
the first message off the front. `cut` is the loop of the reader; whatever the chunks the stream
comes in, it takes the messages off one by one (`cut_frames`). `Flow` relates the two ends of one
direction, with octets in the reader's buffer, under way and in the writer's buffer.
-/
namespace RtcCore

structure Framing (α M : Type) where
  Ok : M → Prop
  frame : M → List α
  next : List α → Option (M × Nat)
  empty : next [] = none
  pos : ∀ {m}, Ok m → 0 < (frame m).length
  whole : ∀ {m} (rest : List α), Ok m → next (frame m ++ rest) = some (m, (frame m).length)
  short : ∀ {m data tail}, Ok m → data ++ tail = frame m → tail ≠ [] → next data = none

namespace Framing

variable {α M : Type} (F : Framing α M) {m : M} {ms left : List M} {data tail : List α}

def frames (ms : List M) : List α := ms.flatMap F.frame

theorem frames_cons (m : M) (ms : List M) : F.frames (m :: ms) = F.frame m ++ F.frames ms := rfl

theorem frames_append (a b : List M) : F.frames (a ++ b) = F.frames a ++ F.frames b :=
  List.flatMap_append

theorem frames_singleton (m : M) : F.frames [m] = F.frame m := List.append_nil _

/-! ## The reader -/

/-- The messages taken off, and what is left. Every pass takes octets off, so as many passes as
there are octets are enough. -/
def cut : Nat → List α → List M × List α
  | 0, data => ([], data)
  | fuel + 1, data =>
    match F.next data with
    | none => ([], data)
    | some (m, n) =>
      let r := cut fuel (data.drop n)
      (m :: r.1, r.2)

theorem cut_none {fuel : Nat} (h : F.next data = none) : F.cut (fuel + 1) data = ([], data) := by
  rw [cut, h]

theorem cut_some {fuel n : Nat} (h : F.next data = some (m, n)) :
    F.cut (fuel + 1) data = (m :: (F.cut fuel (data.drop n)).1, (F.cut fuel (data.drop n)).2) := by
  rw [cut, h]

/-- What the reader holds while `left` are still to come: less than the first of them. -/
def Within (left : List M) (data : List α) : Prop :=
  ∀ m ∈ left.head?, data.length < (F.frame m).length

/-- Octets in front of a stream of messages are a part of the first, or all of it and more. -/
theorem front (h : data ++ tail = F.frames (m :: ms)) :
    (∃ b, b ≠ [] ∧ data ++ b = F.frame m) ∨
      ∃ data', data = F.frame m ++ data' ∧ data' ++ tail = F.frames ms := by
  rw [frames_cons] at h
  rcases List.append_eq_append_iff.1 h with ⟨b, hb, htail⟩ | ⟨data', hdata, hrest⟩
  · by_cases hnil : b = []
    · subst hnil
      rw [List.append_nil] at hb
      exact .inr ⟨[], by rw [List.append_nil, hb], by simpa using htail⟩
    · exact .inl ⟨b, hnil, hb.symm⟩
  · exact .inr ⟨data', hdata, hrest.symm⟩

theorem cut_frames {fuel : Nat} (hok : ∀ m ∈ ms, F.Ok m) (h : data ++ tail = F.frames ms)
    (hf : data.length ≤ fuel) :
    ∃ left, ms = (F.cut fuel data).1 ++ left ∧ (F.cut fuel data).2 ++ tail = F.frames left ∧
      F.Within left (F.cut fuel data).2 := by
  induction fuel generalizing data ms with
  | zero =>
    have hnil : data = [] := List.length_eq_zero_iff.1 (by omega)
    subst hnil
    exact ⟨ms, rfl, h, fun m hm => F.pos (hok m (List.mem_of_mem_head? hm))⟩
  | succ fuel ih =>
    cases ms with
    | nil =>
      have hnil : data = [] := (List.append_eq_nil_iff.1 h).1
      subst hnil
      rw [F.cut_none F.empty]
      exact ⟨[], rfl, h, fun m hm => (by cases hm)⟩
    | cons m ms =>
      have hm := hok m List.mem_cons_self
      rcases F.front h with ⟨b, hb, hpart⟩ | ⟨data', rfl, hrest⟩
      · rw [F.cut_none (F.short hm hpart hb)]
        refine ⟨m :: ms, rfl, h, fun x hx => ?_⟩
        cases hx
        rw [← hpart, List.length_append]
        change data.length < _
        have := List.length_pos_iff.2 hb
        omega
      · have hpos := F.pos hm
        rw [List.length_append] at hf
        obtain ⟨left, hms, hstream, hwithin⟩ :=
          ih (fun x hx => hok x (List.mem_cons_of_mem _ hx)) hrest (by omega)
        rw [F.cut_some (F.whole data' hm), List.drop_left]
        exact ⟨left, congrArg (m :: ·) hms, hstream, hwithin⟩

/-! ## One direction of a connection -/

/-- `buffered` is what the reader has of the messages `left` that are still to come, `under` what
is under way and `out` what the writer holds back. -/
structure Flow (sent got : List M) (buffered under out : List α) (left : List M) : Prop where
  split : sent = got ++ left
  stream : buffered ++ under ++ out = F.frames left
  within : F.Within left buffered
  ok : ∀ m ∈ sent, F.Ok m

namespace Flow

variable {F} {sent got : List M} {buffered under out a b : List α}

theorem start : F.Flow [] [] [] [] [] [] :=
  ⟨rfl, rfl, fun m hm => (by cases hm), fun m hm => (by cases hm)⟩

/-- The writer's buffer goes out in part. -/
theorem write (h : F.Flow sent got buffered under out left) (ho : a ++ b = out) :
    F.Flow sent got buffered (under ++ a) b left := by
  refine ⟨h.split, ?_, h.within, h.ok⟩
  rw [← h.stream, ← ho]
  simp only [List.append_assoc]

/-- A message is taken, with nothing of another one held back. -/
theorem accept (h : F.Flow sent got buffered under [] left) (hm : F.Ok m) (ho : a ++ b = F.frame m) :
    F.Flow (sent ++ [m]) got buffered (under ++ a) b (left ++ [m]) := by
  have hstream := h.stream
  rw [List.append_nil] at hstream
  refine ⟨by rw [h.split, List.append_assoc], ?_, fun x hx => ?_, fun x hx => ?_⟩
  · rw [F.frames_append, ← hstream, F.frames_singleton, ← ho]
    simp only [List.append_assoc]
  · cases left with
    | nil =>
      have hnil : buffered = [] := (List.append_eq_nil_iff.1 hstream).1
      cases hx
      rw [hnil]
      exact F.pos hm
    | cons y left => exact h.within x hx
  · rcases List.mem_append.1 hx with hx | hx
    · exact h.ok x hx
    · rw [List.mem_singleton.1 hx]
      exact hm

/-- The next octets come in, any number of them. -/
theorem read (h : F.Flow sent got buffered under out left) (n : Nat) {r : List M × List α}
    (hr : r = F.cut (buffered ++ under.take n).length (buffered ++ under.take n)) :
    ∃ left', F.Flow sent (got ++ r.1) r.2 (under.drop n) out left' := by
  have hleft : ∀ m ∈ left, F.Ok m := fun m hm => h.ok m (by rw [h.split]; simp [hm])
  have hstream : (buffered ++ under.take n) ++ (under.drop n ++ out) = F.frames left := by
    rw [← h.stream]
    conv => rhs; rw [← List.take_append_drop n under]
    simp only [List.append_assoc]
  obtain ⟨left', hsplit, hrest, hwithin⟩ := F.cut_frames hleft hstream (Nat.le_refl _)
  subst hr
  refine ⟨left', ?_, ?_, hwithin, h.ok⟩
  · rw [h.split, List.append_assoc]
    exact congrArg _ hsplit
  · rw [List.append_assoc]
    exact hrest

/-- The reader holds less than a message. -/
theorem room (h : F.Flow sent got buffered under out left) {n : Nat} (hn : 0 < n)
    (hfit : ∀ m, F.Ok m → (F.frame m).length ≤ n) : buffered.length < n := by
  cases left with
  | nil =>
    have hstream := h.stream
    have hnil : buffered = [] :=
      (List.append_eq_nil_iff.1 (List.append_eq_nil_iff.1 hstream).1).1
    rw [hnil]
    exact hn
  | cons m left =>
    have hm := h.ok m (by rw [h.split]; simp)
    exact Nat.lt_of_lt_of_le (h.within m rfl) (hfit m hm)

/-- Nothing stays behind in the reader's buffer. -/
theorem drained (h : F.Flow sent got buffered [] [] left) : got = sent := by
  cases left with
  | nil => rw [h.split, List.append_nil]
  | cons m left =>
    have hstream := h.stream
    have hshort := h.within m rfl
    rw [List.append_nil, List.append_nil, F.frames_cons] at hstream
    rw [hstream, List.length_append] at hshort
    omega

end Flow

end Framing

end RtcCore
