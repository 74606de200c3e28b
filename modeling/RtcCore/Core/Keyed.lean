/-!
# Ordered containers

`std::map` and `std::set` under a user-supplied comparator, as lists in
iteration order. Two keys are equivalent when neither is less than the
other; an insertion under a key equivalent to one that is there does
nothing, and the element to be inserted is lost to the container.
`insertEnd` is an insertion with the end as hint, `dropThrough k` is
`erase(begin(), upper_bound(k))`.
-/
namespace RtcCore.Keyed

variable {α κ : Type} (lt : κ → κ → Bool) (key : α → κ)

def equiv (a b : κ) : Bool := !lt a b && !lt b a

def insert (x : α) (l : List α) : List α :=
  if l.any fun y => equiv lt (key x) (key y) then l
  else l.takeWhile (fun y => lt (key y) (key x)) ++ x :: l.dropWhile fun y => lt (key y) (key x)

/-- What is greater than the last element goes behind it, without a look at the others. -/
def insertEnd (x : α) (l : List α) : List α :=
  if l.getLast?.any fun y => lt (key y) (key x) then l ++ [x] else insert lt key x l

/-- The element under a key equivalent to `k`, and the others. -/
def pop (k : κ) : List α → Option (α × List α)
  | [] => none
  | y :: l =>
    if equiv lt (key y) k then some (y, l)
    else
      match pop k l with
      | none => none
      | some (x, l') => some (x, y :: l')

def erase (k : κ) (l : List α) : List α :=
  match pop lt key k l with
  | none => l
  | some (_, l') => l'

def dropThrough (k : κ) (l : List α) : List α := l.dropWhile fun y => !lt k (key y)

section Lemmas

variable {lt : κ → κ → Bool} {key : α → κ} {x : α} {l l' : List α} {k : κ}

theorem pop_some (h : pop lt key k l = some (x, l')) :
    equiv lt (key x) k = true ∧ ∃ a b, l = a ++ x :: b ∧ l' = a ++ b := by
  induction l generalizing l' with
  | nil => cases h
  | cons y l ih =>
    simp only [pop] at h
    split at h
    · rename_i he
      cases h
      exact ⟨he, [], l, rfl, rfl⟩
    · split at h
      · cases h
      · rename_i z m hp
        cases h
        obtain ⟨hk, a, b, rfl, rfl⟩ := ih hp
        exact ⟨hk, y :: a, b, rfl, rfl⟩

theorem pop_none (h : pop lt key k l = none) : ∀ y ∈ l, equiv lt (key y) k = false := by
  induction l with
  | nil => intro y hy; exact absurd hy List.not_mem_nil
  | cons z l ih =>
    simp only [pop] at h
    split at h
    · cases h
    · rename_i he
      split at h
      · rename_i hp
        intro y hy
        rcases List.mem_cons.1 hy with rfl | hy
        · exact Bool.eq_false_iff.2 he
        · exact ih hp y hy
      · cases h

theorem insert_new (h : ∀ y ∈ l, equiv lt (key x) (key y) = false) :
    ∃ a b, l = a ++ b ∧ insert lt key x l = a ++ x :: b ∧
      a = l.takeWhile (fun y => lt (key y) (key x)) := by
  have hany : ¬ (l.any fun y => equiv lt (key x) (key y)) = true := by
    intro hc
    obtain ⟨y, hy, he⟩ := List.any_eq_true.1 hc
    rw [h y hy] at he
    cases he
  exact ⟨_, _, List.takeWhile_append_dropWhile.symm, if_neg hany, rfl⟩

theorem mem_insert {y : α} (h : y ∈ insert lt key x l) : y = x ∨ y ∈ l := by
  unfold insert at h
  split at h
  · exact .inr h
  · rcases List.mem_append.1 h with h | h
    · exact .inr ((List.takeWhile_sublist _).subset h)
    · rcases List.mem_cons.1 h with h | h
      · exact .inl h
      · exact .inr ((List.dropWhile_sublist _).subset h)

theorem mem_insertEnd {y : α} (h : y ∈ insertEnd lt key x l) : y = x ∨ y ∈ l := by
  unfold insertEnd at h
  split at h
  · rcases List.mem_append.1 h with h | h
    · exact .inr h
    · exact .inl (List.mem_singleton.1 h)
  · exact mem_insert h

theorem insertEnd_of_last (h : ∀ y ∈ l.getLast?, lt (key y) (key x) = true) :
    insertEnd lt key x l = l ++ [x] := by
  unfold insertEnd
  cases hl : l.getLast? with
  | none =>
    rw [List.getLast?_eq_none_iff.1 hl]
    rfl
  | some y => exact if_pos (h y hl)

theorem insertEnd_new (h : ∀ y ∈ l, equiv lt (key x) (key y) = false) :
    ∃ a b, l = a ++ b ∧ insertEnd lt key x l = a ++ x :: b := by
  unfold insertEnd
  split
  · exact ⟨l, [], (List.append_nil l).symm, rfl⟩
  · obtain ⟨a, b, hab, hi, -⟩ := insert_new h
    exact ⟨a, b, hab, hi⟩

theorem dropThrough_sublist : (dropThrough lt key k l).Sublist l := List.dropWhile_sublist _

theorem erase_sublist : (erase lt key k l).Sublist l := by
  unfold erase
  split
  · exact .refl _
  · rename_i x l' h
    obtain ⟨-, a, b, rfl, rfl⟩ := pop_some h
    exact (List.sublist_cons_self x b).append_left a

end Lemmas

/-! ## Comparators that are an order where it matters -/

/-- On the keys in `S` the comparator is the order of `rank`. -/
structure Ranked (lt : κ → κ → Bool) (S : κ → Prop) (rank : κ → Nat) : Prop where
  lt_iff : ∀ {a b}, S a → S b → (lt a b = true ↔ rank a < rank b)
  inj : ∀ {a b}, S a → S b → rank a = rank b → a = b

section Ranked

variable {lt : κ → κ → Bool} {key : α → κ} {S : κ → Prop} {rank : κ → Nat} {x : α} {l l' : List α}
  {k : κ}

theorem Ranked.equiv_iff (h : Ranked lt S rank) {a b : κ} (ha : S a) (hb : S b) :
    equiv lt a b = true ↔ a = b := by
  simp only [equiv, Bool.and_eq_true, Bool.not_eq_true']
  rw [Bool.eq_false_iff, Bool.eq_false_iff, ne_eq, ne_eq, h.lt_iff ha hb, h.lt_iff hb ha]
  constructor
  · rintro ⟨h1, h2⟩
    exact h.inj ha hb (by omega)
  · rintro rfl
    exact ⟨Nat.lt_irrefl _, Nat.lt_irrefl _⟩

/-- Insertion behind everything there is. -/
theorem Ranked.insert_last (h : Ranked lt S rank) (hl : ∀ y ∈ l, S (key y)) (hx : S (key x))
    (hlt : ∀ y ∈ l, rank (key y) < rank (key x)) : insert lt key x l = l ++ [x] := by
  have hnew : ∀ y ∈ l, equiv lt (key x) (key y) = false := by
    intro y hy
    refine Bool.eq_false_iff.2 fun hc => ?_
    have := hlt y hy
    rw [(h.equiv_iff hx (hl y hy)).1 hc] at this
    exact Nat.lt_irrefl _ this
  obtain ⟨a, b, hab, hi, ha⟩ := insert_new hnew
  have hall : (l ++ []).takeWhile (fun y => lt (key y) (key x)) =
      l ++ [].takeWhile (fun y => lt (key y) (key x)) :=
    List.takeWhile_append_of_pos fun y hy => (h.lt_iff (hl y hy) hx).2 (hlt y hy)
  rw [List.append_nil, List.takeWhile_nil, List.append_nil] at hall
  rw [hall] at ha
  subst ha
  have hb : b = [] := by
    have := congrArg List.length hab
    rw [List.length_append] at this
    exact List.eq_nil_of_length_eq_zero (by omega)
  rw [hi, hb]

/-- Insertion keeps the order. -/
theorem Ranked.insert_pairwise (h : Ranked lt S rank) (hl : ∀ y ∈ l, S (key y)) (hx : S (key x))
    (ho : l.Pairwise fun a b => rank (key a) < rank (key b)) :
    (insert lt key x l).Pairwise fun a b => rank (key a) < rank (key b) := by
  unfold insert
  split
  · exact ho
  rename_i hnew
  have hsplit := List.takeWhile_append_dropWhile (p := fun y => lt (key y) (key x)) (l := l)
  have hpre : ∀ y ∈ l.takeWhile fun y => lt (key y) (key x), rank (key y) < rank (key x) :=
    fun y hy => (h.lt_iff (hl y ((List.takeWhile_sublist _).subset hy)) hx).1
      (List.all_eq_true.1 List.all_takeWhile y hy)
  generalize l.takeWhile (fun y => lt (key y) (key x)) = a at hsplit hpre
  have hsuf : ∀ y ∈ l.dropWhile fun y => lt (key y) (key x), rank (key x) < rank (key y) := by
    cases hd : l.dropWhile fun y => lt (key y) (key x) with
    | nil => exact fun y hy => (by cases hy)
    | cons d b =>
      rw [hd] at hsplit
      have hdl : d ∈ l := by rw [← hsplit]; simp
      -- the first that is not less is not equivalent either, so it is greater
      have hnot : ¬ rank (key d) < rank (key x) := by
        rw [← h.lt_iff (hl d hdl) hx]
        have := List.head_dropWhile_not (fun y => lt (key y) (key x)) (by rw [hd]; simp)
        simpa [hd] using this
      have hne : rank (key x) ≠ rank (key d) := fun hc => hnew (List.any_eq_true.2
        ⟨d, hdl, (h.equiv_iff hx (hl d hdl)).2 (h.inj hx (hl d hdl) hc)⟩)
      have hdx : rank (key x) < rank (key d) := by omega
      rw [← hsplit] at ho
      have hrest := (List.pairwise_cons.1 (List.pairwise_append.1 ho).2.1).1
      intro y hy
      rcases List.mem_cons.1 hy with rfl | hy
      · exact hdx
      · exact Nat.lt_trans hdx (hrest y hy)
  rw [← hsplit] at ho
  obtain ⟨ha, hb, hab⟩ := List.pairwise_append.1 ho
  refine List.pairwise_append.2 ⟨ha, List.pairwise_cons.2 ⟨hsuf, hb⟩, fun y hy z hz => ?_⟩
  rcases List.mem_cons.1 hz with rfl | hz
  · exact hpre y hy
  · exact hab y hy z hz

theorem Ranked.insertEnd_last (h : Ranked lt S rank) (hl : ∀ y ∈ l, S (key y)) (hx : S (key x))
    (hlt : ∀ y ∈ l, rank (key y) < rank (key x)) : insertEnd lt key x l = l ++ [x] := by
  unfold insertEnd
  split
  · rfl
  · exact h.insert_last hl hx hlt

theorem Ranked.insertEnd_pairwise (h : Ranked lt S rank) (hl : ∀ y ∈ l, S (key y)) (hx : S (key x))
    (ho : l.Pairwise fun a b => rank (key a) < rank (key b)) :
    (insertEnd lt key x l).Pairwise fun a b => rank (key a) < rank (key b) := by
  unfold insertEnd
  split
  · rename_i hlast
    obtain ⟨z, hz, hzx⟩ := (Option.any_eq_true ..).1 hlast
    obtain ⟨a, rfl⟩ := List.getLast?_eq_some_iff.1 hz
    have hzx := (h.lt_iff (hl z (by simp)) hx).1 hzx
    refine List.pairwise_append.2 ⟨ho, List.pairwise_singleton .., fun y hy w hw => ?_⟩
    rw [List.mem_singleton.1 hw]
    rcases List.mem_append.1 hy with hy | hy
    · exact Nat.lt_trans ((List.pairwise_append.1 ho).2.2 y hy z (List.mem_singleton.2 rfl)) hzx
    · rw [List.mem_singleton.1 hy]
      exact hzx
  · exact h.insert_pairwise hl hx ho

theorem Ranked.mem_dropThrough (h : Ranked lt S rank) (hk : S k) (hl : ∀ y ∈ l, S (key y))
    (ho : l.Pairwise fun a b => rank (key a) < rank (key b)) {y : α} :
    y ∈ dropThrough lt key k l ↔ y ∈ l ∧ rank k < rank (key y) := by
  unfold dropThrough
  induction l with
  | nil => simp
  | cons z l ih =>
    obtain ⟨hz, ho'⟩ := List.pairwise_cons.1 ho
    have hlz := h.lt_iff hk (hl z (List.mem_cons_self ..))
    have ih' := ih (fun y hy => hl y (List.mem_cons_of_mem _ hy)) ho'
    rw [List.dropWhile_cons]
    by_cases hc : lt k (key z) = true
    · -- `z` and everything behind it stays
      rw [hc, Bool.not_true, if_neg Bool.false_ne_true]
      refine ⟨fun hy => ⟨hy, ?_⟩, fun hy => hy.1⟩
      have hkz := hlz.1 hc
      rcases List.mem_cons.1 hy with rfl | hy
      · exact hkz
      · exact Nat.lt_trans hkz (hz y hy)
    · have hkz : ¬ rank k < rank (key z) := fun hc' => hc (hlz.2 hc')
      rw [Bool.not_eq_true _ |>.mp hc, Bool.not_false, if_pos rfl, ih']
      constructor
      · rintro ⟨hy, hr⟩; exact ⟨List.mem_cons_of_mem _ hy, hr⟩
      · rintro ⟨hy, hr⟩
        rcases List.mem_cons.1 hy with rfl | hy
        · exact absurd hr hkz
        · exact ⟨hy, hr⟩

theorem Ranked.mem_erase (h : Ranked lt S rank) (hk : S k) (hl : ∀ y ∈ l, S (key y))
    (ho : l.Pairwise fun a b => rank (key a) < rank (key b)) {y : α} :
    y ∈ erase lt key k l ↔ y ∈ l ∧ key y ≠ k := by
  unfold erase
  split
  · rename_i hp
    refine ⟨fun hy => ⟨hy, fun hc => ?_⟩, fun hy => hy.1⟩
    have := pop_none hp y hy
    rw [(h.equiv_iff (hl y hy) hk).2 hc] at this
    cases this
  · rename_i x l' hp
    obtain ⟨he, a, b, rfl, rfl⟩ := pop_some hp
    have hxk := (h.equiv_iff (hl x (by simp)) hk).1 he
    obtain ⟨-, hxb, hab⟩ := List.pairwise_append.1 ho
    have hxb' := (List.pairwise_cons.1 hxb).1
    -- the order keeps every other key apart from `k`
    have hne : y ∈ a ++ b → key y ≠ k := by
      intro hy hc
      have : rank (key y) = rank (key x) := by rw [hc, hxk]
      rcases List.mem_append.1 hy with hy | hy
      · have := hab y hy x (List.mem_cons_self ..)
        omega
      · have := hxb' y hy
        omega
    constructor
    · intro hy
      refine ⟨?_, hne hy⟩
      rcases List.mem_append.1 hy with hy | hy
      · exact List.mem_append_left _ hy
      · exact List.mem_append_right _ (List.mem_cons_of_mem _ hy)
    · rintro ⟨hy, hc⟩
      rcases List.mem_append.1 hy with hy | hy
      · exact List.mem_append_left _ hy
      · rcases List.mem_cons.1 hy with rfl | hy
        · exact absurd hxk hc
        · exact List.mem_append_right _ hy

end Ranked

end RtcCore.Keyed
