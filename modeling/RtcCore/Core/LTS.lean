/-!
# Labelled transition systems

Runs of a system given by an initial-state predicate and a labelled step
relation, and the one induction every safety theorem of the development
uses: what holds initially and is kept by each step holds in every reachable
state. `Run.simulate` carries a whole run from one system to another that
matches its steps. `LTS.ofFn` is the case of a partial step function,
`LTS.within` keeps only the steps whose label and source state meet a
condition. In a system of two parties `e` and `!e`, `update` gives one of them
a new state.
-/
namespace RtcCore

structure LTS (S L : Type) where
  init : S → Prop
  step : S → L → S → Prop

namespace LTS

variable {S L : Type}

/-- `Run M s ls s'`: from `s`, the labels `ls` lead to `s'`. -/
inductive Run (M : LTS S L) : S → List L → S → Prop
  | nil (s : S) : Run M s [] s
  | cons {s s₁ s' : S} {l : L} {ls : List L} (h : M.step s l s₁) (r : Run M s₁ ls s') :
      Run M s (l :: ls) s'

def Reachable (M : LTS S L) (s : S) : Prop := ∃ s₀ ls, M.init s₀ ∧ M.Run s₀ ls s

/-- `P` holds initially and every step keeps it. -/
structure Inductive (M : LTS S L) (P : S → Prop) : Prop where
  init : ∀ s, M.init s → P s
  step : ∀ s l s', P s → M.step s l s' → P s'

theorem Run.keeps {M : LTS S L} {P : S → Prop} (hP : ∀ s l s', P s → M.step s l s' → P s')
    {s s' : S} {ls : List L} (r : M.Run s ls s') (h : P s) : P s' := by
  induction r with
  | nil s => exact h
  | cons hs _ ih => exact ih (hP _ _ _ h hs)

theorem Inductive.reachable {M : LTS S L} {P : S → Prop} (h : M.Inductive P) (s : S)
    (hr : M.Reachable s) : P s := by
  obtain ⟨s₀, ls, h0, r⟩ := hr
  exact r.keeps h.step (h.init s₀ h0)

/-- A run is a run of the first labels and one of the others. -/
theorem Run.split {M : LTS S L} {s s' : S} {ls ls' : List L} (r : M.Run s (ls ++ ls') s') :
    ∃ s₁, M.Run s ls s₁ ∧ M.Run s₁ ls' s' := by
  induction ls generalizing s with
  | nil => exact ⟨s, .nil s, r⟩
  | cons l ls ih =>
    cases r with
    | cons h r =>
      obtain ⟨s₁, h1, h2⟩ := ih r
      exact ⟨s₁, .cons h h1, h2⟩

/-- Forward simulation: a step of `M` from related states is matched by a
step of `N` under the same label, so every run of `M` is a run of `N`. -/
theorem Run.simulate {T : Type} {M : LTS S L} {N : LTS T L} {R : S → T → Prop}
    (hR : ∀ s t l s', R s t → M.step s l s' → ∃ t', N.step t l t' ∧ R s' t')
    {s s' : S} {ls : List L} (r : M.Run s ls s') {t : T} (h : R s t) :
    ∃ t', N.Run t ls t' ∧ R s' t' := by
  induction r generalizing t with
  | nil s => exact ⟨t, .nil t, h⟩
  | cons hs _ ih =>
    obtain ⟨t₁, hstep, h₁⟩ := hR _ _ _ _ h hs
    obtain ⟨t', hrun, h'⟩ := ih h₁
    exact ⟨t', .cons hstep hrun, h'⟩

/-- The system of a partial step function. -/
def ofFn (init : S → Prop) (f : S → L → Option S) : LTS S L where
  init := init
  step s l s' := f s l = some s'

/-- A fold that goes through is a run. -/
theorem Run.of_foldlM {init : S → Prop} {f : S → L → Option S} {ls : List L} {s s' : S}
    (h : ls.foldlM f s = some s') : (ofFn init f).Run s ls s' := by
  induction ls generalizing s with
  | nil =>
    cases h
    exact .nil _
  | cons l ls ih =>
    rw [List.foldlM_cons] at h
    obtain ⟨s₁, h1, h2⟩ := Option.bind_eq_some_iff.1 h
    exact .cons h1 (ih h2)

/-- The runs of `M` all of whose steps meet `C`. -/
def within (M : LTS S L) (C : S → L → Prop) : LTS S L where
  init := M.init
  step s l s' := C s l ∧ M.step s l s'

/-- A fold that checks the condition at each step is a run within it. -/
theorem Run.within_of_foldlM {init : S → Prop} {f : S → L → Option S} {C : S → L → Prop}
    [∀ s l, Decidable (C s l)] {ls : List L} {s s' : S}
    (h : ls.foldlM (fun s l => if C s l then f s l else none) s = some s') :
    ((ofFn init f).within C).Run s ls s' := by
  induction ls generalizing s with
  | nil =>
    cases h
    exact .nil _
  | cons l ls ih =>
    rw [List.foldlM_cons] at h
    obtain ⟨s₁, h1, h2⟩ := Option.bind_eq_some_iff.1 h
    split at h1
    · exact .cons ⟨‹_›, h1⟩ (ih h2)
    · cases h1

/-- A weaker condition keeps the runs. -/
theorem Reachable.weaken {M : LTS S L} {C D : S → L → Prop} (hCD : ∀ s l, C s l → D s l) {s : S}
    (h : (M.within C).Reachable s) : (M.within D).Reachable s := by
  obtain ⟨s₀, ls, h0, r⟩ := h
  obtain ⟨s', r', rfl⟩ := r.simulate (N := M.within D) (R := Eq)
    (fun s t l s' heq hs => ⟨s', by subst heq; exact ⟨hCD _ _ hs.1, hs.2⟩, rfl⟩) rfl
  exact ⟨s₀, ls, h0, r'⟩

end LTS

/-- Labels that meet a condition in every state. -/
theorem LTS.Run.keep {S L : Type} {M : LTS S L} {C : S → L → Prop} {s s' : S} {ls : List L}
    (r : M.Run s ls s') (h : ∀ s, ∀ l ∈ ls, C s l) : (M.within C).Run s ls s' := by
  induction r with
  | nil s => exact .nil s
  | cons hs _ ih =>
    exact .cons ⟨h _ _ (List.mem_cons_self ..), hs⟩
      (ih fun s l hl => h s l (List.mem_cons_of_mem _ hl))

/-! ## Two parties -/

def update {α : Type} (f : Bool → α) (e : Bool) (x : α) : Bool → α :=
  fun i => if i = e then x else f i

@[simp] theorem update_same {α : Type} (f : Bool → α) (e : Bool) (x : α) : update f e x e = x :=
  if_pos rfl

@[simp] theorem update_other {α : Type} (f : Bool → α) (e : Bool) (x : α) :
    update f e x (!e) = f !e :=
  if_neg (by cases e <;> decide)

@[simp] theorem update_not {α : Type} (f : Bool → α) (e : Bool) (x : α) :
    update f (!e) x e = f e :=
  if_neg (by cases e <;> decide)

@[simp] theorem update_self {α : Type} (f : Bool → α) (e : Bool) : update f e (f e) = f := by
  funext i
  unfold update
  split
  · rename_i hi
    rw [hi]
  · rfl

/-- Both directions of a party: what it sends, and what it receives. -/
theorem forall_both {P : Bool → Prop} (e : Bool) (h : P e) (h' : P !e) : ∀ i, P i := by
  intro i
  cases e <;> cases i <;> first | exact h | exact h'

end RtcCore
