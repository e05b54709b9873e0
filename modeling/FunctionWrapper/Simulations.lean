import FunctionWrapper.Runs
import Mathlib.Data.Set.Basic
import Mathlib.Logic.Relation

/-!
What can be seen of the runs of two systems.

A simulation answers each step of one system by steps of the other that look the same; steps that
cannot be seen may be answered by nothing. It follows that everything that can be seen of the first
system can be seen of the second.
-/

namespace Runs

variable {σ σ' ℓ ℓ' ν : Type*} {S : System σ ℓ} {T : System σ' ℓ'}

lemma Path.append {l m : List ℓ} {s s' s'' : σ} (h : Path S l s s') (h' : Path S m s' s'') :
    Path S (l ++ m) s s'' := by
  induction h with
  | nil => exact h'
  | cons hs _ ih => exact .cons hs (ih h')

lemma Path.split {l m : List ℓ} {s s'' : σ} (h : Path S (l ++ m) s s'') :
    ∃ s', Path S l s s' ∧ Path S m s' s'' := by
  induction l generalizing s with
  | nil => exact ⟨s, .nil s, h⟩
  | cons a l ih =>
    cases h with
    | cons hs h =>
      obtain ⟨s', hl, hm⟩ := ih h
      exact ⟨s', .cons hs hl, hm⟩

@[simp] lemma Path.nil_iff {s s' : σ} : Path S [] s s' ↔ s = s' := by
  constructor
  · rintro ⟨⟩
    rfl
  · rintro rfl
    exact .nil s

lemma Path.cons_iff {a : ℓ} {l : List ℓ} {s s'' : σ} :
    Path S (a :: l) s s'' ↔ ∃ s', S.step s a s' ∧ Path S l s' s'' := by
  constructor
  · rintro ⟨⟩
    exact ⟨_, ‹_›, ‹_›⟩
  · rintro ⟨s', hs, h⟩
    exact .cons hs h

lemma Path.append_iff {l m : List ℓ} {s s'' : σ} :
    Path S (l ++ m) s s'' ↔ ∃ s', Path S l s s' ∧ Path S m s' s'' := by
  constructor
  · exact Path.split
  · rintro ⟨s', hl, hm⟩
    exact hl.append hm

/-- Steps with the same effect can be exchanged, if the effect is the same in all states that what
comes before can lead to. -/
lemma Path.congr_middle {l m pre post : List ℓ} {s s'' : σ}
    (h : ∀ s₁ s₂, Path S pre s s₁ → (Path S l s₁ s₂ ↔ Path S m s₁ s₂)) :
    Path S (pre ++ (l ++ post)) s s'' ↔ Path S (pre ++ (m ++ post)) s s'' := by
  simp only [Path.append_iff]
  exact exists_congr fun s₁ => and_congr_right fun hpre =>
    exists_congr fun s₂ => and_congr_left fun _ => h s₁ s₂ hpre

/-- Some of the first steps can take the place of the second one, in all states that what comes
before can lead to. -/
lemma Path.congr_some {α : Type*} {p : α → Prop} {f : α → ℓ} {b : ℓ} {pre post : List ℓ} {s₀ : σ}
    (h : ∀ s s', Path S pre s₀ s → ((∃ x, p x ∧ S.step s (f x) s') ↔ S.step s b s')) :
    (∃ x, p x ∧ ∃ s', Path S (pre ++ f x :: post) s₀ s') ↔
      ∃ s', Path S (pre ++ b :: post) s₀ s' := by
  simp only [Path.append_iff, Path.cons_iff]
  constructor
  · rintro ⟨x, hx, s', s, hpre, s₁, hstep, hpost⟩
    exact ⟨s', s, hpre, s₁, (h s s₁ hpre).mp ⟨x, hx, hstep⟩, hpost⟩
  · rintro ⟨s', s, hpre, s₁, hstep, hpost⟩
    obtain ⟨x, hx, hstep'⟩ := (h s s₁ hpre).mpr hstep
    exact ⟨x, hx, s', s, hpre, s₁, hstep', hpost⟩

lemma Path.single {a : ℓ} {s s' : σ} (h : S.step s a s') : Path S [a] s s' := .cons h (.nil _)

lemma Path.reachable {l : List ℓ} {s s' : σ} (h : Path S l s s') (hs : Reachable S s) :
    Reachable S s' := by
  induction h with
  | nil => exact hs
  | cons hstep _ ih => exact ih (hs.step hstep)

lemma Path.mono {S' : System σ ℓ} {l : List ℓ} {s s' : σ}
    (hl : ∀ a ∈ l, ∀ s s', S.step s a s' → S'.step s a s') (h : Path S l s s') :
    Path S' l s s' := by
  induction h with
  | nil s => exact .nil s
  | cons hs _ ih =>
    rw [List.forall_mem_cons] at hl
    exact .cons (hl.1 _ _ hs) (ih hl.2)

lemma Path.restrict {ok : ℓ → Prop} {l : List ℓ} {s s' : σ} (h : Path S l s s')
    (hok : ∀ a ∈ l, ok a) : Path (S.restrict fun _ => ok) l s s' :=
  h.mono fun a ha _ _ hs => ⟨hs, hok a ha⟩

/-- Where the two steps can be made one after the other, they can be made the other way round. -/
def Swaps (S : System σ ℓ) (a b : ℓ) : Prop :=
  ∀ s s₁ s₂, S.step s a s₁ → S.step s₁ b s₂ → ∃ s', S.step s b s' ∧ S.step s' a s₂

lemma Path.swap {a b : ℓ} (hab : Swaps S a b) (l : List ℓ) {m : List ℓ} {s s' : σ}
    (h : Path S (l ++ a :: b :: m) s s') : Path S (l ++ b :: a :: m) s s' := by
  induction l generalizing s with
  | nil =>
    cases h with
    | cons ha h =>
      cases h with
      | cons hb h =>
        obtain ⟨t, hb', ha'⟩ := hab _ _ _ ha hb
        exact .cons hb' (.cons ha' h)
  | cons c l ih =>
    cases h with
    | cons hc h => exact .cons hc (ih h)

/-- Two neighbours that are independent change places. -/
inductive Exchange (ind : ℓ → ℓ → Prop) : List ℓ → List ℓ → Prop
  | swap (l : List ℓ) (a b : ℓ) (m : List ℓ) (h : ind a b) :
      Exchange ind (l ++ a :: b :: m) (l ++ b :: a :: m)

/-- **Independent steps may come in any order.** The run ends in the same state. -/
theorem Path.reorder {ind : ℓ → ℓ → Prop} (hind : ∀ a b, ind a b → Swaps S a b) {l m : List ℓ}
    {s s' : σ} (hlm : Relation.ReflTransGen (Exchange ind) l m) (h : Path S l s s') :
    Path S m s s' := by
  induction hlm with
  | refl => exact h
  | tail _ hx ih =>
    cases hx with
    | swap l a b m hab => exact ih.swap (hind a b hab)

/-! ### Traces -/

/-- What can be seen of the runs of a system. -/
def Traces (S : System σ ℓ) (see : ℓ → Option ν) : Set (List ν) :=
  {t | ∃ s s' l, S.init s ∧ Path S l s s' ∧ l.filterMap see = t}

lemma mem_traces_some {t : List ℓ} :
    t ∈ Traces S some ↔ ∃ s s', S.init s ∧ Path S t s s' := by
  constructor
  · rintro ⟨s, s', l, h0, hpath, rfl⟩
    exact ⟨s, s', h0, by rwa [List.filterMap_some]⟩
  · rintro ⟨s, s', h0, hpath⟩
    exact ⟨s, s', t, h0, hpath, List.filterMap_some⟩

lemma mem_traces_from {s₀ : σ} (h : ∀ s, S.init s ↔ s = s₀) {t : List ℓ} :
    t ∈ Traces S some ↔ ∃ s, Path S t s₀ s := by
  rw [mem_traces_some]
  constructor
  · rintro ⟨s, s', h0, hpath⟩
    obtain rfl := (h s).mp h0
    exact ⟨s', hpath⟩
  · rintro ⟨s', hpath⟩
    exact ⟨s₀, s', (h s₀).mpr rfl, hpath⟩

/-- Each step of the first system is answered by steps of the second that look the same. -/
structure Simulation (S : System σ ℓ) (T : System σ' ℓ') (see : ℓ → Option ν)
    (see' : ℓ' → Option ν) where
  Rel : σ → σ' → Prop
  init : ∀ s, S.init s → ∃ t, T.init t ∧ Rel s t
  step : ∀ s t a s', Rel s t → S.step s a s' →
    ∃ l t', Path T l t t' ∧ l.filterMap see' = (see a).toList ∧ Rel s' t'

namespace Simulation

variable {see : ℓ → Option ν} {see' : ℓ' → Option ν}

theorem path (R : Simulation S T see see') {l : List ℓ} {s s' : σ} {t : σ'} (hR : R.Rel s t)
    (h : Path S l s s') :
    ∃ m t', Path T m t t' ∧ m.filterMap see' = l.filterMap see ∧ R.Rel s' t' := by
  induction h generalizing t with
  | nil s => exact ⟨[], t, .nil t, rfl, hR⟩
  | @cons _ _ _ a l hs _ ih =>
    obtain ⟨m, t₁, hm, hsee, hR₁⟩ := R.step _ _ _ _ hR hs
    obtain ⟨m', t₂, hm', hsee', hR₂⟩ := ih hR₁
    refine ⟨m ++ m', t₂, hm.append hm', ?_, hR₂⟩
    rw [List.filterMap_append, hsee, hsee', List.filterMap_cons]
    cases see a <;> rfl

/-- **Everything that can be seen of the first system can be seen of the second.** -/
theorem traces_subset (R : Simulation S T see see') : Traces S see ⊆ Traces T see' := by
  rintro _ ⟨s, s', l, h0, hpath, rfl⟩
  obtain ⟨t, ht, hR⟩ := R.init s h0
  obtain ⟨m, t', hm, hsee, -⟩ := R.path hR hpath
  exact ⟨t, t', m, ht, hm, hsee⟩

end Simulation

end Runs
