import FunctionWrapper.Simulations

/-!
Systems that share a memory.

A step of an open system reads a memory and leaves another one. Two open systems take turns over one
memory. Simulations of each of them, which leave the same memory step by step, make a simulation of
both together.

A system can also stand on another one, and use its state as memory. A simulation of the system
below and one of the system above, which keeps to the first, make a simulation of the two.
-/

namespace Runs

structure Open (μ σ ℓ : Type*) where
  init : σ → Prop
  step : μ → σ → ℓ → μ → σ → Prop

namespace Open

variable {μ σ₁ σ₂ ρ₁ ρ₂ ℓ₁ ℓ₂ κ₁ κ₂ ν₁ ν₂ : Type*}
variable {S : Open μ σ₁ ℓ₁} {T : Open μ σ₂ ℓ₂} {S' : Open μ ρ₁ κ₁} {T' : Open μ ρ₂ κ₂}

def alone (S : Open μ σ₁ ℓ₁) (m₀ : μ) : System (μ × σ₁) ℓ₁ where
  init p := p.1 = m₀ ∧ S.init p.2
  step p a p' := S.step p.1 p.2 a p'.1 p'.2

def beside (S : Open μ σ₁ ℓ₁) (T : Open μ σ₂ ℓ₂) (m₀ : μ) : System (μ × σ₁ × σ₂) (ℓ₁ ⊕ ℓ₂) where
  init p := p.1 = m₀ ∧ S.init p.2.1 ∧ T.init p.2.2
  step p a p' :=
    match a with
    | .inl a => S.step p.1 p.2.1 a p'.1 p'.2.1 ∧ p'.2.2 = p.2.2
    | .inr b => T.step p.1 p.2.2 b p'.1 p'.2.2 ∧ p'.2.1 = p.2.1

/-- Each step is answered by one that looks the same and leaves the same memory. -/
structure Simulation (S : Open μ σ₁ ℓ₁) (S' : Open μ ρ₁ κ₁) (see : ℓ₁ → ν₁) (see' : κ₁ → ν₁) where
  Rel : σ₁ → ρ₁ → Prop
  init : ∀ s, S.init s → ∃ t, S'.init t ∧ Rel s t
  step : ∀ m s t a m' s', Rel s t → S.step m s a m' s' →
    ∃ b t', S'.step m t b m' t' ∧ see' b = see a ∧ Rel s' t'

/-- A system that leaves its memory as it is does not need it. -/
theorem traces_alone_eq {m₀ : μ} {C : System σ₁ ℓ₁} (hinit : ∀ s, S.init s ↔ C.init s)
    (hstep : ∀ s a m' s', S.step m₀ s a m' s' ↔ m' = m₀ ∧ C.step s a s') (see : ℓ₁ → Option ν₁) :
    Traces (S.alone m₀) see = Traces C see := by
  have hsame : ∀ a, [a].filterMap see = (see a).toList := by
    intro a
    cases h : see a <;> simp [h]
  have hforward : Runs.Simulation (S.alone m₀) C see see :=
    { Rel := fun p s => p = (m₀, s)
      init := by
        rintro ⟨m, s⟩ ⟨rfl, hs⟩
        exact ⟨s, (hinit s).mp hs, rfl⟩
      step := by
        rintro _ s a ⟨m', s'⟩ rfl hs
        obtain ⟨hm, hstep'⟩ := (hstep s a m' s').mp hs
        exact ⟨[a], s', .single hstep', hsame a, by rw [hm]⟩ }
  have hbackward : Runs.Simulation C (S.alone m₀) see see :=
    { Rel := fun s p => p = (m₀, s)
      init := fun s hs => ⟨(m₀, s), ⟨rfl, (hinit s).mpr hs⟩, rfl⟩
      step := by
        rintro s _ a s' rfl hs
        have hstep' := (hstep s a m₀ s').mpr ⟨rfl, hs⟩
        exact ⟨[a], (m₀, s'), .single hstep', hsame a, rfl⟩ }
  exact hforward.traces_subset.antisymm hbackward.traces_subset

variable {seeS : ℓ₁ → ν₁} {seeS' : κ₁ → ν₁} {seeT : ℓ₂ → ν₂} {seeT' : κ₂ → ν₂}

def Simulation.beside (F : Simulation S S' seeS seeS') (G : Simulation T T' seeT seeT') (m₀ : μ) :
    Runs.Simulation (S.beside T m₀) (S'.beside T' m₀) (fun a => some (a.map seeS seeT))
      fun b => some (b.map seeS' seeT') where
  Rel p q := p.1 = q.1 ∧ F.Rel p.2.1 q.2.1 ∧ G.Rel p.2.2 q.2.2
  init := by
    rintro ⟨m, s, t⟩ ⟨rfl, hs, ht⟩
    obtain ⟨s', hs', hF⟩ := F.init s hs
    obtain ⟨t', ht', hG⟩ := G.init t ht
    exact ⟨(m, s', t'), ⟨rfl, hs', ht'⟩, rfl, hF, hG⟩
  step := by
    rintro ⟨m, s, t⟩ ⟨_, s', t'⟩ a ⟨m₁, s₁, t₁⟩ ⟨rfl, hF, hG⟩ hstep
    cases a with
    | inl a =>
      obtain ⟨hs, rfl⟩ := hstep
      obtain ⟨b, s₁', hs', hsee, hF₁⟩ := F.step _ _ _ _ _ _ hF hs
      refine ⟨[.inl b], (m₁, s₁', t'), .single ⟨hs', rfl⟩, ?_, rfl, hF₁, hG⟩
      simp [hsee]
    | inr a =>
      obtain ⟨ht, rfl⟩ := hstep
      obtain ⟨b, t₁', ht', hsee, hG₁⟩ := G.step _ _ _ _ _ _ hG ht
      refine ⟨[.inr b], (m₁, s', t₁'), .single ⟨ht', rfl⟩, ?_, rfl, hF, hG₁⟩
      simp [hsee]

/-- **Systems that simulate each other do so beside any others that do.** -/
theorem traces_beside_eq (F : Simulation S S' seeS seeS') (F' : Simulation S' S seeS' seeS)
    (G : Simulation T T' seeT seeT') (G' : Simulation T' T seeT' seeT) (m₀ : μ) :
    Traces (S.beside T m₀) (fun a => some (a.map seeS seeT)) =
      Traces (S'.beside T' m₀) fun b => some (b.map seeS' seeT') :=
  (F.beside G m₀).traces_subset.antisymm (F'.beside G' m₀).traces_subset

/-! ### One system on another -/

/-- The second system uses the state of the first one. -/
def atop (T : Open (μ × σ₁) σ₂ ℓ₂) (S : Open μ σ₁ ℓ₁) (m₀ : μ) :
    System (μ × σ₁ × σ₂) (ℓ₁ ⊕ ℓ₂) where
  init p := p.1 = m₀ ∧ S.init p.2.1 ∧ T.init p.2.2
  step p a p' :=
    match a with
    | .inl a => S.step p.1 p.2.1 a p'.1 p'.2.1 ∧ p'.2.2 = p.2.2
    | .inr b => T.step (p.1, p.2.1) p.2.2 b (p'.1, p'.2.1) p'.2.2

/-- The same system without the steps of the other labels. -/
def only (T : Open μ σ₁ ℓ₁) (ok : ℓ₁ → Prop) : Open μ σ₁ ℓ₁ where
  init := T.init
  step m s a m' s' := ok a ∧ T.step m s a m' s'

/-- A simulation that keeps the states below related. -/
structure SimulationAtop (F : Simulation S S' seeS seeS') (T : Open (μ × σ₁) σ₂ ℓ₂)
    (T' : Open (μ × ρ₁) ρ₂ κ₂) (seeT : ℓ₂ → ν₂) (seeT' : κ₂ → ν₂) where
  Rel : σ₂ → ρ₂ → Prop
  init : ∀ t, T.init t → ∃ t', T'.init t' ∧ Rel t t'
  step : ∀ m s s' t t' b m₁ s₁ t₁, F.Rel s s' → Rel t t' → T.step (m, s) t b (m₁, s₁) t₁ →
    ∃ b' s₁' t₁', T'.step (m, s') t' b' (m₁, s₁') t₁' ∧ seeT' b' = seeT b ∧ F.Rel s₁ s₁' ∧
      Rel t₁ t₁'

variable {F : Simulation S S' seeS seeS'} {F' : Simulation S' S seeS' seeS}
variable {U : Open (μ × σ₁) σ₂ ℓ₂} {U' : Open (μ × ρ₁) ρ₂ κ₂}

def SimulationAtop.whole (G : SimulationAtop F U U' seeT seeT') (m₀ : μ) :
    Runs.Simulation (U.atop S m₀) (U'.atop S' m₀) (fun a => some (a.map seeS seeT))
      fun b => some (b.map seeS' seeT') where
  Rel p q := p.1 = q.1 ∧ F.Rel p.2.1 q.2.1 ∧ G.Rel p.2.2 q.2.2
  init := by
    rintro ⟨m, s, t⟩ ⟨rfl, hs, ht⟩
    obtain ⟨s', hs', hF⟩ := F.init s hs
    obtain ⟨t', ht', hG⟩ := G.init t ht
    exact ⟨(m, s', t'), ⟨rfl, hs', ht'⟩, rfl, hF, hG⟩
  step := by
    rintro ⟨m, s, t⟩ ⟨_, s', t'⟩ a ⟨m₁, s₁, t₁⟩ ⟨rfl, hF, hG⟩ hstep
    cases a with
    | inl a =>
      obtain ⟨hs, rfl⟩ := hstep
      obtain ⟨b, s₁', hs', hsee, hF₁⟩ := F.step _ _ _ _ _ _ hF hs
      refine ⟨[.inl b], (m₁, s₁', t'), .single ⟨hs', rfl⟩, ?_, rfl, hF₁, hG⟩
      simp [hsee]
    | inr a =>
      obtain ⟨b, s₁', t₁', ht', hsee, hF₁, hG₁⟩ := G.step _ _ _ _ _ _ _ _ _ hF hG hstep
      refine ⟨[.inr b], (m₁, s₁', t₁'), .single ht', ?_, rfl, hF₁, hG₁⟩
      simp [hsee]

/-- **Systems that simulate each other do so under any others that do.** -/
theorem traces_atop_eq (G : SimulationAtop F U U' seeT seeT')
    (G' : SimulationAtop F' U' U seeT' seeT) (m₀ : μ) :
    Traces (U.atop S m₀) (fun a => some (a.map seeS seeT)) =
      Traces (U'.atop S' m₀) fun b => some (b.map seeS' seeT') :=
  (G.whole m₀).traces_subset.antisymm (G'.whole m₀).traces_subset

end Open

end Runs
