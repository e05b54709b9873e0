import FunctionWrapper.SharedObjects
import FunctionWrapper.StaticConversion

/-!
`function_ref`s that view wrappers.

A wrapper is a callable like others, and a `function_ref` can be bound to it. A call of such a
`function_ref` follows its chain to the wrapper, and the wrapper runs what it has at that time. The
machine of views stands on the machine of values here.
-/

namespace FunctionWrapper.BorrowedWrappers

open FunctionWrapper.Types FunctionWrapper.Traits FunctionWrapper.Signatures
open FunctionWrapper.Callables FunctionWrapper.Storage FunctionWrapper.Lifecycle
open FunctionWrapper.CallAcceptance FunctionWrapper.RunInvariant FunctionWrapper.Dispatch
open FunctionWrapper.CallResult FunctionWrapper.ValueSemantics FunctionWrapper.ValueMachine
open FunctionWrapper.Histories FunctionWrapper.SharedObjects FunctionWrapper.RefMachine
open FunctionWrapper.StaticConversion (Abrupt thrownBy)
open FunctionWrapper.FunctionRef (RefEnv Target)
open Runs

variable {τ Val Fn σ Obj Member Raw Arg Ret Exc μ κ : Type}

/-- `callable_lvalue_bindable_v` of a wrapper, constant or not. Its call operators are templates
that are never `noexcept`. -/
def viewable (P : Program) (E : Env τ Val Fn) (s : Sig) : Bool :=
  !s.isNoexcept && (acceptedSignature P .wrapper .call E.sigs s.exactArgs).any fun t =>
    decide (t.ret.called = s.ret)

/-- A class of owning wrappers, and a class of `function_ref`s that can be bound to them and to
other objects. -/
structure Lending (L : SharedLanguage τ Val Fn Raw Arg Ret Exc μ) (E : Env τ Val Fn)
    (R : RefEnv σ (ℕ ⊕ Obj) Member Fn) where
  wrapperType : σ
  typeOf_wrapper : ∀ w, R.typeOf (.inl w) = wrapperType
  bindable : ∀ isConst, R.bindable wrapperType isConst = viewable L.program E R.sig
  /-- The program takes no pointers to the members of wrappers. -/
  memberBindable : ∀ N isConst, R.memberBindable wrapperType N isConst = false
  /-- `std::forward<Args>(args)...` -/
  forward : Arg → Raw
  types : ∀ a, L.types (forward a) = R.sig.exactArgs

/-- The category of the wrapper in a call. -/
def lvalue (isConst : Bool) : Category := if isConst then .cl else .l

/-- How `operator()` of a wrapper ends: it throws what `call` throws. -/
def ended : Outcome Ret Exc → Except (Abrupt Exc) Ret
  | .value r => .ok r
  | .propagated e => .error (.throws (.target e))
  | .failed f => .error (.throws (thrownBy f))
  | .terminated => .error .terminates

/-- The targets of the `function_ref`s, over the objects and the wrappers. Without a wrapper at the
place there is no call. -/
def lend (call : μ × κ → ℕ → Category → Arg → Option ((μ × κ) × Outcome Ret Exc))
    (X : Execution (ℕ ⊕ Obj) Member Fn Arg Ret Exc μ) :
    Execution (ℕ ⊕ Obj) Member Fn Arg Ret (Abrupt Exc) (μ × κ) where
  moves := X.moves.mapError fun e => .throws (.target e)
  exec p x a :=
    match x with
    | .callable (.inl w) isConst =>
      (call p w (lvalue isConst) a).elim (.error .terminates) fun y => ended y.2
    | x => (X.exec p.1 x a).mapError fun e => .throws (.target e)
  leaves p x a :=
    match x with
    | .callable (.inl w) isConst => (call p w (lvalue isConst) a).elim p Prod.fst
    | x => (X.leaves p.1 x a, p.2)

section Calls

variable [DecidableEq τ] {L : SharedLanguage τ Val Fn Raw Arg Ret Exc μ} {E : Env τ Val Fn}
variable {R : RefEnv σ (ℕ ⊕ Obj) Member Fn} (B : Lending L E R)

/-- `std::invoke(*wrapper, std::forward<Args>(args)...)`. -/
def callOwner (p : μ × World τ Val Fn) (w : ℕ) (cat : Category) (a : Arg) :
    Option ((μ × World τ Val Fn) × Outcome Ret Exc) :=
  (callWrapper (L.given p.1) E w .call cat (B.forward a) p.2).map fun y =>
    ((wrappersLeave L E p.1 p.2 (.call w .call cat (B.forward a) y.2), y.1), y.2)

def callValue (p : μ × Phase × Values τ Val) (w : ℕ) (cat : Category) (a : Arg) :
    Option ((μ × Phase × Values τ Val) × Outcome Ret Exc) := do
  let b ← p.2.2 w
  let s ← acceptedSignature L.program .wrapper .call E.sigs (L.types (B.forward a))
  let seen := valueCall E (L.given p.1) p.2.1 b .call cat s (B.forward a)
  let left := b.map (Callable.mapStored (objectAfter E (L.given p.1) .call cat s (B.forward a)))
  return ((machineLeaves L E p.1 p.2 (.call w .call cat (B.forward a) seen), p.2.1,
    Function.update p.2.2 w (some left)), seen)

/-- The calls are the steps of the system in which a wrapper is called. -/
def Serves {ℓ : Type} (S : Open μ κ ℓ) (see : ℓ → Event τ Val Raw Ret Exc)
    (call : μ × κ → ℕ → Category → Arg → Option ((μ × κ) × Outcome Ret Exc)) : Prop :=
  ∀ p p' w cat a seen, (call p w cat a = some (p', seen) ∧ seen ≠ .terminated) ↔
    ∃ b, see b = .call w .call cat (B.forward a) seen ∧ S.step p.1 p.2 b p'.1 p'.2

lemma wrappers_serve : Serves B (openWrappers L E) Prod.fst (callOwner B) := by
  rintro ⟨m, W⟩ ⟨m', W'⟩ w cat a seen
  constructor
  · rintro ⟨hcall, hend⟩
    obtain ⟨⟨W₁, seen₁⟩, hrun, heq⟩ := Option.map_eq_some_iff.mp hcall
    obtain ⟨⟨rfl, rfl⟩, rfl⟩ := by simpa using heq
    exact ⟨(_, ⟨false, false, 0⟩), rfl, ⟨hrun, hend⟩, rfl⟩
  · rintro ⟨⟨_, luck⟩, rfl, ⟨hcall, hend⟩, hm⟩
    obtain rfl : m' = _ := hm
    exact ⟨Option.map_eq_some_iff.mpr ⟨_, hcall, rfl⟩, hend⟩

lemma machine_serves : Serves B (openMachine L E) id (callValue B) := by
  rintro ⟨m, ph, A⟩ ⟨m', ph', A'⟩ w cat a seen
  constructor
  · rintro ⟨hcall, hend⟩
    obtain ⟨b, hb, hcall⟩ := Option.bind_eq_some_iff.mp hcall
    obtain ⟨s, hs, hcall⟩ := Option.bind_eq_some_iff.mp hcall
    obtain ⟨⟨rfl, rfl, rfl⟩, rfl⟩ := by simpa using hcall
    exact ⟨_, rfl, ⟨b, s, hb, hs, rfl, hend, rfl⟩, rfl⟩
  · rintro ⟨_, rfl, ⟨b, s, hb, hs, hseen, hend, hq⟩, hm⟩
    obtain rfl : m' = _ := hm
    obtain ⟨rfl, rfl⟩ := by simpa using hq
    refine ⟨?_, hend⟩
    have hs' : acceptedSignature L.program .wrapper .call E.sigs (L.types (B.forward a)) = some s :=
      hs
    have hb' : A w = some b := hb
    simp only [callValue, hb', hs', Option.bind_eq_bind, Option.bind_some, hseen]
    rfl

end Calls

section Transfer

variable {L : SharedLanguage τ Val Fn Raw Arg Ret Exc μ} {E : Env τ Val Fn}
variable {R : RefEnv σ (ℕ ⊕ Obj) Member Fn} {B : Lending L E R}
variable {X : Execution (ℕ ⊕ Obj) Member Fn Arg Ret Exc μ} {κ' ℓ ℓ' : Type}
variable {S : Open μ κ ℓ} {S' : Open μ κ' ℓ'} {see : ℓ → Event τ Val Raw Ret Exc}
variable {see' : ℓ' → Event τ Val Raw Ret Exc}
variable {call : μ × κ → ℕ → Category → Arg → Option ((μ × κ) × Outcome Ret Exc)}
variable {call' : μ × κ' → ℕ → Category → Arg → Option ((μ × κ') × Outcome Ret Exc)}

lemma ended_eq_terminates {seen : Outcome Ret Exc} :
    ended seen = .error .terminates ↔ seen = .terminated := by
  cases seen <;> simp [ended]

lemma lend_related (F : Open.Simulation S S' see see') (hS : Serves B S see call)
    (hS' : Serves B S' see' call') {m : μ} {k : κ} {k' : κ'} (h : F.Rel k k')
    {x : Target (ℕ ⊕ Obj) Member Fn} {a : Arg}
    (hx : (lend call X).exec (m, k) x a ≠ .error .terminates) :
    (lend call' X).exec (m, k') x a = (lend call X).exec (m, k) x a ∧
      ((lend call' X).leaves (m, k') x a).1 = ((lend call X).leaves (m, k) x a).1 ∧
      F.Rel ((lend call X).leaves (m, k) x a).2 ((lend call' X).leaves (m, k') x a).2 := by
  match x with
  | .callable (.inl w) isConst =>
    cases hcall : call (m, k) w (lvalue isConst) a with
    | none => simp [lend, hcall] at hx
    | some y =>
      obtain ⟨⟨m₁, k₁⟩, seen⟩ := y
      have hend : seen ≠ .terminated := by
        simpa [lend, hcall, ended_eq_terminates] using hx
      obtain ⟨b, hb, hstep⟩ := (hS _ _ _ _ _ _).mp ⟨hcall, hend⟩
      obtain ⟨b', k₁', hstep', hsee, h₁⟩ := F.step _ _ _ _ _ _ h hstep
      obtain ⟨hcall', -⟩ := (hS' (m, k') (m₁, k₁') w (lvalue isConst) a seen).mpr
        ⟨b', hsee.trans hb, hstep'⟩
      simpa [lend, hcall, hcall'] using h₁
  | .callable (.inr o) isConst | .member o n isConst | .function f => exact ⟨rfl, rfl, h⟩

/-- The program goes on after the event. -/
def GoesOn : RefEvent (ℕ ⊕ Obj) Member Fn Arg Ret (Abrupt Exc) → Prop
  | .call _ _ _ seen => seen ≠ .propagated (.target .terminates)
  | _ => True

variable {e : RefEvent (ℕ ⊕ Obj) Member Fn Arg Ret (Abrupt Exc)} {s : Sig}

lemma exec_ne_terminates (moves : Moves Ret (Abrupt Exc)) (mode : Mode) {y : Except (Abrupt Exc) Ret}
    (hend : handOver moves s mode (refOutcome s (outcome s y)) ≠ .terminated)
    (hok : handOver moves s mode (refOutcome s (outcome s y)) ≠ .propagated (.target .terminates)) :
    y ≠ .error .terminates := by
  rintro rfl
  cases hs : s.isNoexcept <;> cases mode <;> simp_all [outcome, refOutcome, handOver]

lemma views_transfer (F : Open.Simulation S S' see see') (hS : Serves B S see call)
    (hS' : Serves B S' see' call') {m m₁ : μ} {k k₁ : κ} {k' : κ'}
    {V V' : Views (ℕ ⊕ Obj) Member Fn}
    (h : F.Rel k k') (hok : GoesOn e)
    (hs : (views R (lend call X)).step (m, k) V e (m₁, k₁) V') :
    ∃ k₁', (views R (lend call' X)).step (m, k') V e (m₁, k₁') V' ∧ F.Rel k₁ k₁' := by
  cases e with
  | op op =>
    obtain ⟨hrun, hV, heq⟩ := hs
    obtain ⟨rfl, rfl⟩ := Prod.mk.inj heq
    exact ⟨k', ⟨hrun, hV, rfl⟩, h⟩
  | call r mode a seen =>
    obtain ⟨q, t, hrq, hq, hseen, hend, hV, heq⟩ := hs
    cases t with
    | none =>
      obtain ⟨rfl, rfl⟩ := Prod.mk.inj heq
      exact ⟨k', ⟨q, none, hrq, hq, hseen, hend, hV, rfl⟩, h⟩
    | some x =>
      rw [hseen] at hend hok
      obtain ⟨hexec, hm, hk⟩ := lend_related (X := X) F hS hS' h (exec_ne_terminates _ mode hend hok)
      obtain ⟨rfl, rfl⟩ := Prod.ext_iff.mp heq
      refine ⟨_, ⟨q, some x, hrq, hq, ?_, hseen ▸ hend, hV, Prod.ext hm.symm rfl⟩, hk⟩
      rw [hseen, viewCall, viewCall, hexec]
      rfl
  | ask r hasValue =>
    obtain ⟨hask, hV, heq⟩ := hs
    obtain ⟨rfl, rfl⟩ := Prod.mk.inj heq
    exact ⟨k', ⟨hask, hV, rfl⟩, h⟩

end Transfer

/-! ### Histories -/

section Histories

variable [DecidableEq τ] [DecidableEq σ] {L : SharedLanguage τ Val Fn Raw Arg Ret Exc μ}
variable {E : Env τ Val Fn} {R : RefEnv σ (ℕ ⊕ Obj) Member Fn} (B : Lending L E R)
variable (X : Execution (ℕ ⊕ Obj) Member Fn Arg Ret Exc μ)

/-- The `function_ref`s, over the wrappers. -/
def borrowers : Open (μ × World τ Val Fn) (FunctionRef.Refs σ (ℕ ⊕ Obj) Fn)
    (RefEvent (ℕ ⊕ Obj) Member Fn Arg Ret (Abrupt Exc)) :=
  (refs R (lend (callOwner B) X)).only GoesOn

def borrowedViews : Open (μ × Phase × Values τ Val) (Views (ℕ ⊕ Obj) Member Fn)
    (RefEvent (ℕ ⊕ Obj) Member Fn Arg Ret (Abrupt Exc)) :=
  (views R (lend (callValue B) X)).only GoesOn

/-- What a program can see of its wrappers, and of `function_ref`s that can view them. -/
def borrowedHistories (m₀ : μ) : Set (List (Event τ Val Raw Ret Exc ⊕
    RefEvent (ℕ ⊕ Obj) Member Fn Arg Ret (Abrupt Exc))) :=
  Traces ((borrowers B X).atop (openWrappers L E) m₀) fun e => some (e.map Prod.fst id)

abbrev borrowedMachine (m₀ : μ) := (borrowedViews B X).atop (openMachine L E) m₀

def borrowedForward : Open.SimulationAtop (wrappersForward L E) (borrowers B X) (borrowedViews B X)
    id id where
  Rel M V := M = refsOf R V ∧ Valid R V
  init M hM := ⟨_, rfl, hM, nofun⟩
  step m W q M V e m₁ W₁ M₁ h := by
    rintro ⟨rfl, hV⟩ ⟨hok, hs⟩
    obtain ⟨V₁, hviews, rfl⟩ := (refs_step_iff hV).mp hs
    obtain ⟨q₁, hs', h₁⟩ := views_transfer _ (wrappers_serve B) (machine_serves B) h hok hviews
    exact ⟨e, q₁, V₁, ⟨hok, hs'⟩, rfl, h₁, rfl, valid_views_step hV hs'⟩

def borrowedBackward : Open.SimulationAtop (wrappersBackward L E) (borrowedViews B X)
    (borrowers B X) id id where
  Rel V M := M = refsOf R V ∧ Valid R V
  init V hV := by
    obtain rfl : V = fun _ => none := hV
    exact ⟨_, rfl, rfl, nofun⟩
  step m q W V M e m₁ q₁ V₁ h := by
    rintro ⟨rfl, hV⟩ ⟨hok, hs⟩
    obtain ⟨W₁, hs', h₁⟩ := views_transfer _ (machine_serves B) (wrappers_serve B) h hok hs
    exact ⟨e, W₁, _, ⟨hok, (refs_step_iff hV).mpr ⟨V₁, hs', rfl⟩⟩, rfl, h₁, rfl,
      valid_views_step hV hs⟩

variable {B X} {m₀ : μ}
variable {t : List (Event τ Val Raw Ret Exc ⊕ RefEvent (ℕ ⊕ Obj) Member Fn Arg Ret (Abrupt Exc))}

omit [DecidableEq σ] in
lemma mem_traces_start : t ∈ Traces (borrowedMachine B X m₀) some ↔
    ∃ p, Path (borrowedMachine B X m₀) t (start m₀) p := by
  refine mem_traces_from ?_
  rintro ⟨m, q, V⟩
  simp [Open.atop, borrowedViews, Open.only, openMachine, views, Prod.ext_iff]

lemma mem_borrowedHistories_iff : t ∈ borrowedHistories B X m₀ ↔
    ∃ p, Path (borrowedMachine B X m₀) t (start m₀) p := by
  rw [borrowedHistories, Open.traces_atop_eq (borrowedForward B X) (borrowedBackward B X) m₀]
  simp only [Sum.map_id_id, id_eq]
  exact mem_traces_start

variable (B X) in
/-- **Programs see values, and views of values.** However a program mixes its wrappers with
`function_ref`s that view them, it sees what it would see of optional callable values, and of views
that call the value that is there when they are called. -/
theorem borrowed_histories_eq (m₀ : μ) :
    borrowedHistories B X m₀ = Traces (borrowedMachine B X m₀) some :=
  Set.ext fun _ => mem_borrowedHistories_iff.trans mem_traces_start.symm

variable {pre post : List (Event τ Val Raw Ret Exc ⊕
  RefEvent (ℕ ⊕ Obj) Member Fn Arg Ret (Abrupt Exc))}
variable {p p' : μ × (Phase × Values τ Val) × Views (ℕ ⊕ Obj) Member Fn} {w r : ℕ} {isConst : Bool}
variable {mode : Mode} {a : Arg} {seen' : Outcome (Option Ret) (Thrown (Abrupt Exc))}

/-- What the caller of a `function_ref` sees of a call of the wrapper. -/
def lent (s : Sig) (seen : Outcome Ret Exc) : Outcome (Option Ret) (Thrown (Abrupt Exc)) :=
  refOutcome s (outcome s (ended seen))

/-- After these events the `function_ref` leads to the wrapper. -/
def Borrows (B : Lending L E R) (X : Execution (ℕ ⊕ Obj) Member Fn Arg Ret Exc μ) (m₀ : μ)
    (pre : List (Event τ Val Raw Ret Exc ⊕ RefEvent (ℕ ⊕ Obj) Member Fn Arg Ret (Abrupt Exc)))
    (r w : ℕ) (isConst : Bool) : Prop :=
  ∀ p, Path (borrowedMachine B X m₀) pre (start m₀) p →
    Leads p.2.2 r (.callable (.inl w) isConst)

omit [DecidableEq σ] in
lemma valid_of_path (h : Path (borrowedMachine B X m₀) t p p') (hV : Valid R p.2.2) :
    Valid R p'.2.2 := by
  induction h with
  | nil => exact hV
  | @cons p p₁ _ e _ hs _ ih =>
    refine ih ?_
    cases e with
    | inl e => rwa [hs.2]
    | inr e => exact valid_views_step hV hs.2

omit [DecidableEq σ] in
lemma view_of_path (h : Path (borrowedMachine B X m₀) t p p')
    (ht : ∀ op, .inr (.op op) ∈ t → r ∉ RefViews.written op) : p'.2.2 r = p.2.2 r := by
  induction h with
  | nil => rfl
  | @cons p p₁ _ e t hs _ ih =>
    rw [ih fun op hop => ht op (List.mem_cons_of_mem _ hop)]
    cases e with
    | inl e => rw [hs.2]
    | inr e =>
      cases e with
      | op op =>
        obtain ⟨-, -, hV, -⟩ := hs
        have hr : r ∉ RefViews.written op := ht op List.mem_cons_self
        rw [hV]
        cases op <;> simp_all [RefMachine.viewStep, RefViews.written, Function.update_apply]
      | call r mode a seen =>
        obtain ⟨-, -, -, -, -, -, -, hV, -⟩ := hs
        rw [hV]
      | ask r hasValue =>
        obtain ⟨-, -, hV, -⟩ := hs
        rw [hV]

omit [DecidableEq σ] in
lemma borrows_of_made {before after : List (Event τ Val Raw Ret Exc ⊕
      RefEvent (ℕ ⊕ Obj) Member Fn Arg Ret (Abrupt Exc))}
    (hview : viewable L.program E R.sig = true)
    (hafter : ∀ op, .inr (.op op) ∈ after → r ∉ RefViews.written op) :
    Borrows B X m₀ (before ++ .inr (.op (.make r (.callable (.inl w) isConst))) :: after) r w
      isConst := by
  intro p hpath
  simp only [Path.append_iff, Path.cons_iff] at hpath
  obtain ⟨p₁, -, p₂, ⟨-, -, hV, -⟩, hrest⟩ := hpath
  refine ⟨r, .refl, ?_⟩
  rw [view_of_path hrest hafter, hV, RefMachine.viewStep, Function.update_self]
  simp [sourceView, RefViews.boundTarget, B.typeOf_wrapper, B.bindable, hview]

omit [DecidableEq τ] [DecidableEq σ] in
lemma not_noexcept (B : Lending L E R) {V : Views (ℕ ⊕ Obj) Member Fn} (hV : Valid R V)
    (h : Leads V r (.callable (.inl w) isConst)) : R.sig.isNoexcept = false := by
  obtain ⟨q, -, hq⟩ := h
  have hbind : R.bindable (R.typeOf (.inl w)) isConst = true := (hV q _ hq).2
  rw [B.typeOf_wrapper, B.bindable, viewable, Bool.and_eq_true] at hbind
  simpa using hbind.1

omit [DecidableEq τ] [DecidableEq σ] in
lemma lent_ends {s : Sig} (hs : s.isNoexcept = false) {seen : Outcome Ret Exc}
    (h : seen ≠ .terminated) :
    lent s seen ≠ .terminated ∧ lent s seen ≠ .propagated (.target .terminates) := by
  cases seen <;> simp_all [lent, ended, outcome, refOutcome]

omit [DecidableEq σ] in
lemma step_interchange (hV : Valid R p.2.2) (hleads : Leads p.2.2 r (.callable (.inl w) isConst))
    (hmoves : mode = .tryCall → X.moves.Keeps R.sig) :
    (∃ seen, lent R.sig seen = seen' ∧ (borrowedMachine B X m₀).step p
        (.inl (.call w .call (lvalue isConst) (B.forward a) seen)) p') ↔
      (borrowedMachine B X m₀).step p (.inr (.call r mode a seen')) p' := by
  obtain ⟨m, q, V⟩ := p
  obtain ⟨m', q', V'⟩ := p'
  have hserve := machine_serves B (m, q) (m', q') w (lvalue isConst) a
  have hkeeps : mode = .tryCall → (lend (callValue B) X).moves.Keeps R.sig :=
    fun e => (hmoves e).mapError _
  have hcall : (views R (lend (callValue B) X)).step (m, q) V (.call r mode a seen') (m', q') V' ↔
      _ := call_of_leads hleads
  rw [handOver_of_keeps hkeeps] at hcall
  constructor
  · rintro ⟨seen, rfl, hstep, hsame⟩
    obtain ⟨hrun, hend⟩ := (hserve seen).mpr ⟨_, rfl, hstep⟩
    obtain ⟨hends, hgoes⟩ := lent_ends (not_noexcept B hV hleads) hend
    refine ⟨hgoes, hcall.mpr ⟨?_, hends, hsame, ?_⟩⟩
    · simp only [lend, hrun, Option.elim_some]
      rfl
    · simp only [lend, hrun, Option.elim_some]
  · rintro ⟨hgoes, hstep⟩
    obtain ⟨rfl, hend, hsame, hleft⟩ := hcall.mp hstep
    have hexec := exec_ne_terminates .keeping .call hend hgoes
    cases hrun : callValue B (m, q) w (lvalue isConst) a with
    | none => exact absurd (by simp [lend, hrun]) hexec
    | some y =>
      obtain ⟨k, seen⟩ := y
      have hreturns : seen ≠ .terminated := by
        simpa [lend, hrun, ended_eq_terminates] using hexec
      obtain rfl : (m', q') = k := by simpa only [lend, hrun, Option.elim_some] using hleft
      obtain ⟨_, rfl, hcalled⟩ := (hserve seen).mp ⟨hrun, hreturns⟩
      refine ⟨seen, ?_, hcalled, hsame⟩
      simp only [lend, hrun, Option.elim_some]
      rfl

/-- **A view of a wrapper calls what the wrapper has.** Where a `function_ref` leads to a wrapper,
the program can call either of them with the parameters of the view: whatever the wrapper has been
given since the view was made, the calls return or throw the same, and nothing that the program sees
afterwards tells it which one it called. For `try_call` the moves of the result must keep it. -/
theorem borrowed_calls_interchange (hpre : Borrows B X m₀ pre r w isConst)
    (hmoves : mode = .tryCall → X.moves.Keeps R.sig) :
    (∃ seen, lent R.sig seen = seen' ∧
        pre ++ .inl (.call w .call (lvalue isConst) (B.forward a) seen) :: post ∈
          borrowedHistories B X m₀) ↔
      pre ++ .inr (.call r mode a seen') :: post ∈ borrowedHistories B X m₀ := by
  simp only [mem_borrowedHistories_iff]
  exact Path.congr_some (p := fun seen => lent R.sig seen = seen') fun p p' hpath =>
    step_interchange (valid_of_path hpath nofun) (hpre p hpath) hmoves

end Histories

/-- `function_ref<int(int)>`, and no objects but the wrappers. -/
def wrapperRefs : RefEnv Unit (ℕ ⊕ Empty) Empty ℕ :=
  { RefViews.sampleRefs with
    typeOf := fun _ => ()
    bindable := fun _ _ => viewable arithmeticOnly (sampleEnv .copyable) intToInt }

def sampleLending : Lending countingShared (sampleEnv .copyable) wrapperRefs where
  wrapperType := ()
  typeOf_wrapper _ := rfl
  bindable _ := rfl
  memberBindable _ _ := rfl
  forward a := a
  types _ := rfl

def noObjects : Execution (ℕ ⊕ Empty) Empty ℕ ℕ ℕ Unit Unit where
  moves := .keeping
  exec _ _ _ := .error ()
  leaves _ _ _ := ()

/-- The wrapper is given another counter after the view of it was made. -/
def viewedCounter : List (Event Sample ℕ ℕ ℕ Unit ⊕
    RefEvent (ℕ ⊕ Empty) Empty ℕ ℕ ℕ (Abrupt Unit)) :=
  [.inl (.op .start false), .inl (.op (.construct 0 (.object ⟨.counter, 7⟩)) false)] ++
    .inr (.op (.make 0 (.callable (.inl 0) false))) ::
      [.inl (.op (.assignCallable 0 (.object ⟨.counter, 20⟩)) false)]

lemma int_viewable : viewable arithmeticOnly (sampleEnv .copyable) intToInt = true := by decide

/-- The view calls the second counter, and the wrapper has counted the call. -/
theorem borrowed_calls_interchange_counter :
    viewedCounter ++ .inr (.call 0 .tryCall 5 (.value (some 25))) ::
        [.inl (.call 0 .call .l 5 (.value 26))] ∈
      borrowedHistories sampleLending noObjects () := by
  have hacc : acceptedSignature arithmeticOnly .wrapper .call [intToInt] [.val (.arith .int)] =
      some intToInt := by decide
  refine (borrowed_calls_interchange (borrows_of_made int_viewable (by simp))
    fun _ => Moves.keeping_keeps).mp
    ⟨.value 25, rfl,
      (?_ : viewedCounter ++ Sum.inl (Event.call 0 .call .l 5 (.value 25)) :: [_] ∈ _)⟩
  rw [mem_borrowedHistories_iff]
  exact ⟨(_, _, _), Path.cons_iff.mpr ⟨(_, _, _), ⟨⟨⟨rfl, nofun, rfl⟩, rfl⟩, rfl⟩,
    Path.cons_iff.mpr ⟨(_, _, _), ⟨⟨⟨⟨rfl, rfl, nofun⟩, nofun, rfl⟩, rfl⟩, rfl⟩,
    Path.cons_iff.mpr ⟨(_, _, _), ⟨trivial, ⟨rfl, nofun, .inl ⟨rfl, int_viewable⟩⟩, rfl, rfl⟩,
    Path.cons_iff.mpr ⟨(_, _, _), ⟨⟨⟨⟨nofun, ⟨rfl, nofun⟩, nofun⟩, nofun, rfl⟩, rfl⟩, rfl⟩,
    Path.cons_iff.mpr ⟨(_, _, _), ⟨⟨⟨_, _, rfl, hacc, rfl, nofun, rfl⟩, rfl⟩, rfl⟩,
    Path.cons_iff.mpr ⟨(_, _, _), ⟨⟨⟨_, _, rfl, hacc, rfl, nofun, rfl⟩, rfl⟩, rfl⟩, .nil _⟩⟩⟩⟩⟩⟩⟩

end FunctionWrapper.BorrowedWrappers
