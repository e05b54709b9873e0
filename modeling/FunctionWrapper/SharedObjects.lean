import FunctionWrapper.Histories
import FunctionWrapper.RefMachine

/-!
Programs that use wrappers and `function_ref`s on the same objects.

A call of either kind runs a target, and what it runs may read and change the objects of the
program. The wrappers and the `function_ref`s by turns do what the values and the views do by turns:
a program sees nothing else of them, however it mixes the two.
-/

namespace FunctionWrapper.SharedObjects

open FunctionWrapper.Types FunctionWrapper.Traits FunctionWrapper.Signatures
open FunctionWrapper.Callables FunctionWrapper.Storage FunctionWrapper.Lifecycle
open FunctionWrapper.CallAcceptance FunctionWrapper.WrapperSpec FunctionWrapper.RunInvariant
open FunctionWrapper.Dispatch FunctionWrapper.DispatchSpec FunctionWrapper.InvokedTargets
open FunctionWrapper.ValueSemantics FunctionWrapper.ValueMachine FunctionWrapper.Histories
open FunctionWrapper.FunctionRef (RefEnv Refs)
open FunctionWrapper.RefMachine (Execution RefEvent Views refs views)
open Runs

variable {τ Val Fn σ Obj Member Raw Arg Ret Exc μ : Type}

/-- The language around the wrappers, where calls read the objects of the program and leave others.
The conversions of arguments do not. -/
structure SharedLanguage (τ Val Fn Raw Arg Ret Exc μ : Type) where
  program : Program
  types : Raw → List QType
  cast : Sig → Raw → Except Exc Arg
  init : Sig → Raw → Except Exc Arg
  invoke : μ → τ → Category → Sig → Val → Arg → Except Exc Ret
  after : μ → τ → Category → Sig → Val → Arg → Val
  /-- The objects that a stored callable leaves. -/
  invoked : μ → τ → Category → Sig → Val → Arg → μ
  apply : μ → Sig → Fn → Arg → Except Exc Ret
  /-- The objects that a function leaves. -/
  applied : μ → Sig → Fn → Arg → μ

namespace SharedLanguage

variable (L : SharedLanguage τ Val Fn Raw Arg Ret Exc μ)

/-- The language while the objects are as they are. -/
def given (m : μ) : Language τ Val Fn Raw Arg Ret Exc where
  types := L.types
  cast := L.cast
  init := L.init
  invoke := L.invoke m
  apply := L.apply m
  program := L.program
  after := L.after m

def left (m : μ) (mode : Mode) (cat : Category) (s : Sig) (args : Raw) :
    Option (Invoked τ Val Fn) → μ
  | none => m
  | some (.object o) =>
    match convert (L.given m).toCalls mode s args with
    | .ok a => L.invoked m o.type cat s o.val a
    | .error _ => m
  | some (.function t pointer) =>
    match L.cast t args with
    | .ok a => L.applied m t pointer a
    | .error _ => m

end SharedLanguage

section Wrappers

variable [DecidableEq τ] (L : SharedLanguage τ Val Fn Raw Arg Ret Exc μ) (E : Env τ Val Fn)

/-- The objects after a step of the wrappers. -/
def wrappersLeave (m : μ) (W : World τ Val Fn) : Event τ Val Raw Ret Exc → μ
  | .call w mode cat args _ =>
    match acceptedSignature L.program .wrapper mode E.sigs (L.types args) with
    | some s => L.left m mode cat s args (invoked E (L.given m).toCalls W w mode cat s args)
    | none => m
  | _ => m

def openWrappers : Open μ (World τ Val Fn) (Event τ Val Raw Ret Exc × Luck) where
  init W := W = .init
  step m W e m' W' := (wrappers (L.given m) E).step W e W' ∧ m' = wrappersLeave L E m W e.1

def valueTarget (C : Calls τ Val Fn Raw Arg Ret Exc) (a : Option (Callable τ Val)) (mode : Mode)
    (cat : Category) (s : Sig) (args : Raw) : Option (Invoked τ Val Fn) :=
  match a with
  | none => none
  | some (.stored o) =>
    match convert C mode s args with
    | .ok _ => if E.exactInvocable o.type cat s then some (.object o) else none
    | .error _ => none
  | some (.constant o) =>
    match pointerOf E o s, C.cast s args with
    | some pointer, .ok _ => some (.function s pointer)
    | _, _ => none

/-- The objects after a step of the machine. -/
def machineLeaves (m : μ) (q : Phase × Values τ Val) : Event τ Val Raw Ret Exc → μ
  | .call w mode cat args _ =>
    match q.2 w, acceptedSignature L.program .wrapper mode E.sigs (L.types args) with
    | some a, some s =>
      L.left m mode cat s args (valueTarget E (L.given m).toCalls a mode cat s args)
    | _, _ => m
  | _ => m

def openMachine : Open μ (Phase × Values τ Val) (Event τ Val Raw Ret Exc) where
  init q := q = (.constant, fun _ => none)
  step m q e m' q' := (machine E (L.given m)).step q e q' ∧ m' = machineLeaves L E m q e

variable {L E} {W W' : World τ Val Fn} {q q' : Phase × Values τ Val} {m : μ} {w : ℕ}

lemma invoked_eq (h : Agrees E W q) {C : Calls τ Val Fn Raw Arg Ret Exc}
    {a : Option (Callable τ Val)} (ha : q.2 w = some a) (mode : Mode) (cat : Category) {s : Sig}
    (hs : s ∈ E.sigs) (args : Raw) :
    invoked E C W w mode cat s args = valueTarget E C a mode cat s args := by
  obtain ⟨hinv, -, hrel⟩ := h
  obtain ⟨c, o, hv⟩ := live_view ((live_iff (w := w) hrel).mpr (by simp [ha]))
  obtain ⟨hc, hcon⟩ := view_eq_some hv
  have hr := hrel w
  rw [hv, ha] at hr
  refine Option.ext fun t => ?_
  cases hr with
  | some hr =>
    cases hr with
    | empty _ hoff =>
      by_cases huse : W.phase = .constant ∨ c.active = true
      · simp [invoked_slots_iff hinv hc huse, (hinv.coherent w c none hv).idle hoff s hs,
          valueTarget]
      · simp [invoked_content_iff hinv hc (run_of_not_slots huse).1 hoff, hcon, valueTarget]
    | stored _ hoff o =>
      rw [invoked_content_iff hinv hc (run_of_content hinv hcon) hoff, hcon, valueTarget]
      cases convert C mode s args with
      | error e => simp
      | ok b => by_cases hx : E.exactInvocable o.type cat s = true <;> simp [hx]
    | constant _ hon o hslots =>
      rw [invoked_slots_iff hinv hc (.inr hon), hslots s hs, valueTarget]
      rcases pointerOf E o s with _ | pointer
      · simp
      · cases C.cast s args <;> simp

lemma leave_eq (h : Agrees E W q) {e : Event τ Val Raw Ret Exc}
    (hs : (machine E (L.given m)).step q e q') :
    wrappersLeave L E m W e = machineLeaves L E m q e := by
  cases e with
  | op op threw => rfl
  | ask w hasValue bound => rfl
  | call w mode cat args seen =>
    obtain ⟨a, s, ha, hacc, -⟩ := hs
    have hacc' : acceptedSignature L.program .wrapper mode E.sigs (L.types args) = some s := hacc
    simp only [wrappersLeave, machineLeaves, ha, hacc']
    exact congrArg (L.left m mode cat s args) (invoked_eq h ha mode cat (accepted_mem hacc) args)

variable (L E)

def wrappersForward : Open.Simulation (openWrappers L E) (openMachine L E) Prod.fst id where
  Rel := Agrees E
  init W hW := ⟨_, rfl, (show W = .init from hW) ▸ agrees_init⟩
  step m W q e m' W' h := by
    rintro ⟨hs, rfl⟩
    obtain ⟨q', hs', h'⟩ := follow_step h hs
    exact ⟨e.1, q', ⟨hs', leave_eq h hs'⟩, rfl, h'⟩

def wrappersBackward : Open.Simulation (openMachine L E) (openWrappers L E) id Prod.fst where
  Rel q W := Agrees E W q ∧ {w | q.2 w ≠ none}.Finite
  init q hq := by
    have h0 : q = (.constant, fun _ => none) := hq
    subst h0
    exact ⟨.init, rfl, agrees_init, by simp⟩
  step m q W e m' q' := by
    rintro ⟨h, hfin⟩ ⟨hs, rfl⟩
    obtain ⟨luck, W', hs', h'⟩ := realize_step h hfin hs
    exact ⟨(e, luck), W', ⟨hs', (leave_eq h hs).symm⟩, rfl, h', finite_step hfin hs⟩

end Wrappers

section Private

variable [DecidableEq τ] (L : SharedLanguage τ Val Fn Raw Arg Ret Exc μ) (E : Env τ Val Fn)

/-- A call reads and changes the callable that it runs, and no object besides. -/
structure Private : Prop where
  invoke : ∀ m m', L.invoke m = L.invoke m'
  after : ∀ m m', L.after m = L.after m'
  apply : ∀ m m', L.apply m = L.apply m'
  invoked : ∀ m T cat s v a, L.invoked m T cat s v a = m
  applied : ∀ m s f a, L.applied m s f a = m

/-- What a program can see that uses its wrappers only, with calls that may read and change its
objects. -/
def ownHistories (m₀ : μ) : Set (List (Event τ Val Raw Ret Exc)) :=
  Traces ((openWrappers L E).alone m₀) fun e => some e.1

variable {L E}

omit [DecidableEq τ] in
lemma Private.left_eq (h : Private L) (m : μ) (mode : Mode) (cat : Category) (s : Sig) (args : Raw)
    (t : Option (Invoked τ Val Fn)) : L.left m mode cat s args t = m := by
  rcases t with _ | (o | ⟨t, pointer⟩)
  · rfl
  · simp only [SharedLanguage.left]
    split
    · exact h.invoked ..
    · rfl
  · simp only [SharedLanguage.left]
    split
    · exact h.applied ..
    · rfl

lemma Private.wrappersLeave_eq (h : Private L) (m : μ) (W : World τ Val Fn)
    (e : Event τ Val Raw Ret Exc) : wrappersLeave L E m W e = m := by
  cases e with
  | call w mode cat args seen =>
    simp only [wrappersLeave]
    split
    · exact h.left_eq ..
    · rfl
  | _ => rfl

/-- Calls that keep to their callables leave nothing that other calls could find. -/
lemma Private.ownHistories_eq (h : Private L) (m₀ : μ) :
    ownHistories L E m₀ = histories (L.given m₀) E := by
  refine Open.traces_alone_eq (fun _ => Iff.rfl) (fun W e m' W' => ?_) _
  simp only [openWrappers, h.wrappersLeave_eq]
  exact and_comm

end Private

/-- Calls with one `int`, on callables that count their calls, as `countingCalls` has them. -/
def countingShared : SharedLanguage Sample ℕ ℕ ℕ ℕ ℕ Unit Unit where
  program := arithmeticOnly
  types := countingCalls.types
  cast := countingCalls.cast
  init := countingCalls.init
  invoke _ := countingCalls.invoke
  after _ := countingCalls.after
  invoked _ _ _ _ _ _ := ()
  apply _ := countingCalls.apply
  applied _ _ _ _ := ()

lemma counting_private : Private countingShared where
  invoke _ _ := rfl
  after _ _ := rfl
  apply _ _ := rfl
  invoked _ _ _ _ _ _ := rfl
  applied _ _ _ _ := rfl

/-! ### Histories -/

section Histories

variable [DecidableEq τ] [DecidableEq σ] (L : SharedLanguage τ Val Fn Raw Arg Ret Exc μ)
variable (E : Env τ Val Fn) (R : RefEnv σ Obj Member Fn) (X : Execution Obj Member Fn Arg Ret Exc μ)

/-- What a program can see of its wrappers and `function_ref`s, which take turns on its objects. -/
def sharedHistories (m₀ : μ) : Set (List (Event τ Val Raw Ret Exc ⊕
    RefEvent Obj Member Fn Arg Ret Exc)) :=
  Traces ((openWrappers L E).beside (refs R X) m₀) fun e => some (e.map Prod.fst id)

/-- The values and the views, which take turns. -/
abbrev sharedMachine (m₀ : μ) := (openMachine L E).beside (views R X) m₀

abbrev start (m₀ : μ) : μ × (Phase × Values τ Val) × Views Obj Member Fn :=
  (m₀, (.constant, fun _ => none), fun _ => none)

variable {L E R X} {m₀ : μ}
variable {t : List (Event τ Val Raw Ret Exc ⊕ RefEvent Obj Member Fn Arg Ret Exc)}

omit [DecidableEq σ] in
lemma mem_traces_start : t ∈ Traces (sharedMachine L E R X m₀) some ↔
    ∃ p, Path (sharedMachine L E R X m₀) t (start m₀) p := by
  refine mem_traces_from ?_
  rintro ⟨m, q, V⟩
  simp [Open.beside, openMachine, views, Prod.ext_iff]

lemma mem_sharedHistories_iff : t ∈ sharedHistories L E R X m₀ ↔
    ∃ p, Path (sharedMachine L E R X m₀) t (start m₀) p := by
  rw [sharedHistories, Open.traces_beside_eq (wrappersForward L E) (wrappersBackward L E)
    (RefMachine.forward R X) (RefMachine.backward R X) m₀]
  simp only [Sum.map_id_id, id_eq]
  exact mem_traces_start

variable (L E R X) in
/-- **Programs see values and views.** However a program mixes its wrappers and `function_ref`s, and
whatever their targets do to its objects, it sees what it would see of optional callable values and
of views of targets. -/
theorem shared_histories_eq (m₀ : μ) :
    sharedHistories L E R X m₀ = Traces (sharedMachine L E R X m₀) some :=
  Set.ext fun _ => mem_sharedHistories_iff.trans mem_traces_start.symm

lemma path_spec {p : μ × (Phase × Values τ Val) × Views Obj Member Fn}
    (h : Path (sharedMachine L E R X m₀) t (start m₀) p) :
    (∃ W, Agrees E W p.2.1) ∧ RefMachine.Valid R p.2.2 := by
  have hvalid : RefMachine.Valid R (fun _ => none : Views Obj Member Fn) := nofun
  obtain ⟨_, ⟨_, W, _⟩, -, -, -, ⟨hW, -⟩, -, hV⟩ :=
    ((wrappersBackward L E).beside (RefMachine.backward R X) m₀).path
      (t := (m₀, .init, fun _ => none)) ⟨rfl, ⟨agrees_init, by simp⟩, rfl, hvalid⟩ h
  exact ⟨⟨W, hW⟩, hV⟩

end Histories

end FunctionWrapper.SharedObjects
