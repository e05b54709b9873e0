import FunctionWrapper.ConstructionPaths
import FunctionWrapper.Histories

/-!
Wrappers that are initialized in constant evaluation.

A callable that is given then is kept as function pointers, and called through them for the rest of
the run. Where its pointers serve the signatures that it serves itself, and calls go alike, the
history does not tell: the program could have started run time before the initialization. What can
tell is `target`, which finds nothing in such a wrapper, and a copy that throws.
-/

namespace FunctionWrapper.ConstantStart

open FunctionWrapper.Types FunctionWrapper.Traits FunctionWrapper.Signatures
open FunctionWrapper.Callables FunctionWrapper.Storage FunctionWrapper.Lifecycle
open FunctionWrapper.RunInvariant FunctionWrapper.CallAcceptance FunctionWrapper.Dispatch
open FunctionWrapper.ValueSemantics FunctionWrapper.ConstructionPaths FunctionWrapper.ValueMachine
open FunctionWrapper.Histories
open Runs

variable {τ Val Fn Raw Arg Ret Exc : Type} [DecidableEq τ]
variable (L : Language τ Val Fn Raw Arg Ret Exc) (E : Env τ Val Fn)

/-- A callable that is the same kept as an object and as pointers: calls leave it alone, it has no
null pointer, and what it can be invoked through are its pointers. -/
structure Steady (o : Object τ Val) : Prop where
  type : o.type ≠ E.staticFunction
  bindable : constexprBindable E o.type = true
  nonNull : NonNull E o
  paths : SamePaths L.program L.toCalls E o o
  after : ∀ cat s a, L.after o.type cat s o.val a = o.val

/-- An event of constant evaluation: nothing throws, the callables given are steady, and calls
return. -/
def Early : Event τ Val Raw Ret Exc → Prop
  | .op (.construct _ (.object o)) threw | .op (.assignCallable _ (.object o)) threw =>
    Steady L E o ∧ threw = false
  | .op (.construct _ (.target ..)) _ | .op (.assignCallable _ (.target ..)) _ => False
  | .op (.targetRuns ..) _ | .op .start _ => False
  | .op _ threw => threw = false
  | .call _ _ _ _ seen => ∃ r, seen = .value r
  | .ask .. => True

/-- An event that does not use `target`, and that is no copy that throws. -/
def Late : Event τ Val Raw Ret Exc → Prop
  | .op (.construct _ (.target ..)) _ | .op (.assignCallable _ (.target ..)) _ => False
  | .op (.targetRuns ..) _ => False
  | .op (.copyConstruct ..) threw | .op (.copyAssign ..) threw => threw = false
  | _ => True

variable {L E} in
lemma Early.calm {op : Op τ Val} {threw : Bool}
    (h : Early L E (.op op threw : Event τ Val Raw Ret Exc)) : threw = false := by
  cases op with
  | construct w src | assignCallable w src =>
    cases src with
    | object o => exact h.2
    | target u r => cases h
  | targetRuns w v | start => cases h
  | _ => exact h

/-- A value beside the one that it would be at run time. -/
inductive Same (ph : Phase) : Option (Callable τ Val) → Option (Callable τ Val) → Prop
  | none : Same ph none none
  | stored (o : Object τ Val) (hrun : ph = .run) : Same ph (some (.stored o)) (some (.stored o))
  | constant (o : Object τ Val) (h : Steady L E o) :
      Same ph (some (.constant o)) (some (.stored o))

/-- The values of the wrappers that exist. -/
def Alike (ph : Phase) (A B : Values τ Val) : Prop := ∀ w, Option.Rel (Same L E ph) (A w) (B w)

variable {L E} {ph : Phase} {A B : Values τ Val} {a b : Option (Callable τ Val)} {w u : ℕ}
variable {o : Object τ Val} {mode : Mode} {cat : Category} {s : Sig} {args : Raw}

variable {op : Op τ Val}

lemma Alike.update (h : Alike L E ph A B) (w : ℕ) {p q : Option (Option (Callable τ Val))}
    (hpq : Option.Rel (Same L E ph) p q) :
    Alike L E ph (Function.update A w p) (Function.update B w q) := by
  intro v
  by_cases hvw : v = w
  · subst hvw
    simpa using hpq
  · simpa [hvw] using h v

lemma Alike.exists_some (h : Alike L E ph A B) (ha : A w = some a) :
    ∃ b, B w = some b ∧ Same L E ph a b := by
  have hw := h w
  rw [ha] at hw
  generalize B w = q at hw ⊢
  cases hw with
  | some hr => exact ⟨_, rfl, hr⟩

lemma Alike.of_stored (h : Alike L E ph A B) (ho : A w = some (some (.stored o))) :
    B w = some (some (.stored o)) := by
  obtain ⟨b, hb, hsame⟩ := h.exists_some ho
  cases hsame with
  | stored o hrun => exact hb

lemma Alike.mapStored (h : Alike L E .run A B) (ho : A w = some (some (.stored o)))
    (f : Object τ Val → Object τ Val) :
    Alike L E .run (Function.update A w ((A w).map (Option.map (Callable.mapStored f))))
      (Function.update B w ((B w).map (Option.map (Callable.mapStored f)))) := by
  refine h.update w ?_
  rw [h.of_stored ho, ho]
  exact .some (.stored _ rfl)

lemma told {e : Event τ Val Raw Ret Exc} (hearly : ph = .constant → Early L E e)
    (hlate : ph = .run → Late e) : Early L E e ∨ Late e := by
  cases ph with
  | constant => exact .inl (hearly rfl)
  | run => exact .inr (hlate rfl)

lemma Alike.start (h : Alike L E ph A B) : Alike L E .run A B := by
  intro w
  have hw := h w
  generalize A w = p at hw ⊢
  generalize B w = q at hw ⊢
  cases hw with
  | none => exact .none
  | some hr =>
    refine .some ?_
    cases hr with
    | none => exact .none
    | stored o hrun => exact .stored o rfl
    | constant o hsteady => exact .constant o hsteady

end FunctionWrapper.ConstantStart
