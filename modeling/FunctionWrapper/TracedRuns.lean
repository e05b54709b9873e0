import Mathlib.Tactic.Common

/-!
Runs of functions that call others: which calls they make, and how they end.
-/

namespace TracedRuns

/-- A function returns, throws, or ends the program. -/
inductive Ending (ε α : Type*)
  | returns (a : α)
  | throws (e : ε)
  | terminates
  deriving DecidableEq, Repr

def Ending.map {ε α β : Type*} (f : α → β) : Ending ε α → Ending ε β
  | .returns a => .returns (f a)
  | .throws e => .throws e
  | .terminates => .terminates

/-- A function that does no more than give a result or an exception. -/
def Ending.ofExcept {ε α : Type*} : Except ε α → Ending ε α
  | .ok a => .returns a
  | .error e => .throws e

/-- One end, and another one that depends on the result. -/
def Ending.bind {ε α β : Type*} (e : Ending ε α) (f : α → Ending ε β) : Ending ε β :=
  match e with
  | .returns a => f a
  | .throws e => .throws e
  | .terminates => .terminates

lemma Ending.bind_returns {ε α : Type*} (e : Ending ε α) : e.bind .returns = e := by
  cases e <;> rfl

@[ext]
structure Run (κ ε α : Type*) where
  calls : List κ
  ending : Ending ε α
  deriving DecidableEq, Repr

namespace Run

variable {κ ε α β : Type*}

def ret (a : α) : Run κ ε α := ⟨[], .returns a⟩
def throw (e : ε) : Run κ ε α := ⟨[], .throws e⟩

def call (k : κ) (r : Except ε α) : Run κ ε α := ⟨[k], .ofExcept r⟩

def lift (r : Except ε α) : Run κ ε α := ⟨[], .ofExcept r⟩

def bind (r : Run κ ε α) (f : α → Run κ ε β) : Run κ ε β :=
  match r.ending with
  | .returns a => ⟨r.calls ++ (f a).calls, (f a).ending⟩
  | .throws e => ⟨r.calls, .throws e⟩
  | .terminates => ⟨r.calls, .terminates⟩

/-- A `noexcept` function ends the program instead of throwing. -/
def noexcept (r : Run κ ε α) : Run κ ε α :=
  match r.ending with
  | .throws _ => ⟨r.calls, .terminates⟩
  | _ => r

variable (r : Run κ ε α)

/-- Nothing is thrown out of the function. -/
def NeverThrows : Prop := ∀ e, r.ending ≠ .throws e

@[simp] lemma calls_noexcept : r.noexcept.calls = r.calls := by
  unfold noexcept
  split <;> rfl

lemma neverThrows_noexcept : r.noexcept.NeverThrows := by
  intro e
  unfold noexcept
  split
  · simp
  · next h => exact h e

variable {r}

lemma NeverThrows.noexcept_eq (h : r.NeverThrows) : r.noexcept = r := by
  unfold noexcept
  split
  · next e he => exact absurd he (h e)
  · rfl

@[simp] lemma ret_bind (a : α) (f : α → Run κ ε β) : (ret a).bind f = f a := rfl

@[simp] lemma throw_bind (e : ε) (f : α → Run κ ε β) : (throw e).bind f = throw e := rfl

@[simp] lemma lift_ok (a : α) : (lift (.ok a) : Run κ ε α) = ret a := rfl

@[simp] lemma lift_error (e : ε) : (lift (.error e) : Run κ ε α) = throw e := rfl

lemma bind_assoc {γ : Type*} (f : α → Run κ ε β) (g : β → Run κ ε γ) :
    (r.bind f).bind g = r.bind fun a => (f a).bind g := by
  unfold bind
  cases r.ending with
  | returns a => cases hf : (f a).ending <;> simp [hf]
  | throws e => rfl
  | terminates => rfl

@[simp] lemma noexcept_noexcept : r.noexcept.noexcept = r.noexcept := r.neverThrows_noexcept.noexcept_eq

lemma bind_lift (f : α → Except ε β) :
    (r.bind fun a => .lift (f a)) = ⟨r.calls, r.ending.bind fun a => .ofExcept (f a)⟩ := by
  unfold bind
  cases r.ending <;> simp [lift, Ending.bind]

lemma bind_ret (f : α → β) : (r.bind fun a => .ret (f a)) = ⟨r.calls, r.ending.map f⟩ := by
  unfold bind
  cases r.ending <;> simp [ret, Ending.map]

lemma NeverThrows.bind_ret (h : r.NeverThrows) (f : α → β) :
    (r.bind fun a => .ret (f a)).NeverThrows := by
  intro e he
  rw [Run.bind_ret] at he
  cases hr : r.ending with
  | returns a => simp [hr, Ending.map] at he
  | throws e' => exact h e' hr
  | terminates => simp [hr, Ending.map] at he

end Run

end TracedRuns
