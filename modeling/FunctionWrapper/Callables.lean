import FunctionWrapper.Signatures
import FunctionWrapper.TaggedWord

/-!
The stored types of a wrapper: what the compiler knows about each of them, and where it puts their
vtables.
-/

namespace FunctionWrapper.Callables

open FunctionWrapper.Types FunctionWrapper.Signatures

/-- The two owning wrappers. `moveOnly` is `move_only_function_wrapper`. -/
inductive Kind | copyable | moveOnly
  deriving DecidableEq, Repr

/-- The value category of the wrapper in a call: `&`, `const&` or `&&`. -/
inductive Category | l | cl | r
  deriving DecidableEq, Repr

def Category.all : List Category := [.l, .cl, .r]

def vtableTagIsSmall : BitVec 64 := 1
def vtableTagTrivialDestroy : BitVec 64 := 2
def vtableTagTrivialRelocate : BitVec 64 := 4
def vtableTagsMask : BitVec 64 := 7

/-- The type traits the storage looks at. -/
structure Layout (τ : Type) where
  size : τ → ℕ
  align : τ → ℕ
  nothrowMoveConstructible : τ → Bool
  triviallyDestructible : τ → Bool
  triviallyCopyable : τ → Bool
  copyConstructible : τ → Bool
  moveConstructible : τ → Bool
  destructible_of_copyable : ∀ T, triviallyCopyable T = true → triviallyDestructible T = true

/-- The vtable objects, one for each stored type, at addresses that are multiples of 8. -/
structure Vtables (τ : Type) where
  address : τ → BitVec 64
  /-- The stored type of the vtable at an address. -/
  typeAt : BitVec 64 → Option τ
  typeAt_address : ∀ T, typeAt (address T) = some T
  aligned : ∀ T, TaggedWord.Aligned vtableTagsMask (address T)
  ne_zero : ∀ T, address T ≠ 0

/-- A wrapper class `Wrapper<Policy, Sigs...>` and the callables given to it. `τ` are the stored
types, `Val` their values and `Fn` the functions that function pointers point to. -/
structure Env (τ Val Fn : Type) where
  kind : Kind
  sigs : List Sig
  storageSize : ℕ
  maxAlign : ℕ
  layout : Layout τ
  vtables : Vtables τ
  /-- `is_exact_invocable_r_v` for the category, and `is_exact_nothrow_invocable_r_v` when the
  signature is `noexcept`. -/
  exactInvocable : τ → Category → Sig → Bool
  /-- The conversion to `signature_pointer_t<Sig>`, where there is an implicit one. -/
  toPointer : τ → Sig → Option (Val → Option Fn)
  /-- `static_function<Sigs...>`, and the pointers it holds. -/
  staticFunction : τ
  slotsOf : Val → Sig → Option Fn
  /-- What an object is left as when it has been moved from. -/
  movedFrom : τ → Val → Val
  /-- What an object is left as when the constructor that was to move it throws. -/
  brokenFrom : τ → Val → Val

namespace Env

variable {τ Val Fn : Type} (E : Env τ Val Fn)

def fitsInSbo (T : τ) : Bool :=
  decide (E.layout.size T ≤ E.storageSize) && decide (E.layout.align T ≤ E.maxAlign) &&
    E.layout.nothrowMoveConstructible T

def supportsSignature (T : τ) (s : Sig) : Bool := Category.all.any fun c => E.exactInvocable T c s

def supportsAnySignature (T : τ) : Bool := E.sigs.any (E.supportsSignature T)

/-- The `static_assert`s of `assign_runtime_`, which every accepted callable passes. -/
def accepts (T : τ) : Bool :=
  (match E.kind with
    | .copyable => E.layout.copyConstructible T
    | .moveOnly => E.layout.moveConstructible T) && E.supportsAnySignature T

def tags (T : τ) : BitVec 64 :=
  vtableTagIsSmall ||| (if E.layout.triviallyDestructible T then vtableTagTrivialDestroy else 0) |||
    if E.layout.triviallyCopyable T then vtableTagTrivialRelocate else 0

end Env

/-! ### A class of wrappers for `int(int)` -/

/-- Callables of every storage form: a counter, a small one that owns something, a large table, a
function pointer and the `static_function` of the class. -/
inductive Sample | counter | owner | table | pointer | slots
  deriving DecidableEq, Repr

def sampleLayout : Layout Sample where
  size
    | .owner => 16
    | .table => 4096
    | _ => 8
  align _ := 8
  nothrowMoveConstructible T := T != .table
  triviallyDestructible T := T != .owner && T != .table
  triviallyCopyable T := T != .owner && T != .table
  copyConstructible _ := true
  moveConstructible _ := true
  destructible_of_copyable _ h := h

def sampleVtables : Vtables Sample where
  address
    | .counter => 8
    | .owner => 16
    | .table => 24
    | .pointer => 32
    | .slots => 40
  typeAt a :=
    if a = 8 then some .counter else if a = 16 then some .owner else if a = 24 then some .table
    else if a = 32 then some .pointer else if a = 40 then some .slots else none
  typeAt_address T := by cases T <;> rfl
  aligned T := by cases T <;> rfl
  ne_zero T := by cases T <;> decide

/-- `int(int)`. -/
def intToInt : Sig := ⟨.val (.arith .int), [.val (.arith .int)], false⟩

/-- The value 0 stands for a null function pointer, for a `static_function` without one, and for a
table that has lost its entries. -/
def sampleEnv (kind : Kind) : Env Sample ℕ ℕ where
  kind := kind
  sigs := [intToInt]
  storageSize := 32
  maxAlign := 16
  layout := sampleLayout
  vtables := sampleVtables
  exactInvocable _ _ s := s = intToInt
  toPointer T s := if T = .pointer ∧ s = intToInt then some fun v => if v = 0 then none else some v
    else none
  staticFunction := .slots
  slotsOf v s := if v = 0 ∨ s ≠ intToInt then none else some v
  movedFrom _ v := v
  brokenFrom T v := if T = .table then 0 else v

end FunctionWrapper.Callables
