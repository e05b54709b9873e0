import FunctionWrapper.Runs
import FunctionWrapper.Storage

/-!
The operations of the owning wrappers on a world of wrapper objects.

A wrapper has a constant part, `constexpr_storage_` with its active flag, and a storage; the world
keeps the two in separate maps, so that the storages of wrappers and the temporary of a swap are
named alike. The world starts in constant evaluation, where an operation returns before it touches
the storage, and passes to run time once.
-/

namespace FunctionWrapper.Lifecycle

open FunctionWrapper.Signatures FunctionWrapper.Callables FunctionWrapper.Storage
open OwnedCells

/-- The pointers of a `static_function`, by declared signature. -/
abbrev Slots (Fn : Type) := Sig → Option Fn

/-- `constexpr_storage_` and `constexpr_storage_active_`. -/
structure Constant (Fn : Type) where
  slots : Slots Fn
  active : Bool

def Constant.inactive {Fn : Type} : Constant Fn := ⟨fun _ => none, false⟩

/-- What `is_constant_evaluated_compat` tells apart. -/
inductive Phase | constant | run
  deriving DecidableEq, Repr

structure World (τ Val Fn : Type) where
  phase : Phase
  mem : Mem τ Val
  storages : Place → Option WrapperStorage
  constants : ℕ → Option (Constant Fn)

variable {τ Val Fn : Type} [DecidableEq τ]

namespace World

def init : World τ Val Fn := ⟨.constant, .init, fun _ => none, fun _ => none⟩

def setStorage (W : World τ Val Fn) (p : Place) (s : WrapperStorage) : World τ Val Fn :=
  { W with storages := Function.update W.storages p (some s) }

def setConstant (W : World τ Val Fn) (w : ℕ) (c : Constant Fn) : World τ Val Fn :=
  { W with constants := Function.update W.constants w (some c) }

def remove (W : World τ Val Fn) (w : ℕ) : World τ Val Fn :=
  { W with
    storages := Function.update W.storages (.of w) none
    constants := Function.update W.constants w none }

end World

variable (E : Env τ Val Fn)

/-- The end of `reset`. -/
def resetStorage (p : Place) (W : World τ Val Fn) : Option (World τ Val Fn) := do
  let s ← W.storages p
  if s.hasTrivialSmallDestroy then
    let (m, s) := destroyTrivialSmallStorage E p W.mem
    return { W with mem := m }.setStorage p s
  else if s.vtablePtr ≠ 0 then
    let T ← E.vtables.typeAt s.vtablePtr
    let (m, s) ← destroy E T p W.mem s
    return { W with mem := m }.setStorage p s
  else return W

/-- The end of copy construction and copy assignment. -/
def copyStorage (dst src : Place) (luck : Luck) (W : World τ Val Fn) :
    Option (World τ Val Fn × Bool) := do
  let d ← W.storages dst
  let s ← W.storages src
  if s.hasTrivialSmallRelocate then
    let (m, d) ← copyTrivialSmallStorage E dst src W.mem s
    return ({ W with mem := m }.setStorage dst d, false)
  else if s.vtablePtr ≠ 0 then
    let T ← E.vtables.typeAt s.vtablePtr
    guard (E.layout.copyConstructible T)
    let (m, d, threw) ← copy E T dst src luck W.mem d s
    return ({ W with mem := m }.setStorage dst d, threw)
  else return (W, false)

/-- A call of the `move` function of the source's vtable, if the source has one. -/
def vtableMove (dst src : Place) (W : World τ Val Fn) : Option (World τ Val Fn) := do
  let d ← W.storages dst
  let s ← W.storages src
  if s.vtablePtr ≠ 0 then
    let T ← E.vtables.typeAt s.vtablePtr
    let (m, d, s) ← move E T dst src W.mem d s
    return ({ W with mem := m }.setStorage dst d).setStorage src s
  else return W

/-- The end of move construction and move assignment. -/
def moveStorage (dst src : Place) (W : World τ Val Fn) : Option (World τ Val Fn) := do
  let s ← W.storages src
  if s.hasTrivialSmallRelocate then
    let (m, d, s) ← moveTrivialSmallStorage E dst src W.mem s
    return ({ W with mem := m }.setStorage dst d).setStorage src s
  else vtableMove E dst src W

/-- The end of `swap`: three moves through a temporary storage. -/
def swapStorages (p q : Place) (W : World τ Val Fn) : Option (World τ Val Fn) := do
  let W ← vtableMove E .tmp p (W.setStorage .tmp .empty)
  let W ← vtableMove E p q W
  let W ← vtableMove E q .tmp W
  return { W with storages := Function.update W.storages .tmp none }

/-- The argument of a construction or assignment from a callable: an object of the program, or the
callable stored in a wrapper, as a `const` lvalue or as an rvalue. -/
inductive Source (τ Val : Type)
  | object (o : Object τ Val)
  | target (u : ℕ) (rvalue : Bool)

def Source.read (W : World τ Val Fn) : Source τ Val → Option (Object τ Val)
  | .object o => some o
  | .target u _ => do
    let s ← W.storages (.of u)
    let k ← s.obj
    W.mem.get k

/-- The wrapper whose callable the construction is to move from. -/
def Source.moved : Source τ Val → Option ℕ
  | .target u true => some u
  | _ => none

/-- An rvalue source is left with another value. -/
def Source.leave (left : Object τ Val → Val) (W : World τ Val Fn) : Source τ Val → World τ Val Fn
  | .target u true =>
    match (W.storages (.of u)).bind (·.obj) with
    | none => W
    | some k =>
      match W.mem.get k with
      | none => W
      | some o => { W with mem := W.mem.write k { o with val := left o } }
  | _ => W

/-- `bind_constexpr_callable_` over the declared signatures. -/
def bindConstexprCallable (o : Object τ Val) : List Sig → Slots Fn × Bool → Slots Fn × Bool
  | [], acc => acc
  | s :: rest, (slots, any) =>
    bindConstexprCallable o rest <| match E.toPointer o.type s with
      | some pointer => (Function.update slots s (pointer o.val), true)
      | none => (slots, any)

def constexprBindable (T : τ) : Bool := E.sigs.any fun s => (E.toPointer T s).isSome

/-- `static_function::has_value`. -/
def hasValue (slots : Slots Fn) : Bool := E.sigs.any fun s => (slots s).isSome

/-- `assign_constexpr_`; the flag says that it threw `bad_call`. -/
def assignConstexpr (w : ℕ) (o : Object τ Val) (W : World τ Val Fn) : World τ Val Fn × Bool :=
  if o.type = E.staticFunction then
    (W.setConstant w ⟨E.slotsOf o.val, hasValue E (E.slotsOf o.val)⟩, false)
  else if constexprBindable E o.type then
    let (slots, any) := bindConstexprCallable E o E.sigs (fun _ => none, false)
    (W.setConstant w ⟨slots, any⟩, false)
  else (W, true)

/-- `assign_runtime_`. -/
def assignRuntime (w : ℕ) (src : Source τ Val) (luck : Luck) (W : World τ Val Fn) :
    Option (World τ Val Fn × Bool) := do
  let o ← src.read W
  let s ← W.storages (.of w)
  let (m, s, threw) := if E.fitsInSbo o.type then emplaceSmallStorage E (.of w) o luck W.mem s
    else emplaceHeapStorage E (.of w) o luck W.mem s
  let W := { W with mem := m }.setStorage (.of w) s
  return (src.leave (leftover E luck threw) W, threw)

def assign (w : ℕ) (src : Source τ Val) (luck : Luck) (W : World τ Val Fn) :
    Option (World τ Val Fn × Bool) := do
  if W.phase = .constant then
    let o ← src.read W
    return assignConstexpr E w o W
  else assignRuntime E w src luck W

/-! ### Operations -/

def reset (w : ℕ) (W : World τ Val Fn) : Option (World τ Val Fn) :=
  let W := W.setConstant w .inactive
  if W.phase = .constant then some W else resetStorage E (.of w) W

/-- A failed construction leaves no wrapper behind. -/
def orRemove (w : ℕ) (r : World τ Val Fn × Bool) : World τ Val Fn × Bool :=
  if r.2 then (r.1.remove w, true) else r

def defaultConstruct (w : ℕ) (W : World τ Val Fn) : World τ Val Fn :=
  (W.setConstant w .inactive).setStorage (.of w) .empty

def construct (w : ℕ) (src : Source τ Val) (luck : Luck) (W : World τ Val Fn) :
    Option (World τ Val Fn × Bool) :=
  (assign E w src luck (defaultConstruct w W)).map (orRemove w)

def copyConstruct (w u : ℕ) (luck : Luck) (W : World τ Val Fn) :
    Option (World τ Val Fn × Bool) := do
  let c ← W.constants u
  let W := (W.setConstant w c).setStorage (.of w) .empty
  if W.phase = .constant then return (W, false)
  else (copyStorage E (.of w) (.of u) luck W).map (orRemove w)

def moveConstruct (w u : ℕ) (W : World τ Val Fn) : Option (World τ Val Fn) := do
  let c ← W.constants u
  let W := ((W.setConstant w c).setConstant u .inactive).setStorage (.of w) .empty
  if W.phase = .constant then return W else moveStorage E (.of w) (.of u) W

def copyAssign (w u : ℕ) (luck : Luck) (W : World τ Val Fn) :
    Option (World τ Val Fn × Bool) := do
  if w = u then return (W, false)
  let W ← reset E w W
  let c ← W.constants u
  let W := W.setConstant w c
  if W.phase = .constant then return (W, false) else copyStorage E (.of w) (.of u) luck W

def moveAssign (w u : ℕ) (W : World τ Val Fn) : Option (World τ Val Fn) := do
  if w = u then return W
  let W ← reset E w W
  let c ← W.constants u
  let W := (W.setConstant w c).setConstant u .inactive
  if W.phase = .constant then return W else moveStorage E (.of w) (.of u) W

def assignCallable (w : ℕ) (src : Source τ Val) (luck : Luck) (W : World τ Val Fn) :
    Option (World τ Val Fn × Bool) := do
  let W ← reset E w W
  assign E w src luck W

def swap (w u : ℕ) (W : World τ Val Fn) : Option (World τ Val Fn) := do
  if w = u then return W
  let c ← W.constants w
  let d ← W.constants u
  let W := (W.setConstant w d).setConstant u c
  if W.phase = .constant then return W else swapStorages E (.of w) (.of u) W

def destruct (w : ℕ) (W : World τ Val Fn) : Option (World τ Val Fn) := do
  let W ← reset E w W
  return W.remove w

def targetRuns (w : ℕ) (v : Val) (W : World τ Val Fn) : Option (World τ Val Fn) := do
  let s ← W.storages (.of w)
  let k ← s.obj
  let o ← W.mem.get k
  return { W with mem := W.mem.write k { o with val := v } }

inductive Op (τ Val : Type)
  | defaultConstruct (w : ℕ)
  | construct (w : ℕ) (src : Source τ Val)
  | copyConstruct (w u : ℕ)
  | moveConstruct (w u : ℕ)
  | copyAssign (w u : ℕ)
  | moveAssign (w u : ℕ)
  | assignCallable (w : ℕ) (src : Source τ Val)
  | reset (w : ℕ)
  | swap (w u : ℕ)
  | destruct (w : ℕ)
  | targetRuns (w : ℕ) (v : Val)
  | start

/-- An operation as the program runs it; the flag says that it threw. -/
def exec (op : Op τ Val) (luck : Luck) (W : World τ Val Fn) : Option (World τ Val Fn × Bool) :=
  match op with
  | .defaultConstruct w => some (defaultConstruct w W, false)
  | .construct w src => construct E w src luck W
  | .copyConstruct w u => copyConstruct E w u luck W
  | .moveConstruct w u => (moveConstruct E w u W).map (·, false)
  | .copyAssign w u => copyAssign E w u luck W
  | .moveAssign w u => (moveAssign E w u W).map (·, false)
  | .assignCallable w src => assignCallable E w src luck W
  | .reset w => (reset E w W).map (·, false)
  | .swap w u => (swap E w u W).map (·, false)
  | .destruct w => (destruct E w W).map (·, false)
  | .targetRuns w v => (targetRuns w v W).map (·, false)
  | .start => some ({ W with phase := .run }, false)

def Live (W : World τ Val Fn) (w : ℕ) : Prop := W.constants w ≠ none

/-- The wrapper accepts the source. In constant evaluation only a callable that can be bound is
accepted, and `target` is not available. -/
def SourceOk (W : World τ Val Fn) : Source τ Val → Prop
  | .object o => E.accepts o.type = true ∧
      (W.phase = .constant → o.type = E.staticFunction ∨ constexprBindable E o.type = true)
  | .target u rvalue => W.phase = .run ∧ Live W u ∧
      ∃ o, (Source.target u rvalue).read W = some o ∧
        (rvalue = false → E.layout.copyConstructible o.type = true)

/-- A program can run the operation here. -/
def Enabled (W : World τ Val Fn) : Op τ Val → Prop
  | .defaultConstruct w => ¬ Live W w
  | .construct w src => ¬ Live W w ∧ SourceOk E W src
  | .copyConstruct w u => E.kind = .copyable ∧ ¬ Live W w ∧ Live W u
  | .moveConstruct w u => ¬ Live W w ∧ Live W u
  | .copyAssign w u => E.kind = .copyable ∧ Live W w ∧ Live W u
  | .moveAssign w u => Live W w ∧ Live W u
  | .assignCallable w src => Live W w ∧ SourceOk E W src
  | .reset w => Live W w
  | .swap w u => Live W w ∧ Live W u
  | .destruct w => Live W w
  | .targetRuns w _ => W.phase = .run ∧ Live W w ∧ ∃ o, (Source.target w false).read W = some o
  | .start => W.phase = .constant

/-- A step of a run: the operation, what its constructions meet, and whether it threw. -/
structure Label (τ Val : Type) where
  op : Op τ Val
  luck : Luck
  threw : Bool

/-- `operator new` returns a free block. An assignment has destroyed the old target by then, and may
get its block again. -/
def FreeBlock (W : World τ Val Fn) (n : ℕ) : Op τ Val → Prop
  | .copyAssign w _ | .assignCallable w _ => W.mem.get (.block n) = none ∨
      (W.storages (.of w)).bind (·.obj) = some (.block n)
  | _ => W.mem.get (.block n) = none

def system : Runs.System (World τ Val Fn) (Label τ Val) where
  init W := W = .init
  step W a W' := Enabled E W a.op ∧ FreeBlock W a.luck.block a.op ∧
    exec E a.op a.luck W = some (W', a.threw)

end FunctionWrapper.Lifecycle
