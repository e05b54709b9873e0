import FunctionWrapper.Runs
import FunctionWrapper.Signatures
import Mathlib.Logic.Function.Basic

/-!
`function_ref`: a view of a callable by its address and a thunk.

A `function_ref` of its own class is a callable too. A copy of one therefore has two candidates, the
defaulted copy and the template that binds any callable lvalue, and overload resolution decides.
-/

namespace FunctionWrapper.FunctionRef

open FunctionWrapper.Types FunctionWrapper.Traits FunctionWrapper.Signatures

/-- The constructors that take one reference, or the assignment operators that do: `const
function_ref&`, `function_ref&&`, and the templates for `F&`, `const F&`, `F&&` and `const F&&`,
of which the last two are deleted. -/
inductive Overload | copy | move | lvalue | constLvalue | rvalue | constRvalue
  deriving DecidableEq, Repr

namespace Overload

def all : List Overload := [.copy, .move, .lvalue, .constLvalue, .rvalue, .constRvalue]

/-- The order between overloads whose parameters are the same reference: no template before a
template, and an lvalue reference before a forwarding reference, which is less specialized. -/
def priority : Overload → ℕ
  | .copy | .move => 0
  | .lvalue | .constLvalue => 1
  | .rvalue | .constRvalue => 2

/-- Whether the reference to which an lvalue argument binds is `const`, where the overload is
viable. `isSelf` says that the argument is a `function_ref` of the class, and `bindable` and
`constBindable` are `callable_lvalue_bindable_v` of `F&` and `const F&`. -/
def parameter (isSelf bindable constBindable isConst : Bool) : Overload → Option Bool
  | .copy => if isSelf then some true else none
  | .lvalue => if !isConst && bindable then some false else none
  | .constLvalue => if constBindable then some true else none
  | .rvalue => if bindable then some isConst else none
  | .move | .constRvalue => none

/-- A reference to the less qualified type is better. -/
def better (a b : Overload × Bool) : Bool :=
  (!a.2 && b.2) || (a.2 == b.2 && decide (a.1.priority < b.1.priority))

/-- The best viable overload for an lvalue. -/
def resolve (isSelf bindable constBindable isConst : Bool) : Option Overload :=
  let viable := all.filterMap fun o =>
    (parameter isSelf bindable constBindable isConst o).map (o, ·)
  (viable.find? fun a => viable.all fun b => b.1 = a.1 || better a b).map Prod.fst

/-- A `function_ref` that is no constant is bound rather than copied, where it can be bound. -/
lemma resolve_self : ∀ bindable constBindable isConst : Bool,
    resolve true bindable constBindable isConst =
      some (if !isConst && bindable then .lvalue else .copy) := by
  decide

end Overload

/-! ### The class and its fields -/

inductive CallableType (τ : Type) | self | other (T : τ)
  deriving DecidableEq, Repr

/-- What `object_` points to. -/
inductive Address (Obj : Type) | object (o : Obj) | ref (r : ℕ)
  deriving DecidableEq, Repr

inductive Thunk (τ : Type)
  | invokeFunctionPointer
  | invokeMutableCallable (F : CallableType τ)
  | invokeConstCallable (F : CallableType τ)
  | invokeMutableMember (Object Member : τ)
  | invokeConstMember (Object Member : τ)
  deriving DecidableEq, Repr

def kAuxStorageSize : ℕ := 16

/-- A class `function_ref<Sig>` in a program. `Obj` are the callables and objects of the program,
`Member` its member pointers, which are not null, and `Fn` its functions. -/
structure RefEnv (τ Obj Member Fn : Type) where
  program : Program
  sig : Sig
  typeOf : Obj → τ
  /-- `callable_lvalue_bindable_v` of `F&`, and of `const F&`. -/
  bindable : τ → Bool → Bool
  /-- `member_bindable_v` of `Object&` or `const Object&`, and a type of member pointers. -/
  memberBindable : τ → τ → Bool → Bool
  memberType : Member → τ
  sizeOf : τ → ℕ
  /-- `bit_cast` to bytes and back. -/
  encode : Member → List UInt8
  decode : τ → List UInt8 → Option Member
  length_encode : ∀ m, (encode m).length = sizeOf (memberType m)
  decode_encode : ∀ m, decode (memberType m) (encode m) = some m

structure Ref (τ Obj Fn : Type) where
  object : Option (Address Obj)
  functionPointer : Option Fn
  mutableThunk : Option (Thunk τ)
  constThunk : Option (Thunk τ)
  aux : List UInt8

variable {τ Obj Member Fn : Type}

namespace Ref

/-- The fields after `clear_`, and of a new `function_ref`. -/
def clear : Ref τ Obj Fn := ⟨none, none, none, none, List.replicate kAuxStorageSize 0⟩

def hasValue (r : Ref τ Obj Fn) : Bool := r.mutableThunk.isSome || r.constThunk.isSome

end Ref

/-- The loop of `store_aux`, which writes the bytes over the front of the array. -/
def copyBytes : List UInt8 → List UInt8 → List UInt8
  | b :: encoded, _ :: aux => b :: copyBytes encoded aux
  | _, aux => aux

variable (E : RefEnv τ Obj Member Fn)

def storeAux (value : Member) : List UInt8 :=
  copyBytes (E.encode value) (List.replicate kAuxStorageSize 0)

def loadAux (T : τ) (aux : List UInt8) : Option Member := E.decode T (aux.take (E.sizeOf T))

section Bind

/-- `bind(pointer_type)`. -/
def bindPointer (pointer : Option Fn) : Ref τ Obj Fn :=
  match pointer with
  | none => .clear
  | some f =>
    { (.clear : Ref τ Obj Fn) with
      functionPointer := some f
      mutableThunk := some .invokeFunctionPointer
      constThunk := some .invokeFunctionPointer }

/-- `bind(F&)` and `bind(const F&)`. -/
def bindCallable (a : Address Obj) (F : CallableType τ) (isConst : Bool) : Ref τ Obj Fn :=
  if isConst then
    { (.clear : Ref τ Obj Fn) with object := some a, constThunk := some (.invokeConstCallable F) }
  else { (.clear : Ref τ Obj Fn) with object := some a, mutableThunk := some (.invokeMutableCallable F) }

/-- `bind_member(Object&, Member)` and `bind_member(const Object&, Member)`. -/
def bindMember (o : Obj) (m : Member) (isConst : Bool) : Ref τ Obj Fn :=
  if isConst then
    { (.clear : Ref τ Obj Fn) with
      object := some (.object o)
      aux := storeAux E m
      constThunk := some (.invokeConstMember (E.typeOf o) (E.memberType m)) }
  else
    { (.clear : Ref τ Obj Fn) with
      object := some (.object o)
      aux := storeAux E m
      mutableThunk := some (.invokeMutableMember (E.typeOf o) (E.memberType m)) }

end Bind

/-- The `function_ref`s of a program. -/
abbrev Refs (τ Obj Fn : Type) := ℕ → Option (Ref τ Obj Fn)

/-- What a `function_ref` is constructed or assigned from. A callable, an object or a `function_ref`
is an lvalue, constant or not; `expiring` is a `function_ref` that is moved. -/
inductive Source (Obj Member Fn : Type)
  | null
  | pointer (p : Option Fn)
  | callable (o : Obj) (isConst : Bool)
  | member (o : Obj) (isConst : Bool) (m : Member)
  | ref (r : ℕ) (isConst : Bool)
  | expiring (r : ℕ)

/-- `operator()` takes rvalues of its own parameter types, and its call is an expression of the
declared return type unless that is a qualified value of no class. It is never `noexcept`. -/
def selfBindable : Bool :=
  !E.sig.isNoexcept && forwardable E.program E.sig && decide (E.sig.ret.called = E.sig.ret)

/-- What the overload that was chosen leaves in the fields; the deleted ones do not compile. -/
def chosen (o : Option Overload) (copied : Option (Ref τ Obj Fn)) (a : Address Obj)
    (F : CallableType τ) : Option (Ref τ Obj Fn) :=
  match o with
  | some .copy => copied
  | some .lvalue => some (bindCallable a F false)
  | some .constLvalue => some (bindCallable a F true)
  | _ => none

/-- The fields after construction or assignment from a source. -/
def fields (M : Refs τ Obj Fn) : Source Obj Member Fn → Option (Ref τ Obj Fn)
  | .null => some .clear
  | .pointer p => some (bindPointer p)
  | .callable o isConst =>
    let T := E.typeOf o
    chosen (Overload.resolve false (E.bindable T false) (E.bindable T true) isConst) none
      (.object o) (.other T)
  | .member o isConst m =>
    let T := E.typeOf o
    let N := E.memberType m
    if kAuxStorageSize < E.sizeOf N then none
    else if !isConst && E.memberBindable T N false then some (bindMember E o m false)
    else if E.memberBindable T N true then some (bindMember E o m true) else none
  | .ref r isConst =>
    chosen (Overload.resolve true (selfBindable E) (selfBindable E) isConst) (M r) (.ref r) .self
  | .expiring r => M r

inductive Op (Obj Member Fn : Type)
  | make (r : ℕ) (src : Source Obj Member Fn)
  | assign (r : ℕ) (src : Source Obj Member Fn)
  | reset (r : ℕ)
  | swap (r q : ℕ)

/-- The `function_ref` a source names exists. -/
def sourceExists (M : Refs τ Obj Fn) : Source Obj Member Fn → Bool
  | .ref r _ | .expiring r => (M r).isSome
  | _ => true

def assignable : Source Obj Member Fn → Bool
  | .member .. => false
  | _ => true

/-- An operation, where it compiles and the `function_ref`s it names exist. -/
def step (M : Refs τ Obj Fn) : Op Obj Member Fn → Option (Refs τ Obj Fn)
  | .make r src => do
    guard ((M r).isNone ∧ sourceExists M src)
    let f ← fields E M src
    return Function.update M r (some f)
  | .assign r src => do
    guard ((M r).isSome ∧ sourceExists M src ∧ assignable src)
    let f ← fields E M src
    return Function.update M r (some f)
  | .reset r => do
    guard (M r).isSome
    return Function.update M r (some .clear)
  | .swap r q => do
    let f ← M r
    let g ← M q
    return Function.update (Function.update M r (some g)) q (some f)

def run (M : Refs τ Obj Fn) (ops : List (Op Obj Member Fn)) : Option (Refs τ Obj Fn) :=
  ops.foldlM (step E) M

def system : Runs.System (Refs τ Obj Fn) (Op Obj Member Fn) where
  init M := M = fun _ => none
  step M op M' := step E M op = some M'

/-! ### Calls -/

/-- What a call runs in the end. -/
inductive Target (Obj Member Fn : Type)
  | function (f : Fn)
  | callable (o : Obj) (isConst : Bool)
  | member (o : Obj) (m : Member) (isConst : Bool)

/-- What the thunk of a `function_ref` does: it runs a target, or calls another `function_ref`. -/
inductive Hop (Obj Member Fn : Type)
  | empty
  | target (t : Target Obj Member Fn)
  | through (r : ℕ)

variable [DecidableEq τ]

/-- `invoke_mutable_callable` and `invoke_const_callable`. -/
def invokeCallable (F : CallableType τ) (isConst : Bool) (self : Ref τ Obj Fn) :
    Option (Hop Obj Member Fn) :=
  match F, self.object with
  | .self, some (.ref r) => some (.through r)
  | .other T, some (.object o) =>
    if E.typeOf o = T then some (.target (.callable o isConst)) else none
  | _, _ => none

/-- `invoke_mutable_member` and `invoke_const_member`. -/
def invokeMember (Object N : τ) (isConst : Bool) (self : Ref τ Obj Fn) :
    Option (Hop Obj Member Fn) := do
  let m ← loadAux E N self.aux
  match self.object with
  | some (.object o) =>
    if E.typeOf o = Object then return .target (.member o m isConst) else none
  | _ => none

def invoke (self : Ref τ Obj Fn) : Thunk τ → Option (Hop Obj Member Fn)
  | .invokeFunctionPointer => self.functionPointer.map fun f => .target (.function f)
  | .invokeMutableCallable F => invokeCallable E F false self
  | .invokeConstCallable F => invokeCallable E F true self
  | .invokeMutableMember O N => invokeMember E O N false self
  | .invokeConstMember O N => invokeMember E O N true self

/-- `call` and `try_call`: the mutable thunk comes first. -/
def hop (self : Ref τ Obj Fn) : Option (Hop Obj Member Fn) :=
  match self.mutableThunk, self.constThunk with
  | some thunk, _ | none, some thunk => invoke E self thunk
  | none, none => some .empty

/-- A call of a `function_ref` ends in a target, or finds an empty one (`none`). -/
inductive Calls (M : Refs τ Obj Fn) : ℕ → Option (Target Obj Member Fn) → Prop
  | empty {r : ℕ} {f : Ref τ Obj Fn} (hr : M r = some f) (hf : hop E f = some .empty) :
      Calls M r none
  | target {r : ℕ} {f : Ref τ Obj Fn} {t : Target Obj Member Fn} (hr : M r = some f)
      (hf : hop E f = some (.target t)) : Calls M r (some t)
  | through {r q : ℕ} {f : Ref τ Obj Fn} {c : Option (Target Obj Member Fn)} (hr : M r = some f)
      (hf : hop E f = some (.through q)) (hq : Calls M q c) : Calls M r c

end FunctionWrapper.FunctionRef
