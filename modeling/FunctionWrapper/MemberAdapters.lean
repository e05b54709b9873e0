import FunctionWrapper.DeducedSignatures
import FunctionWrapper.RefTargets
import FunctionWrapper.Storage

/-!
`member_ref`: an object of the program, and a pointer to one of its members.

The adapter that results is stored by value, and calls the member of an object that it does not own.
Which signatures it can be called as depends on the object and the member alone, since its call
operator is `const`. A `function_ref` takes an object and a member directly, and also by a constant
reference to the object.
-/

namespace FunctionWrapper.MemberAdapters

open FunctionWrapper.Types FunctionWrapper.Traits FunctionWrapper.Signatures
open FunctionWrapper.Callables FunctionWrapper.Storage FunctionWrapper.CallAcceptance
open FunctionWrapper.ExactMatch FunctionWrapper.DeducedSignatures FunctionWrapper.FunctionRef

structure ObjectType where
  cv : CV
  ty : Ty
  deriving DecidableEq, Repr

def ObjectType.const (o : ObjectType) : ObjectType := ⟨⟨true, o.cv.isVolatile⟩, o.ty⟩

/-- The types of pointers to members: `R (C::*)(Args...)` with what follows the parameters, and
`T C::*`. -/
inductive MemberType
  | function (C : Ty) (q : Qualifiers) (s : Sig)
  | object (C : Ty) (cv : CV) (T : Ty)
  deriving DecidableEq, Repr

/-- What the compiler knows about members and calls of them. -/
structure Members extends Program where
  /-- The conversion throws nothing. -/
  nothrowConverts : QType → QType → Bool
  /-- The object that `get()` of a `reference_wrapper` or the unary `*` of another class refers to,
  and whether that throws nothing. -/
  refersTo : ObjectType → Option (ObjectType × Bool)

structure Invocable where
  result : QType
  nothrow : Bool
  deriving DecidableEq, Repr

def union (c d : CV) : CV := ⟨c.isConst || d.isConst, c.isVolatile || d.isVolatile⟩

/-- A function with the qualifiers can be called on an lvalue with the qualifiers `cv`. -/
def takesLvalue (q : Qualifiers) (cv : CV) : Bool :=
  cv.within ⟨q.isConst, q.isVolatile⟩ && decide (q.ref ≠ .rvalue)

variable (P : Members)

/-- The object whose member `std::invoke` takes, by its qualifiers: the object that is given, or the
one that it refers to. -/
def designated (C : Ty) (o : ObjectType) : Option (CV × Bool) :=
  if isBaseOf P.toProgram C o.ty then some (o.cv, true)
  else match o.ty with
    | .ptr cv T => if isBaseOf P.toProgram C T then some (cv, true) else none
    | _ => (P.refersTo o).bind fun (o', nothrow) =>
      if isBaseOf P.toProgram C o'.ty then some (o'.cv, nothrow) else none

/-- The initialization of the parameters throws nothing. -/
def nothrowArgs (s : Sig) (CallArgs : List QType) : Bool :=
  (CallArgs.zip s.args).all fun (c, a) => P.nothrowConverts c.addRvalueRef a

/-- `std::invoke` of a pointer to a member on an lvalue and arguments, where it is well formed. -/
def invokeMember (m : MemberType) (o : ObjectType) (CallArgs : List QType) : Option Invocable :=
  match m with
  | .function C q s =>
    match designated P C o with
    | none => none
    | some (cv, nothrow) =>
      if takesLvalue q cv && viable P.toProgram s CallArgs then
        some ⟨s.ret.called, nothrow && s.isNoexcept && nothrowArgs P s CallArgs⟩
      else none
  | .object C cv T =>
    match designated P C o with
    | none => none
    | some (d, nothrow) =>
      if CallArgs = [] then some ⟨⟨.lvalue, union d cv, T⟩, nothrow⟩ else none

/-- `is_exact_invocable_r_v`, and `is_exact_nothrow_invocable_r_v` for a signature that is
`noexcept`. -/
def exactly (s : Sig) (i : Option Invocable) : Bool :=
  i.any fun i => decide (i.result = s.ret) && (!s.isNoexcept || i.nothrow)

/-! ### Adapters -/

/-- `member_adapter::operator()`, which forwards what it deduces from the arguments. -/
def callOperator (m : MemberType) (o : ObjectType) (Args : List QType) : Option Invocable :=
  invokeMember P m o (Args.map QType.asArgument)

/-- Whether an adapter can be called exactly as a signature, in any category. -/
def adapterInvocable (m : MemberType) (o : ObjectType) (s : Sig) : Bool :=
  exactly s (callOperator P m o s.args)

/-- `member_bindable_v` of `function_ref<Sig>`. -/
def memberBindable (m : MemberType) (o : ObjectType) (s : Sig) : Bool :=
  exactly s (invokeMember P m o s.args)

/-- `member_adapter_signature_t`. -/
def memberAdapterSignature (o : ObjectType) : MemberType → Option Sig
  | .function _ q s => fnSig (.member q s)
  | .object _ cv T =>
    some ⟨⟨.lvalue, if o.cv.isConst then ⟨true, cv.isVolatile⟩ else cv, T⟩, [], true⟩

variable {P} {m : MemberType} {o : ObjectType} {s : Sig}

lemma zip_asArgument (Args l : List QType) :
    (Args.map QType.asArgument).zip l = (Args.zip l).map fun p => (p.1.asArgument, p.2) := by
  simp [List.zip_map_left, Prod.map]

lemma invokeMember_forwarded (Args : List QType) :
    invokeMember P m o (Args.map QType.asArgument) = invokeMember P m o Args := by
  cases m with
  | function C q s =>
    have hviable : viable P.toProgram s (Args.map QType.asArgument) =
        viable P.toProgram s Args := by
      simp [viable, zip_asArgument, Function.comp_def, addRvalueRef_asArgument]
    have hnothrow : nothrowArgs P s (Args.map QType.asArgument) = nothrowArgs P s Args := by
      simp [nothrowArgs, zip_asArgument, Function.comp_def, addRvalueRef_asArgument]
    rw [invokeMember, invokeMember, hviable, hnothrow]
  | object C cv T => simp [invokeMember]

lemma adapterInvocable_eq : adapterInvocable P m o s = memberBindable P m o s := by
  rw [adapterInvocable, callOperator, invokeMember_forwarded, memberBindable]

lemma exactly_iff {i : Option Invocable} : exactly s i = true ↔
    ∃ r, i = some r ∧ r.result = s.ret ∧ (s.isNoexcept = true → r.nothrow = true) := by
  cases hn : s.isNoexcept <;> simp [exactly, Option.any_eq_true, hn]

lemma adapterInvocable_function {C : Ty} {q : Qualifiers} {f : Sig} :
    adapterInvocable P (.function C q f) o s = true ↔
      ∃ cv nothrow, designated P C o = some (cv, nothrow) ∧ takesLvalue q cv = true ∧
        viable P.toProgram f s.args = true ∧ f.ret.called = s.ret ∧
        (s.isNoexcept = true →
          nothrow = true ∧ f.isNoexcept = true ∧ nothrowArgs P f s.args = true) := by
  rw [adapterInvocable_eq, memberBindable, exactly_iff, invokeMember]
  rcases designated P C o with _ | ⟨cv, nothrow⟩
  · simp
  · cases hq : takesLvalue q cv <;> cases hv : viable P.toProgram f s.args <;>
      simp [hq, and_assoc]

lemma adapterInvocable_object {C T : Ty} {cv : CV} :
    adapterInvocable P (.object C cv T) o s = true ↔
      ∃ d nothrow, designated P C o = some (d, nothrow) ∧ s.args = [] ∧
        ⟨.lvalue, union d cv, T⟩ = s.ret ∧ (s.isNoexcept = true → nothrow = true) := by
  rw [adapterInvocable_eq, memberBindable, exactly_iff, invokeMember]
  rcases designated P C o with _ | ⟨d, nothrow⟩
  · simp
  · by_cases hargs : s.args = []
    · simp only [hargs, if_true, Option.some.injEq, exists_eq_left', Prod.mk.injEq, true_and]
      exact ⟨fun h => ⟨d, nothrow, ⟨rfl, rfl⟩, h⟩, by rintro ⟨_, _, ⟨rfl, rfl⟩, h⟩; exact h⟩
    · simp [hargs]

variable (P) in
/-- `function_wrapper w = member_ref(object, member)`, with a class that is deduced: the only
declared signature is the one that is deduced from the adapter. -/
def deducedAccepts (m : MemberType) (o : ObjectType) : Bool :=
  (memberAdapterSignature o m).any (adapterInvocable P m o)

lemma viable_own {f : Sig} : viable P.toProgram f f.args = forwardable P.toProgram f := by
  have hzip : f.args.zip f.args = f.args.map fun a => (a, a) := by
    induction f.args with
    | nil => rfl
    | cons a l ih => simp [ih]
  simp [viable, forwardable, Sig.arity, hzip, Function.comp_def]

/-- **When the class that is deduced for a member function accepts it.** -/
theorem deducedAccepts_function {C : Ty} {q : Qualifiers} {f : Sig} :
    deducedAccepts P (.function C q f) o = true ↔
      q.isVolatile = false ∧ ∃ cv nothrow, designated P C o = some (cv, nothrow) ∧
        takesLvalue q cv = true ∧ forwardable P.toProgram f = true ∧ f.ret.called = f.ret ∧
        (f.isNoexcept = true → nothrow = true ∧ nothrowArgs P f f.args = true) := by
  cases hq : q.isVolatile with
  | true => simp [deducedAccepts, memberAdapterSignature, fnSig, hq]
  | false =>
    have hsig : memberAdapterSignature o (.function C q f) = some f := by
      simp [memberAdapterSignature, fnSig, hq]
    rw [deducedAccepts, hsig, Option.any_some, adapterInvocable_function, viable_own]
    simp +contextual

/-- **When the class that is deduced for a member object accepts it.** -/
theorem deducedAccepts_object {C T : Ty} {cv : CV} : deducedAccepts P (.object C cv T) o = true ↔
    ∃ d, designated P C o = some (d, true) ∧
      (d.isConst || cv.isConst) = (o.cv.isConst || cv.isConst) ∧
      (d.isVolatile = true → cv.isVolatile = true) := by
  have hret : ∀ d : CV, (⟨.lvalue, union d cv, T⟩ : QType) =
        ⟨.lvalue, if o.cv.isConst then ⟨true, cv.isVolatile⟩ else cv, T⟩ ↔
      (d.isConst || cv.isConst) = (o.cv.isConst || cv.isConst) ∧
        (d.isVolatile = true → cv.isVolatile = true) := by
    rintro ⟨dc, dv⟩
    obtain ⟨c, v⟩ := cv
    cases ho : o.cv.isConst <;> cases dc <;> cases dv <;> cases c <;> cases v <;> simp [union]
  rw [deducedAccepts, memberAdapterSignature, Option.any_some, adapterInvocable_object]
  simp only [hret, forall_const, true_and]
  constructor
  · rintro ⟨d, nothrow, hd, hc, hn⟩
    exact ⟨d, hn ▸ hd, hc⟩
  · rintro ⟨d, hd, hc⟩
    exact ⟨d, true, hd, hc, rfl⟩

/-- An adapter holds an object by its address, and a pointer to a member. -/
structure MemberAdapter (Obj Member : Type) where
  object : Obj
  member : Member
  deriving DecidableEq, Repr

/-- A class of owning wrappers and a class of `function_ref`s in a program, with the adapters for
its objects and members. `isConst` says that `Object` is `const`. -/
structure Adapters {τ Val Fn σ Obj Member : Type} (P : Members) (E : Env τ Val Fn)
    (R : RefEnv σ Obj Member Fn) where
  objectType : σ → ObjectType
  memberType : σ → MemberType
  /-- `member_adapter<Object, Member>`. -/
  type : σ → Bool → σ → τ
  value : MemberAdapter Obj Member → Val
  invocable : ∀ T isConst N cat s, E.exactInvocable (type T isConst N) cat s = adapterInvocable P
    (memberType N) (if isConst then (objectType T).const else objectType T) s
  bindable : ∀ T N isConst, R.memberBindable T N isConst = MemberAdapters.memberBindable P
    (memberType N) (if isConst then (objectType T).const else objectType T) R.sig

namespace Adapters

variable {τ Val Fn σ Obj Member : Type} {E : Env τ Val Fn} {R : RefEnv σ Obj Member Fn}
variable (A : Adapters P E R)

/-- `member_ref(object, member)`. -/
def memberRef (o : Obj) (isConst : Bool) (n : Member) : Object τ Val :=
  ⟨A.type (R.typeOf o) isConst (R.memberType n), A.value ⟨o, n⟩⟩

variable {A} {x : Obj} {n : Member} {isConst : Bool}

/-- An adapter is called alike in all categories, as what a `function_ref` binds. -/
lemma exactInvocable_eq (cat : Category) :
    E.exactInvocable (A.memberRef x isConst n).type cat R.sig =
      R.memberBindable (R.typeOf x) (R.memberType n) isConst := by
  rw [memberRef, A.invocable, adapterInvocable_eq, A.bindable]

lemma supports_iff : E.supportsSignature (A.memberRef x isConst n).type R.sig = true ↔
    R.memberBindable (R.typeOf x) (R.memberType n) isConst = true := by
  simp [Env.supportsSignature, Category.all, exactInvocable_eq]

/-- A `function_ref` takes an object and a member, if the pointer fits, where a wrapper takes the
adapter for the object or for the object as a constant. -/
theorem binds_iff {M : Refs σ Obj Fn} : (fields R M (.member x isConst n)).isSome = true ↔
    R.sizeOf (R.memberType n) ≤ kAuxStorageSize ∧
      (E.supportsSignature (A.memberRef x isConst n).type R.sig = true ∨
        E.supportsSignature (A.memberRef x true n).type R.sig = true) := by
  rw [supports_iff, supports_iff, fields]
  split
  · next h => simp [Nat.not_le.mpr h]
  · next h =>
    have hle : R.sizeOf (R.memberType n) ≤ kAuxStorageSize := Nat.le_of_not_lt h
    cases isConst <;> cases hb : R.memberBindable (R.typeOf x) (R.memberType n) false <;>
      cases hc : R.memberBindable (R.typeOf x) (R.memberType n) true <;> simp [hle]

lemma boundTarget_eq (h : E.supportsSignature (A.memberRef x isConst n).type R.sig = true) :
    RefViews.boundTarget R (.member x isConst n) = some (.member x n isConst) := by
  rw [supports_iff] at h
  cases isConst with
  | true => rfl
  | false => simp [RefViews.boundTarget, h]

end Adapters

end FunctionWrapper.MemberAdapters
