import Mathlib.Tactic.Common

/-!
The C++ types the overload selection looks at.

An unqualified type is a `Ty`; a parameter or argument type is a `QType`, an unqualified type
with its cv-qualifiers and its reference. The qualifiers of an array are those of its elements
and are kept once, outside, so that equality of representations is `std::is_same`.
-/

namespace FunctionWrapper.Types

inductive Arith
  | bool | char | schar | uchar | wchar | char8 | char16 | char32
  | short | ushort | int | uint | long | ulong | llong | ullong
  | float | double | ldouble
  deriving DecidableEq, Repr

def Arith.isFloating : Arith → Bool
  | .float | .double | .ldouble => true
  | _ => false

def Arith.isIntegral (a : Arith) : Bool := !a.isFloating

structure CV where
  isConst : Bool
  isVolatile : Bool
  deriving DecidableEq, Repr

def CV.none : CV := ⟨false, false⟩
def CV.const : CV := ⟨true, false⟩

/-- Every qualifier of `c` is one of `d`. -/
def CV.within (c d : CV) : Bool := (!c.isConst || d.isConst) && (!c.isVolatile || d.isVolatile)

/-- Unqualified types. Functions, enumerations, the classes and unions of the program and the
remaining types (member pointers) are named by numbers. -/
inductive Ty
  | void
  | nullptr
  | arith (a : Arith)
  | enum (id : ℕ)
  | cls (id : ℕ)
  | union (id : ℕ)
  | basicString (CharT : Ty) (traits alloc : ℕ)
  | basicStringView (CharT : Ty) (traits : ℕ)
  | ptr (cv : CV) (pointee : Ty)
  | array (extent : Option ℕ) (elem : Ty)
  | func (id : ℕ)
  | other (id : ℕ)
  deriving DecidableEq, Repr

inductive Ref | none | lvalue | rvalue
  deriving DecidableEq, Repr

/-- A possibly qualified, possibly reference type. -/
structure QType where
  ref : Ref
  cv : CV
  ty : Ty
  deriving DecidableEq, Repr

/-! ### Type traits that need no knowledge of the program -/

def Ty.isClass : Ty → Bool
  | .cls _ | .basicString .. | .basicStringView .. => true
  | _ => false

/-- A class type in the sense of the language. -/
def Ty.isClassOrUnion : Ty → Bool
  | .union _ => true
  | t => t.isClass

def Ty.isArithmetic : Ty → Bool
  | .arith _ => true
  | _ => false

/-- `std::decay_t` of a type without reference and qualifiers. -/
def Ty.decay : Ty → Ty
  | .array _ t => .ptr .none t
  | .func f => .ptr .none (.func f)
  | t => t

namespace QType

/-- `T&&`, by reference collapsing. -/
def addRvalueRef (T : QType) : QType :=
  { T with ref := match T.ref with
    | .lvalue => .lvalue
    | _ => .rvalue }

/-- The deduced argument type of an expression that is exactly a `T`: an lvalue for an lvalue
reference, an rvalue otherwise. -/
def asArgument (T : QType) : QType :=
  { T with ref := match T.ref with
    | .lvalue => .lvalue
    | _ => .none }

def isReference (T : QType) : Bool := T.ref ≠ .none
def isLvalueReference (T : QType) : Bool := T.ref = .lvalue

/-- The type of a call of a function that returns `T`: a value of no class type is unqualified. -/
def called (T : QType) : QType :=
  if T.isReference || T.ty.isClassOrUnion then T else { T with cv := .none }

/-- `std::remove_cvref_t`, the unqualified type. -/
def removeCvref (T : QType) : Ty := T.ty

/-- `std::decay_t`: the qualifiers of the elements of an array become those of the pointee. -/
def decay (T : QType) : Ty :=
  match T.ty with
  | .array _ t => .ptr T.cv t
  | t => t.decay

/-- `T` by value. -/
def val (t : Ty) : QType := ⟨.none, .none, t⟩
def lref (t : Ty) : QType := ⟨.lvalue, .none, t⟩
def rref (t : Ty) : QType := ⟨.rvalue, .none, t⟩

end QType

end FunctionWrapper.Types
