import FunctionWrapper.Types

/-!
What the compiler knows about types: conversions, casts, base classes and common types.

On arithmetic types these are the language's own rules. On the other types they depend on the
classes the translation unit declares, and a `Program` holds the answers.
-/

namespace FunctionWrapper.Traits

open FunctionWrapper.Types

/-- The sizes and signs an implementation gives to the integral types. -/
structure DataModel where
  bits : Arith → ℕ
  signed : Arith → Bool

/-- The integer conversion rank of a promoted type. -/
def rank : Arith → ℕ
  | .int | .uint => 1
  | .long | .ulong => 2
  | .llong | .ullong => 3
  | _ => 0

def toUnsigned : Arith → Arith
  | .int => .uint
  | .long => .ulong
  | .llong => .ullong
  | a => a

namespace DataModel

variable (D : DataModel)

/-- Every value of `a` is one of `b`. -/
def represents (b a : Arith) : Bool :=
  if D.signed a then D.signed b && decide (D.bits a ≤ D.bits b)
  else if D.signed b then decide (D.bits a < D.bits b) else decide (D.bits a ≤ D.bits b)

/-- The type of `+a`: the integral promotions, and nothing on the other types. -/
def promote (a : Arith) : Arith :=
  match a with
  | .bool => .int
  | .char | .schar | .uchar | .short | .ushort => if D.represents .int a then .int else .uint
  | .wchar | .char8 | .char16 | .char32 =>
    ([.int, .uint, .long, .ulong, .llong, .ullong].find? (D.represents · a)).getD a
  | _ => a

/-- The usual arithmetic conversions of two integral types, after promotion. -/
def commonIntegral (a b : Arith) : Arith :=
  if a = b then a
  else if D.signed a = D.signed b then (if rank a < rank b then b else a)
  else
    let (u, s) := if D.signed a then (b, a) else (a, b)
    if rank s ≤ rank u then u else if D.represents s u then s else toUnsigned s

/-- `std::common_type_t` of two arithmetic types. -/
def common (a b : Arith) : Arith :=
  if a = b then a
  else if a = .ldouble ∨ b = .ldouble then .ldouble
  else if a = .double ∨ b = .double then .double
  else if a = .float ∨ b = .float then .float
  else D.commonIntegral (D.promote a) (D.promote b)

end DataModel

/-- The data model of 64-bit Unix. -/
def lp64 : DataModel where
  bits
    | .bool | .char | .schar | .uchar | .char8 => 8
    | .char16 | .short | .ushort => 16
    | .wchar | .char32 | .int | .uint | .float => 32
    | .long | .ulong | .llong | .ullong | .double => 64
    | .ldouble => 80
  signed
    | .char | .schar | .wchar | .short | .int | .long | .llong | .float | .double | .ldouble => true
    | _ => false

/-! ### Programs -/

/-- The type facts of a translation unit that the language alone does not fix. `converts` and
`casts` are read only where one of the two types is not arithmetic. -/
structure Program where
  model : DataModel
  /-- `derives D B`: the class `B` is a proper base of the class `D`. -/
  derives : Ty → Ty → Bool
  converts : QType → QType → Bool
  casts : QType → QType → Bool
  /-- `std::common_type` of two decayed types, not both arithmetic. -/
  commonType : Ty → Ty → Option Ty
  /-- The types an unscoped enumeration is promoted to; a scoped one has none. -/
  enumPromotions : ℕ → List Arith

/-- A program on 64-bit Unix that converts between arithmetic types only. -/
def arithmeticOnly : Program where
  model := lp64
  derives _ _ := false
  converts _ _ := false
  casts _ _ := false
  commonType _ _ := none
  enumPromotions _ := []

/-- A program with one class, whose objects are copied and converted to nothing else. -/
def valueClass : Program :=
  { arithmeticOnly with
    converts := fun From To => decide (From.ty = .cls 0 ∧ To = .val (.cls 0))
    casts := fun From To => decide (From.ty = .cls 0 ∧ To = .val (.cls 0))
    commonType := fun s t => if s = t then some s else none }

variable (P : Program)

/-- `std::is_base_of_v` without qualifiers: a class is a base of itself. -/
def isBaseOf (Base Derived : Ty) : Bool :=
  Base.isClass && Derived.isClass && (decide (Base = Derived) || P.derives Derived Base)

/-- Whether an expression of arithmetic type initializes a parameter of arithmetic type: a
reference binds to an object of its own type and qualification, and otherwise to a temporary,
which only `const T&` and `T&&` accept. -/
def arithmeticBinds (From To : QType) : Bool :=
  match To.ref with
  | .none => true
  | .lvalue =>
    (From.isLvalueReference && decide (From.ty = To.ty) && From.cv.within To.cv) ||
      (decide (To.cv = .const) && (decide (From.ty ≠ To.ty) || From.cv.within To.cv))
  | .rvalue =>
    decide (From.ty ≠ To.ty) || (!From.isLvalueReference && From.cv.within To.cv)

/-- `std::is_convertible_v<From, To>`. -/
def isConvertible (From To : QType) : Bool :=
  if From.ty.isArithmetic && To.ty.isArithmetic then arithmeticBinds From To
  else P.converts From To

/-- Whether `static_cast<To>` of a `From` is well formed. On arithmetic types the cast adds one
thing to the implicit conversions: an lvalue may be cast to an rvalue reference. -/
def isStaticCastable (From To : QType) : Bool :=
  if From.ty.isArithmetic && To.ty.isArithmetic then
    arithmeticBinds From To ||
      (decide (To.ref = .rvalue) && decide (From.ty = To.ty) && From.cv.within To.cv)
  else P.casts From To

/-- `std::common_type` of two types, which decays both. -/
def commonType₂ (s t : Ty) : Option Ty :=
  match s.decay, t.decay with
  | .arith a, .arith b => some (.arith (P.model.common a b))
  | s', t' => P.commonType s' t'

/-- `std::common_type_t<Ts...>`, ill-formed (`none`) where there is no common type. -/
def commonType : List Ty → Option Ty
  | [] => none
  | [t] => commonType₂ P t t
  | s :: t :: ts => (commonType₂ P s t).bind fun c => ts.foldlM (commonType₂ P) c

end FunctionWrapper.Traits
