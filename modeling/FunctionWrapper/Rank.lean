import FunctionWrapper.Traits

/-!
The rank the library gives to an implicit conversion: lower is better, and
`conversionNotViable` stands for no conversion at all.
-/

namespace FunctionWrapper.Rank

open FunctionWrapper.Types FunctionWrapper.Traits

def conversionNotViable : ℕ := 1024

/-- A pointer to, or an array of, the character type. -/
def isCStringSource (T : QType) (CharT : Ty) : Bool :=
  match T.ty with
  | .ptr _ t => t = CharT
  | .array _ t => t = CharT
  | _ => false

def isCStringToStringView (Source Target : QType) : Bool :=
  match Target.removeCvref with
  | .basicStringView CharT _ => isCStringSource Source CharT
  | _ => false

def isCStringToString (Source Target : QType) : Bool :=
  match Target.removeCvref with
  | .basicString CharT _ _ => isCStringSource Source CharT
  | _ => false

variable (P : Program)

def isClassHierarchyConversion (Source Target : QType) : Bool :=
  Source.removeCvref.isClass && Target.removeCvref.isClass &&
    isBaseOf P Target.removeCvref Source.removeCvref

def isPointerHierarchyConversion (Source Target : QType) : Bool :=
  match Source.removeCvref, Target.removeCvref with
  | .ptr _ s, .ptr _ t => s.isClass && t.isClass && isBaseOf P t s
  | _, _ => false

def isIntegralPromotion (s t : Arith) : Bool :=
  s.isIntegral && t.isIntegral && decide (t = P.model.promote s)

/-- `implicit_conversion_rank` on two different arithmetic types. -/
def arithmeticRank (s t : Arith) : ℕ :=
  if s = .float ∧ t = .double then 1
  else if isIntegralPromotion P s t then 1
  else if s.isFloating && t.isIntegral then 6
  else if t = P.model.common s t then 2 else 6

/-- `implicit_conversion_rank<Source, Target>()`, a cascade of tests. -/
def implicitConversionRank (Source Target : QType) : ℕ :=
  if Source = Target then 0
  else if Source.removeCvref = Target.removeCvref then
    if !Target.isReference || Source.isLvalueReference == Target.isLvalueReference then 0 else 1
  else match Source.removeCvref, Target.removeCvref with
    | .arith s, .arith t => arithmeticRank P s t
    | _, _ =>
      if isCStringToStringView Source Target then 3
      else if isCStringToString Source Target then 4
      else if isClassHierarchyConversion P Source Target ||
          isPointerHierarchyConversion P Source Target then 3
      else if isConvertible P Source Target then 5 else conversionNotViable

end FunctionWrapper.Rank
