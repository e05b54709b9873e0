import FunctionWrapper.Selector

/-!
The documented order of conversions, and the ranks the library gives.

The Dispatch Policy table of the documentation has seven rows. The cascade that computes the ranks
treats some conversions of one row apart, so that the sixteen kinds of conversion below are what
both a row and a rank depend on.
-/

namespace FunctionWrapper.ConversionTable

open FunctionWrapper.Types FunctionWrapper.Traits FunctionWrapper.Rank FunctionWrapper.Signatures

/-- The kinds of implicit conversion. -/
inductive Conversion
  /-- The same type, or a value of the same type. -/
  | exact
  /-- An array or a function to the pointer it decays to. -/
  | decayed
  /-- A reference of the same category to the same type, less or otherwise qualified. -/
  | sameReference
  /-- An lvalue reference to the same type, from an rvalue. -/
  | crossReference
  /-- A pointer to a more qualified type, from a pointer or an array. -/
  | qualification
  /-- A pointer to a more qualified class, from a pointer. -/
  | classQualification
  | promotion
  | enumPromotion
  /-- An arithmetic conversion to the common type of the two. -/
  | commonArithmetic
  /-- Another arithmetic conversion. -/
  | narrowing
  | enumArithmetic
  | stringView
  | string
  | hierarchy
  /-- An array of a class to a pointer to a base. -/
  | arrayHierarchy
  | userDefined
  deriving DecidableEq, Repr

namespace Conversion

/-- The row of the table: 1 identical types after decay, 2 reference or qualification, 3 promotions,
4 other arithmetic conversions, 5 C strings, 6 hierarchies, 7 user-defined conversions. -/
def row : Conversion → ℕ
  | .exact | .decayed => 1
  | .sameReference | .crossReference | .qualification | .classQualification => 2
  | .promotion | .enumPromotion => 3
  | .commonArithmetic | .narrowing | .enumArithmetic => 4
  | .stringView | .string => 5
  | .hierarchy | .arrayHierarchy => 6
  | .userDefined => 7

/-- The rank the cascade ends with. -/
def libraryRank : Conversion → ℕ
  | .exact | .sameReference => 0
  | .crossReference | .promotion => 1
  | .commonArithmetic => 2
  | .stringView | .hierarchy | .classQualification => 3
  | .string => 4
  | .decayed | .qualification | .enumPromotion | .enumArithmetic | .arrayHierarchy |
    .userDefined => 5
  | .narrowing => 6

/-- An earlier row without a lower rank. -/
def inverted : Conversion → Conversion → Bool
  | .exact, .sameReference | .crossReference, .promotion | .narrowing, .userDefined => true
  | .decayed, k => k.row ≠ 1
  | .qualification, .stringView | .qualification, .string | .qualification, .arrayHierarchy |
    .qualification, .userDefined => true
  | .classQualification, .stringView | .classQualification, .hierarchy => true
  | .stringView, .hierarchy | .string, .hierarchy => true
  | .enumPromotion, .enumArithmetic | .enumPromotion, .userDefined |
    .enumArithmetic, .userDefined => true
  | .arrayHierarchy, .userDefined => true
  | _, _ => false

/-- The same row with a higher rank. -/
def worse : Conversion → Conversion → Bool
  | .decayed, .exact | .narrowing, .commonArithmetic | .string, .stringView => true
  | .crossReference, .sameReference | .qualification, .sameReference |
    .qualification, .crossReference | .classQualification, .sameReference |
    .classQualification, .crossReference => true
  | _, _ => false

end Conversion

/-- The argument types that are told apart: pointers to classes, other pointers, and arrays with
functions. -/
inductive Form | arith | enum | classPtr | ptr | array | other
  deriving DecidableEq, Repr

def form : Ty → Form
  | .arith _ => .arith
  | .enum _ => .enum
  | .ptr _ s => if s.isClass then .classPtr else .ptr
  | .array .. | .func _ => .array
  | _ => .other

/-- The conversions an argument type of a form can have. -/
def Conversion.isFrom : Conversion → Form → Bool
  | .exact, _ | .sameReference, _ | .crossReference, _ | .userDefined, _ => true
  | .promotion, f | .commonArithmetic, f | .narrowing, f => f = .arith
  | .enumPromotion, f | .enumArithmetic, f => f = .enum
  | .decayed, f | .arrayHierarchy, f => f = .array
  | .qualification, f => f = .ptr || f = .array
  | .classQualification, f => f = .classPtr
  | .stringView, f | .string, f => f = .classPtr || f = .ptr || f = .array
  | .hierarchy, f => f = .classPtr || f = .other

/-- On conversions of one argument, the first table is what it says. -/
lemma inverted_iff : ∀ f (k₁ k₂ : Conversion), k₁.isFrom f = true → k₂.isFrom f = true →
    (k₁.inverted k₂ = true ↔ k₁.row < k₂.row ∧ k₂.libraryRank ≤ k₁.libraryRank) := by
  intro f k₁ k₂
  cases f <;> cases k₁ <;> cases k₂ <;> decide

lemma worse_iff : ∀ f (k₁ k₂ : Conversion), k₁.isFrom f = true → k₂.isFrom f = true →
    (k₁.worse k₂ = true ↔ k₁.row = k₂.row ∧ k₂.libraryRank < k₁.libraryRank) := by
  intro f k₁ k₂
  cases f <;> cases k₁ <;> cases k₂ <;> decide

/-! ### The kind of a conversion -/

def unqualified : Ty → Ty
  | .ptr _ t => .ptr .none (unqualified t)
  | .array n t => .array n (unqualified t)
  | t => t

variable (P : Program)

def promotes (s t : Arith) : Bool := (s = .float && t = .double) || isIntegralPromotion P s t

def arithmeticConversion (s t : Arith) : Conversion :=
  if promotes P s t then .promotion
  else if s.isFloating && t.isIntegral then .narrowing
  else if t = P.model.common s t then .commonArithmetic else .narrowing

/-- From an enumeration; a scoped one has no conversions. -/
def enumConversion (e : ℕ) (t : Arith) : Option Conversion :=
  if t ∈ P.enumPromotions e then some .enumPromotion
  else if P.enumPromotions e = [] then none else some .enumArithmetic

/-- Between pointers, from a pointer or from an array. -/
def pointerConversion (isPointer : Bool) (s t : Ty) : Option Conversion :=
  if unqualified s = unqualified t then
    some (if isPointer && s.isClass then .classQualification else .qualification)
  else if s.isClass && t.isClass && isBaseOf P t s then
    some (if isPointer then .hierarchy else .arrayHierarchy)
  else none

def isPointer : Ty → Bool
  | .ptr .. => true
  | _ => false

/-- Classes and unions, which may declare conversions. -/
def declaresConversions : Ty → Bool
  | .union _ => true
  | t => t.isClass

def otherConversion (S T : QType) : Option Conversion :=
  if isCStringToStringView S T then some .stringView
  else if isCStringToString S T then some .string
  else if isClassHierarchyConversion P S T then some .hierarchy
  else if declaresConversions S.ty || declaresConversions T.ty then some .userDefined
  else none

/-- The kind of an implicit conversion. Conversions that no row is about have none: boolean
conversions of pointers, conversions to `void*`, of null pointers, between member pointers. -/
def conversion (S T : QType) : Option Conversion :=
  if S = T then some .exact
  else if S.ty = T.ty then
    some (if !T.isReference then .exact
      else if S.isLvalueReference = T.isLvalueReference then .sameReference else .crossReference)
  else if S.decay = T.ty then some .decayed
  else match S.decay, T.ty with
    | .arith s, .arith t => some (arithmeticConversion P s t)
    | .enum e, .arith t => enumConversion P e t
    | .ptr _ s, .ptr _ t => pointerConversion P (isPointer S.ty) s t
    | _, _ => otherConversion P S T

variable {P} {S T : QType} {k : Conversion}

lemma form_of_decay (h : S.decay ≠ S.ty) : form S.ty = .array := by
  obtain ⟨r, c, t⟩ := S
  cases t <;> simp_all [QType.decay, Ty.decay, form]

lemma isClass_of_unqualified {s t : Ty} (h : unqualified s = unqualified t)
    (hs : s.isClass = true) : t = s := by
  cases s <;> cases t <;> simp_all [unqualified, Ty.isClass]

lemma rank_of_ne (hne : S.ty ≠ T.ty) (hnum : S.ty.isArithmetic = true → T.ty.isArithmetic = false)
    (hc : isConvertible P S T = true) : implicitConversionRank P S T =
      if isCStringToStringView S T then 3 else if isCStringToString S T then 4
      else if isClassHierarchyConversion P S T || isPointerHierarchyConversion P S T then 3
      else 5 := by
  have hne' : S ≠ T := fun e => hne (congrArg QType.ty e)
  rw [implicitConversionRank, if_neg hne', if_neg (show S.removeCvref ≠ T.removeCvref from hne), hc]
  split
  · next s t hs ht =>
    simp only [QType.removeCvref] at hs ht
    simp [hs, ht, Ty.isArithmetic] at hnum
  · rfl

lemma rank_of_not_class (hne : S.ty ≠ T.ty)
    (hnum : S.ty.isArithmetic = true → T.ty.isArithmetic = false) (hT : T.ty.isClass = false)
    (hc : isConvertible P S T = true) : implicitConversionRank P S T =
      if isPointerHierarchyConversion P S T then 3 else 5 := by
  have hview : isCStringToStringView S T = false := by
    unfold isCStringToStringView QType.removeCvref
    cases ht : T.ty <;> simp_all [Ty.isClass]
  have hstring : isCStringToString S T = false := by
    unfold isCStringToString QType.removeCvref
    cases ht : T.ty <;> simp_all [Ty.isClass]
  have hhier : isClassHierarchyConversion P S T = false := by
    simp [isClassHierarchyConversion, QType.removeCvref, hT]
  rw [rank_of_ne hne hnum hc, hview, hstring, hhier]
  rfl

lemma ty_of_decay_arith {s : Arith} (h : S.decay = .arith s) : S.ty = .arith s := by
  obtain ⟨r, c, t⟩ := S
  cases t <;> simp_all [QType.decay, Ty.decay]

lemma ty_of_decay_enum {e : ℕ} (h : S.decay = .enum e) : S.ty = .enum e := by
  obtain ⟨r, c, t⟩ := S
  cases t <;> simp_all [QType.decay, Ty.decay]

lemma arithmeticRank_eq (s t : Arith) :
    arithmeticRank P s t = (arithmeticConversion P s t).libraryRank ∧
      (arithmeticConversion P s t).isFrom .arith = true := by
  unfold arithmeticRank arithmeticConversion promotes
  by_cases h1 : s = .float ∧ t = .double
  · simp [h1, Conversion.libraryRank, Conversion.isFrom]
  · have hfloat : (decide (s = .float) && decide (t = .double)) = false := by simpa using h1
    rw [if_neg h1, hfloat, Bool.false_or]
    split
    · exact ⟨rfl, rfl⟩
    · split
      · exact ⟨rfl, rfl⟩
      · split <;> exact ⟨rfl, rfl⟩

lemma rank_arithmetic {s t : Arith} (hs : S.decay = .arith s) (ht : T.ty = .arith t)
    (hne : S.ty ≠ T.ty) :
    implicitConversionRank P S T = (arithmeticConversion P s t).libraryRank ∧
      (arithmeticConversion P s t).isFrom (form S.ty) = true := by
  have hS := ty_of_decay_arith hs
  have hne' : S ≠ T := fun e => hne (congrArg QType.ty e)
  have hrank : implicitConversionRank P S T = arithmeticRank P s t := by
    rw [implicitConversionRank, if_neg hne', if_neg (show S.removeCvref ≠ T.removeCvref from hne)]
    simp [QType.removeCvref, hS, ht]
  rw [hrank, hS]
  exact arithmeticRank_eq s t

lemma not_pointerHierarchy (h : isPointer S.ty = false) :
    isPointerHierarchyConversion P S T = false := by
  unfold isPointerHierarchyConversion QType.removeCvref
  cases hS : S.ty <;> simp_all [isPointer]

lemma rank_enum {e : ℕ} {t : Arith} (hs : S.decay = .enum e) (ht : T.ty = .arith t)
    (hne : S.ty ≠ T.ty) (hc : isConvertible P S T = true) (hk : enumConversion P e t = some k) :
    implicitConversionRank P S T = k.libraryRank ∧ k.isFrom (form S.ty) = true := by
  have hS := ty_of_decay_enum hs
  rw [rank_of_not_class hne (fun h => by simp [hS, Ty.isArithmetic] at h) (by simp [ht, Ty.isClass])
    hc, not_pointerHierarchy (by simp [hS, isPointer]), hS]
  unfold enumConversion at hk
  split at hk
  · obtain rfl := Option.some.inj hk
    exact ⟨rfl, rfl⟩
  · split at hk
    · cases hk
    · obtain rfl := Option.some.inj hk
      exact ⟨rfl, rfl⟩

lemma rank_pointer {c d : CV} {s t : Ty} (hs : S.decay = .ptr c s) (ht : T.ty = .ptr d t)
    (hne : S.ty ≠ T.ty) (hc : isConvertible P S T = true)
    (hk : pointerConversion P (isPointer S.ty) s t = some k) :
    implicitConversionRank P S T = k.libraryRank ∧ k.isFrom (form S.ty) = true := by
  have hrank := rank_of_not_class hne (fun _ => by simp [ht, Ty.isArithmetic])
    (by simp [ht, Ty.isClass]) hc
  unfold pointerConversion at hk
  cases hp : isPointer S.ty with
  | true =>
    have hS : S.ty = .ptr c s := by
      obtain ⟨r, q, u⟩ := S
      cases u <;> simp_all [isPointer, QType.decay, Ty.decay]
    have hhier : isPointerHierarchyConversion P S T = (s.isClass && t.isClass && isBaseOf P t s) := by
      simp [isPointerHierarchyConversion, QType.removeCvref, hS, ht]
    rw [hp, Bool.true_and] at hk
    rw [hrank, hhier, hS]
    split at hk
    · next hsim =>
      obtain rfl := Option.some.inj hk
      cases hcls : s.isClass with
      | true =>
        obtain rfl := isClass_of_unqualified hsim hcls
        simp [hcls, isBaseOf, Conversion.libraryRank, Conversion.isFrom, form]
      | false => simp [hcls, Conversion.libraryRank, Conversion.isFrom, form]
    · split at hk
      · next hbase =>
        obtain rfl := Option.some.inj hk
        have hcls : s.isClass = true := by simp_all
        rw [if_pos hbase]
        simp [hcls, Conversion.libraryRank, Conversion.isFrom, form]
      · cases hk
  | false =>
    have hform : form S.ty = .array := by
      refine form_of_decay fun e => ?_
      rw [← e, hs] at hp
      cases hp
    rw [hp, Bool.false_and] at hk
    rw [hrank, not_pointerHierarchy hp, hform]
    split at hk
    · obtain rfl := Option.some.inj hk
      exact ⟨rfl, rfl⟩
    · split at hk
      · obtain rfl := Option.some.inj hk
        exact ⟨rfl, rfl⟩
      · cases hk

lemma decay_of_form (h : form S.ty = .array) :
    isPointer S.ty = false ∧ ∃ c t, S.decay = .ptr c t := by
  obtain ⟨r, q, u⟩ := S
  cases u with
  | array n t => exact ⟨rfl, q, t, rfl⟩
  | func f => exact ⟨rfl, .none, .func f, rfl⟩
  | ptr c s => cases hs : s.isClass <;> simp [hs, form] at h
  | _ => simp [form] at h

lemma rank_decayed (hne : S.ty ≠ T.ty) (h : S.decay = T.ty) (hc : isConvertible P S T = true) :
    implicitConversionRank P S T = 5 ∧ form S.ty = .array := by
  have hform : form S.ty = .array := form_of_decay fun e => hne (e.symm.trans h)
  obtain ⟨hpointer, c, t, hdecay⟩ := decay_of_form hform
  have hT : T.ty = .ptr c t := h.symm.trans hdecay
  rw [rank_of_not_class hne (fun _ => by simp [hT, Ty.isArithmetic]) (by simp [hT, Ty.isClass]) hc,
    not_pointerHierarchy hpointer]
  exact ⟨rfl, hform⟩

lemma form_of_cString {CharT : Ty} (h : isCStringSource S CharT = true) :
    form S.ty = .classPtr ∨ form S.ty = .ptr ∨ form S.ty = .array := by
  unfold isCStringSource at h
  cases hS : S.ty with
  | ptr c s => cases hs : s.isClass <;> simp [hs, form]
  | array n t => simp [form]
  | _ => simp [hS] at h

lemma rank_other (hne : S.ty ≠ T.ty) (hnum : S.ty.isArithmetic = true → T.ty.isArithmetic = false)
    (hptr : isPointerHierarchyConversion P S T = false) (hc : isConvertible P S T = true)
    (hk : otherConversion P S T = some k) :
    implicitConversionRank P S T = k.libraryRank ∧ k.isFrom (form S.ty) = true := by
  rw [rank_of_ne hne hnum hc, hptr, Bool.or_false]
  unfold otherConversion at hk
  split at hk
  · next hview =>
    obtain rfl := Option.some.inj hk
    refine ⟨by rw [if_pos hview]; rfl, ?_⟩
    unfold isCStringToStringView at hview
    split at hview
    · rcases form_of_cString hview with e | e | e <;> rw [e] <;> rfl
    · cases hview
  next hview =>
  split at hk
  · next hstring =>
    obtain rfl := Option.some.inj hk
    refine ⟨by rw [if_neg hview, if_pos hstring]; rfl, ?_⟩
    unfold isCStringToString at hstring
    split at hstring
    · rcases form_of_cString hstring with e | e | e <;> rw [e] <;> rfl
    · cases hstring
  next hstring =>
  rw [if_neg hview, if_neg hstring]
  split at hk
  · next hhier =>
    obtain rfl := Option.some.inj hk
    refine ⟨by rw [if_pos hhier]; rfl, ?_⟩
    have hclass : S.ty.isClass = true := by
      simp only [isClassHierarchyConversion, Bool.and_eq_true] at hhier
      exact hhier.1.1
    cases hS : S.ty <;> simp_all [Ty.isClass, form, Conversion.isFrom]
  next hhier =>
  rw [if_neg hhier]
  split at hk
  · obtain rfl := Option.some.inj hk
    exact ⟨rfl, rfl⟩
  · cases hk

lemma rank_same (hne : S ≠ T) (h : S.ty = T.ty)
    (hk : (if !T.isReference then Conversion.exact
      else if S.isLvalueReference = T.isLvalueReference then .sameReference
      else .crossReference) = k) :
    implicitConversionRank P S T = k.libraryRank ∧ k.isFrom (form S.ty) = true := by
  subst hk
  rw [implicitConversionRank, if_neg hne, if_pos (show S.removeCvref = T.removeCvref from h)]
  cases T.isReference <;> cases S.isLvalueReference <;> cases T.isLvalueReference <;>
    exact ⟨rfl, rfl⟩

/-- **Kinds determine ranks**, and the forms of the arguments they come from. -/
theorem rank_of_conversion (hc : isConvertible P S T = true) (hk : conversion P S T = some k) :
    implicitConversionRank P S T = k.libraryRank ∧ k.isFrom (form S.ty) = true := by
  unfold conversion at hk
  split at hk
  · next e =>
    obtain rfl := Option.some.inj hk
    simp [implicitConversionRank, e, Conversion.libraryRank, Conversion.isFrom]
  next hne =>
  split at hk
  · next e => exact rank_same hne e (Option.some.inj hk)
  next hty =>
  split at hk
  · next hdecay =>
    obtain rfl := Option.some.inj hk
    obtain ⟨hrank, hform⟩ := rank_decayed hty hdecay hc
    rw [hrank, hform]
    exact ⟨rfl, rfl⟩
  split at hk
  · next s t hs ht => exact Option.some.inj hk ▸ rank_arithmetic hs ht hty
  · next e t hs ht => exact rank_enum hs ht hty hc hk
  · next c s d t hs ht => exact rank_pointer hs ht hty hc hk
  · next hnum henum hptr =>
    refine rank_other hty (fun hs => ?_) ?_ hc hk
    · cases hS : S.ty with
      | arith s =>
        have hs' : S.decay = .arith s := by simp [QType.decay, hS, Ty.decay]
        cases hT : T.ty with
        | arith t => exact absurd hT (hnum s t hs')
        | _ => rfl
      | _ => simp [hS, Ty.isArithmetic] at hs
    · unfold isPointerHierarchyConversion QType.removeCvref
      cases hS : S.ty with
      | ptr c s =>
        have hs' : S.decay = .ptr c s := by simp [QType.decay, hS, Ty.decay]
        cases hT : T.ty with
        | ptr d t => exact absurd hT (hptr c s d t hs')
        | _ => rfl
      | _ => rfl

/-! ### The documented order -/

variable (P)

def category (S T : QType) : Option ℕ := (conversion P S T).map Conversion.row

def RanksFollow (S T₁ T₂ : QType) : Prop :=
  ∀ r₁ r₂, category P S T₁ = some r₁ → category P S T₂ = some r₂ → r₁ < r₂ →
    implicitConversionRank P S T₁ < implicitConversionRank P S T₂

/-- The kinds of the conversions of one argument to two parameters are in a relation. -/
def Related (rel : Conversion → Conversion → Bool) (S T₁ T₂ : QType) : Prop :=
  ∃ k₁ k₂, conversion P S T₁ = some k₁ ∧ conversion P S T₂ = some k₂ ∧ rel k₁ k₂ = true

/-- The arguments of a call, each with its parameters in two signatures. -/
def positions (X Y : Sig) (CallArgs : List QType) : List (QType × QType × QType) :=
  (CallArgs.zip (X.args.zip Y.args)).map fun p => (p.1.addRvalueRef, p.2)

/-- The categories of the first signature are nowhere later and somewhere earlier. -/
structure Earlier (X Y : Sig) (CallArgs : List QType) : Prop where
  nowhereLater : ∀ p ∈ positions X Y CallArgs, ∃ r₁ r₂, category P p.1 p.2.1 = some r₁ ∧
    category P p.1 p.2.2 = some r₂ ∧ r₁ ≤ r₂
  somewhereEarlier : ∃ p ∈ positions X Y CallArgs, ∃ r₁ r₂, category P p.1 p.2.1 = some r₁ ∧
    category P p.1 p.2.2 = some r₂ ∧ r₁ < r₂

/-- The ranks of a call follow the table, and so does the preference between two signatures. -/
structure FollowsTable (X Y : Sig) (CallArgs : List QType) : Prop where
  ranks : ∀ p ∈ positions X Y CallArgs, RanksFollow P p.1 p.2.1 p.2.2
  better : Earlier P X Y CallArgs → betterThan P X Y CallArgs = true

variable {P} {T₁ T₂ : QType} {X Y : Sig} {CallArgs : List QType}

lemma ranksFollow_iff (h₁ : isConvertible P S T₁ = true) (h₂ : isConvertible P S T₂ = true) :
    RanksFollow P S T₁ T₂ ↔ ¬ Related P Conversion.inverted S T₁ T₂ := by
  constructor
  · rintro h ⟨k₁, k₂, hk₁, hk₂, hrel⟩
    obtain ⟨hr₁, hf₁⟩ := rank_of_conversion h₁ hk₁
    obtain ⟨hr₂, hf₂⟩ := rank_of_conversion h₂ hk₂
    obtain ⟨hrow, hrank⟩ := (inverted_iff _ k₁ k₂ hf₁ hf₂).mp hrel
    have hlt := h k₁.row k₂.row (by simp [category, hk₁]) (by simp [category, hk₂]) hrow
    omega
  · intro h r₁ r₂ hc₁ hc₂ hlt
    obtain ⟨k₁, hk₁, rfl⟩ := Option.map_eq_some_iff.mp hc₁
    obtain ⟨k₂, hk₂, rfl⟩ := Option.map_eq_some_iff.mp hc₂
    obtain ⟨hr₁, hf₁⟩ := rank_of_conversion h₁ hk₁
    obtain ⟨hr₂, hf₂⟩ := rank_of_conversion h₂ hk₂
    by_contra hge
    exact h ⟨k₁, k₂, hk₁, hk₂, (inverted_iff _ k₁ k₂ hf₁ hf₂).mpr ⟨hlt, by omega⟩⟩

lemma rank_le_iff (h₁ : isConvertible P S T₁ = true) (h₂ : isConvertible P S T₂ = true) {r : ℕ}
    (hc₁ : category P S T₁ = some r) (hc₂ : category P S T₂ = some r) :
    implicitConversionRank P S T₁ ≤ implicitConversionRank P S T₂ ↔
      ¬ Related P Conversion.worse S T₁ T₂ := by
  obtain ⟨k₁, hk₁, rfl⟩ := Option.map_eq_some_iff.mp hc₁
  obtain ⟨k₂, hk₂, hrow⟩ := Option.map_eq_some_iff.mp hc₂
  obtain ⟨hr₁, hf₁⟩ := rank_of_conversion h₁ hk₁
  obtain ⟨hr₂, hf₂⟩ := rank_of_conversion h₂ hk₂
  rw [hr₁, hr₂, ← Nat.not_lt, not_iff_not]
  constructor
  · intro hlt
    exact ⟨k₁, k₂, hk₁, hk₂, (worse_iff _ k₁ k₂ hf₁ hf₂).mpr ⟨hrow.symm, hlt⟩⟩
  · rintro ⟨k, k', hk, hk', hrel⟩
    obtain rfl := Option.some.inj (hk₁.symm.trans hk)
    obtain rfl := Option.some.inj (hk₂.symm.trans hk')
    exact ((worse_iff _ k₁ k₂ hf₁ hf₂).mp hrel).2

lemma zip_zipWith {α β γ : Type*} (f : α → β → γ) (l : List α) (a b : List β) :
    (List.zipWith f l a).zip (List.zipWith f l b) =
      (l.zip (a.zip b)).map fun p => (f p.1 p.2.1, f p.1 p.2.2) := by
  induction l generalizing a b with
  | nil => simp
  | cons x l ih => cases a <;> cases b <;> simp [ih]

lemma betterThan_iff (hX : viable P X CallArgs = true) (hY : viable P Y CallArgs = true) :
    betterThan P X Y CallArgs = true ↔
      (∀ p ∈ positions X Y CallArgs,
        implicitConversionRank P p.1 p.2.1 ≤ implicitConversionRank P p.1 p.2.2) ∧
      ∃ p ∈ positions X Y CallArgs,
        implicitConversionRank P p.1 p.2.1 < implicitConversionRank P p.1 p.2.2 := by
  have hX' : X.arity = CallArgs.length := by simp_all [viable]
  have hY' : Y.arity = CallArgs.length := by simp_all [viable]
  have hzip : (ranks P X CallArgs).zip (ranks P Y CallArgs) = (positions X Y CallArgs).map fun p =>
      (implicitConversionRank P p.1 p.2.1, implicitConversionRank P p.1 p.2.2) := by
    rw [ranks, ranks, zip_zipWith, positions, List.map_map]
    rfl
  simp [betterThan, hX, hY, hX', hY', hzip]

lemma convertible_of_viable (hX : viable P X CallArgs = true) (hY : viable P Y CallArgs = true)
    {p : QType × QType × QType} (hp : p ∈ positions X Y CallArgs) :
    isConvertible P p.1 p.2.1 = true ∧ isConvertible P p.1 p.2.2 = true := by
  obtain ⟨⟨c, x, y⟩, hmem, rfl⟩ := List.mem_map.mp hp
  simp only [viable, Bool.and_eq_true, List.all_eq_true] at hX hY
  obtain ⟨i, hi, e⟩ := List.mem_iff_getElem.mp hmem
  simp only [List.getElem_zip, Prod.mk.injEq, List.length_zip] at e hi
  have hx : (c, x) ∈ CallArgs.zip X.args :=
    List.mem_iff_getElem.mpr ⟨i, by rw [List.length_zip]; omega, by simp [e.1, e.2.1]⟩
  have hy : (c, y) ∈ CallArgs.zip Y.args :=
    List.mem_iff_getElem.mpr ⟨i, by rw [List.length_zip]; omega, by simp [e.1, e.2.2]⟩
  exact ⟨hX.2 _ hx, hY.2 _ hy⟩

lemma followsTable_iff (hX : viable P X CallArgs = true) (hY : viable P Y CallArgs = true) :
    FollowsTable P X Y CallArgs ↔
      (∀ p ∈ positions X Y CallArgs, ¬ Related P Conversion.inverted p.1 p.2.1 p.2.2) ∧
      (Earlier P X Y CallArgs →
        ∀ p ∈ positions X Y CallArgs, ¬ Related P Conversion.worse p.1 p.2.1 p.2.2) := by
  constructor
  · intro h
    refine ⟨fun p hp => ?_, fun hearly p hp => ?_⟩
    · obtain ⟨h₁, h₂⟩ := convertible_of_viable hX hY hp
      exact (ranksFollow_iff h₁ h₂).mp (h.ranks p hp)
    · obtain ⟨h₁, h₂⟩ := convertible_of_viable hX hY hp
      rintro ⟨k₁, k₂, hk₁, hk₂, hrel⟩
      have hle := ((betterThan_iff hX hY).mp (h.better hearly)).1 p hp
      obtain ⟨hr₁, hf₁⟩ := rank_of_conversion h₁ hk₁
      obtain ⟨hr₂, hf₂⟩ := rank_of_conversion h₂ hk₂
      have hlt := ((worse_iff _ k₁ k₂ hf₁ hf₂).mp hrel).2
      omega
  · rintro ⟨hinv, hworse⟩
    have hranks : ∀ p ∈ positions X Y CallArgs, RanksFollow P p.1 p.2.1 p.2.2 := by
      intro p hp
      obtain ⟨h₁, h₂⟩ := convertible_of_viable hX hY hp
      exact (ranksFollow_iff h₁ h₂).mpr (hinv p hp)
    refine ⟨hranks, fun hearly => (betterThan_iff hX hY).mpr ⟨fun p hp => ?_, ?_⟩⟩
    · obtain ⟨h₁, h₂⟩ := convertible_of_viable hX hY hp
      obtain ⟨r₁, r₂, hc₁, hc₂, hle⟩ := hearly.nowhereLater p hp
      rcases Nat.lt_or_ge r₁ r₂ with hlt | hge
      · exact Nat.le_of_lt (hranks p hp r₁ r₂ hc₁ hc₂ hlt)
      · obtain rfl : r₁ = r₂ := by omega
        exact (rank_le_iff h₁ h₂ hc₁ hc₂).mpr (hworse hearly p hp)
    · obtain ⟨p, hp, r₁, r₂, hc₁, hc₂, hlt⟩ := hearly.somewhereEarlier
      exact ⟨p, hp, hranks p hp r₁ r₂ hc₁ hc₂ hlt⟩

/-- **The ranks follow the table exactly** outside the pairs of kinds that are inverted; and of two
signatures the one with the earlier categories is preferred where, besides, no argument has a worse
kind within one category. -/
theorem table_iff (P : Program) :
    (∀ S T₁ T₂, isConvertible P S T₁ = true → isConvertible P S T₂ = true →
      (RanksFollow P S T₁ T₂ ↔ ¬ Related P Conversion.inverted S T₁ T₂)) ∧
    ∀ X Y CallArgs, viable P X CallArgs = true → viable P Y CallArgs = true →
      (FollowsTable P X Y CallArgs ↔
        (∀ p ∈ positions X Y CallArgs, ¬ Related P Conversion.inverted p.1 p.2.1 p.2.2) ∧
        (Earlier P X Y CallArgs →
          ∀ p ∈ positions X Y CallArgs, ¬ Related P Conversion.worse p.1 p.2.1 p.2.2)) :=
  ⟨fun _ _ _ h₁ h₂ => ranksFollow_iff h₁ h₂, fun _ _ _ hX hY => followsTable_iff hX hY⟩

/-- A program with a class that anything converts to. -/
def oneClass : Program := { arithmeticOnly with converts := fun _ T => T.ty = .cls 0 }

/-- A call with a `double`, of `void(int)` and of a signature for the class. -/
theorem table_iff_double :
    (RanksFollow oneClass (.rref (.arith .double)) (.val (.arith .int)) (.val (.cls 0)) ↔
      ¬ Related oneClass Conversion.inverted (.rref (.arith .double)) (.val (.arith .int))
        (.val (.cls 0))) ∧
    (FollowsTable oneClass ⟨.val .void, [.val (.arith .int)], false⟩
        ⟨.val .void, [.val (.cls 0)], false⟩ [.val (.arith .double)] ↔
      (∀ p ∈ positions ⟨.val .void, [.val (.arith .int)], false⟩
          ⟨.val .void, [.val (.cls 0)], false⟩ [.val (.arith .double)],
        ¬ Related oneClass Conversion.inverted p.1 p.2.1 p.2.2) ∧
      (Earlier oneClass ⟨.val .void, [.val (.arith .int)], false⟩
          ⟨.val .void, [.val (.cls 0)], false⟩ [.val (.arith .double)] →
        ∀ p ∈ positions ⟨.val .void, [.val (.arith .int)], false⟩
            ⟨.val .void, [.val (.cls 0)], false⟩ [.val (.arith .double)],
          ¬ Related oneClass Conversion.worse p.1 p.2.1 p.2.2)) :=
  ⟨(table_iff oneClass).1 _ _ _ (by decide) (by decide),
    (table_iff oneClass).2 _ _ _ (by decide) (by decide)⟩

/-- The type of `"abc"`. -/
def literal : QType := ⟨.lvalue, .const, .array (some 4) (.arith .char)⟩

/-- A program in which string literals of three characters convert to C strings and views. -/
def threeCharacters : Program :=
  { arithmeticOnly with
    converts := fun From To => decide (From = literal ∧
      (To = .val (.ptr .const (.arith .char)) ∨ To = .val (.basicStringView (.arith .char) 0))) }

/-- The decay of `"abc"` to a C string ranks below its conversion to a view. -/
theorem decayed_below_stringView :
    ¬ ∀ P S T₁ T₂, isConvertible P S T₁ = true → isConvertible P S T₂ = true →
      RanksFollow P S T₁ T₂ := by
  intro h
  have hlt := h threeCharacters literal (.val (.ptr .const (.arith .char)))
    (.val (.basicStringView (.arith .char) 0)) (by decide) (by decide) 1 5 (by decide) (by decide)
    (by decide)
  exact absurd hlt (by decide)

end FunctionWrapper.ConversionTable
