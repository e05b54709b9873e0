import FunctionWrapper.Selector
import FunctionWrapper.TieBreak
import Mathlib.Order.Basic

/-!
The preference of the selector has no cycles.

A viable candidate is scored by the ranks of its conversions, and marked if it matches the common
numeric target. The candidates that match it take one arithmetic type in all places, so that their
ranks differ in nothing but the category of the reference, and are comparable.
-/

namespace FunctionWrapper.PreferenceOrder

open FunctionWrapper.Types FunctionWrapper.Traits FunctionWrapper.Rank FunctionWrapper.Signatures
open FunctionWrapper.Selector

variable (P : Program) (CallArgs : List QType)

def rankAt (s : Sig) (i : ℕ) : ℕ := (ranks P s CallArgs).getD i 0

/-- The candidate is viable and matches the common numeric target. -/
def Numeric (s : Sig) : Prop := viable P s CallArgs = true ∧ MatchesNumeric P CallArgs s

/-- The preference of the selector, between viable candidates. -/
def ViableBeats (s t : Sig) : Prop :=
  viable P s CallArgs = true ∧ viable P t CallArgs = true ∧ Beats P CallArgs s t

variable {P CallArgs} {s t : Sig}

lemma all_le_iff {l m : List ℕ} (h : l.length = m.length) :
    ((l.zip m).all fun (i, j) => decide (i ≤ j)) = true ↔ ∀ i, l.getD i 0 ≤ m.getD i 0 := by
  induction l generalizing m with
  | nil => simp
  | cons a l ih =>
    cases m with
    | nil => simp at h
    | cons b m =>
      have ih' := ih (m := m) (by simpa using h)
      simp only [List.zip_cons_cons, List.all_cons, Bool.and_eq_true, decide_eq_true_eq, ih']
      constructor
      · rintro ⟨hab, hrest⟩ i
        cases i with
        | zero => simpa using hab
        | succ i => simpa using hrest i
      · intro hall
        exact ⟨by simpa using hall 0, fun i => by simpa using hall (i + 1)⟩

lemma any_lt_iff {l m : List ℕ} (h : l.length = m.length) :
    ((l.zip m).any fun (i, j) => decide (i < j)) = true ↔ ∃ i, l.getD i 0 < m.getD i 0 := by
  induction l generalizing m with
  | nil =>
    cases m with
    | nil => simp
    | cons b m => simp at h
  | cons a l ih =>
    cases m with
    | nil => simp at h
    | cons b m =>
      have ih' := ih (m := m) (by simpa using h)
      simp only [List.zip_cons_cons, List.any_cons, Bool.or_eq_true, decide_eq_true_eq, ih']
      constructor
      · rintro (hab | ⟨i, hi⟩)
        · exact ⟨0, by simpa using hab⟩
        · exact ⟨i + 1, by simpa using hi⟩
      · rintro ⟨i, hi⟩
        cases i with
        | zero => exact .inl (by simpa using hi)
        | succ i => exact .inr ⟨i, by simpa using hi⟩

lemma length_ranks (hs : viable P s CallArgs = true) :
    (ranks P s CallArgs).length = CallArgs.length := by
  have harity := arity_of_viable hs
  rw [Sig.arity] at harity
  simp [ranks, harity]

/-- Better ranks are a smaller score. -/
lemma betterThan_iff_lt (hs : viable P s CallArgs = true) (ht : viable P t CallArgs = true) :
    betterThan P s t CallArgs = true ↔ rankAt P CallArgs s < rankAt P CallArgs t := by
  have hlen : (ranks P s CallArgs).length = (ranks P t CallArgs).length :=
    (length_ranks hs).trans (length_ranks ht).symm
  have hst : s.arity = t.arity := (arity_of_viable hs).trans (arity_of_viable ht).symm
  rw [Pi.lt_def, Pi.le_def]
  simp only [betterThan, hs, ht, arity_of_viable ht, hst, decide_true, Bool.true_and,
    Bool.and_eq_true, all_le_iff hlen, any_lt_iff hlen]
  rfl

/-- The preference of the selector is preference by ranks with the numeric mark. -/
lemma beats_iff_prefers (hs : viable P s CallArgs = true) (ht : viable P t CallArgs = true) :
    Beats P CallArgs s t ↔
      TieBreak.Prefers (rankAt P CallArgs) (Numeric P CallArgs) s t := by
  simp only [Beats, TieBreak.Prefers, Numeric, hs, ht, true_and, ← Bool.not_eq_true,
    betterThan_iff_lt hs ht, betterThan_iff_lt ht hs]

variable {A T T' : QType}

/-- Between different types the rank does not depend on the reference. -/
lemma rank_eq_of_ne (hty : T.removeCvref = T'.removeCvref) (harith : T.removeCvref.isArithmetic = true)
    (hA : A.removeCvref.isArithmetic = true) (hne : A.removeCvref ≠ T.removeCvref) :
    implicitConversionRank P A T = implicitConversionRank P A T' := by
  have hAT : A ≠ T := fun e => hne (congrArg QType.removeCvref e)
  have hAT' : A ≠ T' := fun e => hne ((congrArg QType.removeCvref e).trans hty.symm)
  cases hs : A.removeCvref with
  | arith a =>
    cases ht : T.removeCvref with
    | arith b =>
      rw [hs, ht] at hne
      rw [ht] at hty
      simp only [implicitConversionRank, if_neg hAT, if_neg hAT', hs, ht, ← hty, if_neg hne]
    | _ => simp [ht, Ty.isArithmetic] at harith
  | _ => simp [hs, Ty.isArithmetic] at hA

lemma rank_of_same (hty : A.removeCvref = T.removeCvref) : implicitConversionRank P A T =
    if !T.isReference || A.isLvalueReference == T.isLvalueReference then 0 else 1 := by
  unfold implicitConversionRank
  by_cases e : A = T
  · subst e
    simp
  · rw [if_neg e, if_pos hty]

/-- An argument of the type itself reaches a parameter at best rank, unless it is an lvalue
reference. -/
lemma rank_eq_zero (harith : T.removeCvref.isArithmetic = true) (hty : A.removeCvref = T.removeCvref)
    (hT : T.isLvalueReference = false) (hconv : isConvertible P A T = true) :
    implicitConversionRank P A T = 0 := by
  have hA : A.ty.isArithmetic = true := by
    rw [← harith]
    exact congrArg Ty.isArithmetic hty
  have hT' : T.ty.isArithmetic = true := harith
  simp only [isConvertible, hA, hT', Bool.and_self, if_true] at hconv
  have htype : A.ty = T.ty := hty
  rw [rank_of_same hty, if_pos]
  rcases hr : T.ref with _ | _ | _
  · simp [QType.isReference, hr]
  · simp [QType.isLvalueReference, hr] at hT
  · have hrvalue : A.isLvalueReference = false := by
      simp only [arithmeticBinds, hr, htype, ne_eq, not_true_eq_false, decide_false,
        Bool.false_or, Bool.and_eq_true, Bool.not_eq_true'] at hconv
      exact hconv.1
    simp [hrvalue, hT]

lemma rank_le_of_not_lvalue (hty : T.removeCvref = T'.removeCvref)
    (harith : T.removeCvref.isArithmetic = true) (hA : A.removeCvref.isArithmetic = true)
    (hT : T.isLvalueReference = false) (hconv : isConvertible P A T = true) :
    implicitConversionRank P A T ≤ implicitConversionRank P A T' := by
  by_cases hAT : A.removeCvref = T.removeCvref
  · rw [rank_eq_zero harith hAT hT hconv]
    exact Nat.zero_le _
  · exact (rank_eq_of_ne hty harith hA hAT).le

lemma rank_eq_of_lvalue (hty : T.removeCvref = T'.removeCvref)
    (harith : T.removeCvref.isArithmetic = true) (hA : A.removeCvref.isArithmetic = true)
    (hT : T.isLvalueReference = true) (hT' : T'.isLvalueReference = true) :
    implicitConversionRank P A T = implicitConversionRank P A T' := by
  by_cases hAT : A.removeCvref = T.removeCvref
  · have href : ∀ U : QType, U.isLvalueReference = true → U.isReference = true := by
      intro U hU
      simp only [QType.isLvalueReference, decide_eq_true_eq] at hU
      simp [QType.isReference, hU]
    rw [rank_of_same hAT, rank_of_same (hAT.trans hty), href T hT, href T' hT', hT, hT']
  · exact rank_eq_of_ne hty harith hA hAT

/-- The common numeric target is an arithmetic type, and all parameters are of one type over it. -/
lemma matches_spec (h : MatchesNumeric P CallArgs s) :
    ∃ C T, commonType P (CallArgs.map QType.removeCvref) = some C ∧ C.isArithmetic = true ∧
      T.removeCvref = C ∧ (∀ a ∈ s.args, a = T) ∧
      ∀ c ∈ CallArgs, c.removeCvref.isArithmetic = true := by
  unfold MatchesNumeric signatureMatchesCommonNumericTarget at h
  dsimp only at h
  split at h
  · simp at h
  · obtain ⟨C, hC, h⟩ := Option.map_eq_some_iff.mp h
    rw [Bool.and_eq_true, List.all_eq_true] at h
    obtain ⟨htarget, hargs⟩ := h
    unfold numericTarget at htarget
    rcases hs : s.args with _ | ⟨T, Rest⟩
    · simp [hs] at htarget
    · simp only [hs, Bool.and_eq_true, List.all_eq_true, decide_eq_true_eq] at htarget
      obtain ⟨⟨hrest, harith⟩, hT⟩ := htarget
      refine ⟨C, T, hC, hT ▸ harith, hT, fun a ha => ?_, hargs⟩
      rcases List.mem_cons.mp ha with rfl | ha
      · rfl
      · exact hrest a ha

lemma rankAt_of_all (hs : viable P s CallArgs = true) (hT : ∀ a ∈ s.args, a = T) (i : ℕ) :
    rankAt P CallArgs s i =
      (CallArgs[i]?.map fun c => implicitConversionRank P c.addRvalueRef T).getD 0 := by
  have harity := arity_of_viable hs
  have hrep : s.args = List.replicate CallArgs.length T :=
    List.eq_replicate_iff.mpr ⟨harity, hT⟩
  rw [rankAt, ranks, hrep, List.getD_eq_getElem?_getD, List.getElem?_zipWith]
  by_cases hi : i < CallArgs.length
  · simp [hi]
  · simp [hi]

lemma convertible_of_all (hs : viable P s CallArgs = true) (hT : ∀ a ∈ s.args, a = T) {c : QType}
    (hc : c ∈ CallArgs) : isConvertible P c.addRvalueRef T = true := by
  have harity := arity_of_viable hs
  have hrep : s.args = List.replicate CallArgs.length T :=
    List.eq_replicate_iff.mpr ⟨harity, hT⟩
  rw [viable_iff harity] at hs
  obtain ⟨i, hi, rfl⟩ := List.getElem_of_mem hc
  refine hs (CallArgs[i], T) (List.mem_iff_getElem.mpr ⟨i, by simp [hrep, hi], ?_⟩)
  simp [hrep]

lemma rankAt_le (hs : viable P s CallArgs = true) (ht : viable P t CallArgs = true)
    (hT : ∀ a ∈ s.args, a = T) (hT' : ∀ a ∈ t.args, a = T')
    (hrank : ∀ c ∈ CallArgs, implicitConversionRank P c.addRvalueRef T ≤
      implicitConversionRank P c.addRvalueRef T') : rankAt P CallArgs s ≤ rankAt P CallArgs t := by
  intro i
  rw [rankAt_of_all hs hT, rankAt_of_all ht hT']
  rcases hc : CallArgs[i]? with _ | c
  · exact Nat.zero_le _
  · exact hrank c (List.mem_of_getElem? hc)

/-- **The candidates that match the numeric target have comparable ranks.** -/
theorem markedChain : TieBreak.MarkedChain (rankAt P CallArgs) (Numeric P CallArgs) := by
  rintro s t ⟨hs, hms⟩ ⟨ht, hmt⟩
  obtain ⟨C, T, hC, harith, hTC, hT, hall⟩ := matches_spec hms
  obtain ⟨C', T', hC', -, hTC', hT', -⟩ := matches_spec hmt
  obtain rfl : C = C' := Option.some.inj (hC.symm.trans hC')
  have hty : T.removeCvref = T'.removeCvref := hTC.trans hTC'.symm
  cases href : T.isLvalueReference with
  | false =>
    exact .inl (rankAt_le hs ht hT hT' fun c hc =>
      rank_le_of_not_lvalue hty (hTC ▸ harith) (hall c hc) href (convertible_of_all hs hT hc))
  | true =>
    cases href' : T'.isLvalueReference with
    | false =>
      exact .inr (rankAt_le ht hs hT' hT fun c hc =>
        rank_le_of_not_lvalue hty.symm (hTC' ▸ harith) (hall c hc) href'
          (convertible_of_all ht hT' hc))
    | true =>
      exact .inl (rankAt_le hs ht hT hT' fun c hc =>
        (rank_eq_of_lvalue (A := c.addRvalueRef) hty (hTC ▸ harith) (hall c hc) href href').le)

/-! ### The preference -/

/-- `f(char, int)`, `f(int, int)` and `f(long, short)`. -/
def chainOfTwo : List Sig :=
  [⟨.val .void, [.val (.arith .char), .val (.arith .int)], false⟩,
   ⟨.val .void, [.val (.arith .int), .val (.arith .int)], false⟩,
   ⟨.val .void, [.val (.arith .long), .val (.arith .short)], false⟩]

/-- **The preference has no cycles**, whatever the candidates and the arguments, so that among
finitely many there is one that no other beats; and it is not transitive: of the three signatures of
`chainOfTwo` the first beats the second and the second the third for a `char` and a `short`. -/
theorem preference_acyclic :
    (∀ (P : Program) (CallArgs : List QType),
      (∀ s, ¬ Relation.TransGen (ViableBeats P CallArgs) s s) ∧
      ∀ cands : Set Sig, cands.Finite → cands.Nonempty →
        (∀ s ∈ cands, viable P s CallArgs = true) → ∃ s ∈ cands, ∀ t ∈ cands, ¬ Beats P CallArgs t s) ∧
    ∃ (P : Program) (CallArgs : List QType) (s t u : Sig), ViableBeats P CallArgs s t ∧
      ViableBeats P CallArgs t u ∧ viable P u CallArgs = true ∧ ¬ Beats P CallArgs s u := by
  refine ⟨fun P CallArgs => ⟨fun s hcycle => ?_, fun cands hfin hne hv => ?_⟩, ?_⟩
  · have hchain : TieBreak.MarkedChain (rankAt P CallArgs) (Numeric P CallArgs) := markedChain
    refine TieBreak.not_transGen_prefers hchain s ?_
    exact Relation.TransGen.mono (fun x y ⟨hx, hy, hxy⟩ => (beats_iff_prefers hx hy).mp hxy) _ _
      hcycle
  · obtain ⟨s, hs, hmin⟩ := TieBreak.exists_not_prefers markedChain hfin hne
    exact ⟨s, hs, fun t ht hts => hmin t ht ((beats_iff_prefers (hv t ht) (hv s hs)).mp hts)⟩
  · exact ⟨arithmeticOnly, [.lref (.arith .char), .lref (.arith .short)], chainOfTwo[0],
      chainOfTwo[1], chainOfTwo[2], by unfold ViableBeats; decide, by unfold ViableBeats; decide,
      by decide, by decide⟩

end FunctionWrapper.PreferenceOrder
