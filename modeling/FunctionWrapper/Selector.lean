import FunctionWrapper.OnePass
import FunctionWrapper.Signatures

/-!
The selector is one pass over the viable candidates, under the preference its flags compute.
-/

namespace FunctionWrapper.Selector

open FunctionWrapper.Types FunctionWrapper.Traits FunctionWrapper.Rank FunctionWrapper.Signatures
open OnePass
open scoped List

variable (P : Program) (CallArgs : List QType)

def viableMembers (sigs : List Sig) : List Sig := sigs.filter (viable P · CallArgs)

def MatchesNumeric (s : Sig) : Prop :=
  signatureMatchesCommonNumericTarget P (some s) CallArgs = some true

instance : DecidablePred (MatchesNumeric P CallArgs) := fun s =>
  inferInstanceAs (Decidable (signatureMatchesCommonNumericTarget P (some s) CallArgs = some true))

/-- The preference between viable candidates: better ranks, or the numeric tie-break where
neither has better ranks. -/
def Beats (s t : Sig) : Prop :=
  betterThan P s t CallArgs = true ∨
    (betterThan P s t CallArgs = false ∧ betterThan P t s CallArgs = false ∧
      MatchesNumeric P CallArgs s ∧ ¬ MatchesNumeric P CallArgs t)

instance : DecidableRel (Beats P CallArgs) := fun s t =>
  inferInstanceAs (Decidable (betterThan P s t CallArgs = true ∨
    (betterThan P s t CallArgs = false ∧ betterThan P t s CallArgs = false ∧
      MatchesNumeric P CallArgs s ∧ ¬ MatchesNumeric P CallArgs t)))

/-- The selector compiles: either the numeric tie-break is never spelled out, or the call
arguments have a common type. -/
def Instantiates (sigs : List Sig) : Prop :=
  CallArgs = [] ∨ (∀ s ∈ sigs, s.args = []) ∨
    (commonType P (CallArgs.map QType.removeCvref)).isSome

/-- The selection a pass stands for. -/
def ofHeld : Option (Held Sig) → Selection
  | none => ⟨none, false, false⟩
  | some h => ⟨some h.holder, true, h.tied⟩

variable {P CallArgs}

lemma betterThan_asymm {s t : Sig} (h : betterThan P s t CallArgs = true) :
    betterThan P t s CallArgs = false := by
  by_contra hc
  simp only [betterThan, Bool.and_eq_true, Bool.not_eq_false, List.all_eq_true, List.any_eq_true,
    decide_eq_true_eq] at h hc
  obtain ⟨⟨i, j⟩, hij, hlt⟩ := h.2
  have hji : (j, i) ∈ (ranks P t CallArgs).zip (ranks P s CallArgs) := by
    obtain ⟨k, hk, e⟩ := List.mem_iff_getElem.mp hij
    rw [List.length_zip] at hk
    rw [List.getElem_zip, Prod.mk.injEq] at e
    exact List.mem_iff_getElem.mpr ⟨k, by rw [List.length_zip]; omega, by
      rw [List.getElem_zip, e.1, e.2]⟩
  have hle : j ≤ i := hc.1.2 (j, i) hji
  have hlt' : i < j := hlt
  omega

lemma beats_asymm (s t : Sig) (h : Beats P CallArgs s t) : ¬ Beats P CallArgs t s := by
  rcases h with h | ⟨h1, h2, hs, ht⟩
  · rintro (h' | ⟨-, h', -, -⟩)
    · simp [betterThan_asymm h] at h'
    · simp [h] at h'
  · rintro (h' | ⟨-, -, ht', -⟩)
    · simp [h2] at h'
    · exact ht ht'

lemma matches_isSome {sigs : List Sig} (h : Instantiates P CallArgs sigs) {s : Sig}
    (hs : s ∈ sigs) :
    signatureMatchesCommonNumericTarget P (some s) CallArgs =
      some (decide (MatchesNumeric P CallArgs s)) := by
  have hsome : ∃ b, signatureMatchesCommonNumericTarget P (some s) CallArgs = some b := by
    unfold signatureMatchesCommonNumericTarget
    by_cases hc : CallArgs = [] ∨ s.args = []
    · exact ⟨false, by simp [hc]⟩
    · rcases h with h | h | h
      · exact absurd (Or.inl h) hc
      · exact absurd (Or.inr (h s hs)) hc
      · obtain ⟨C, hC⟩ := Option.isSome_iff_exists.mp h
        refine ⟨numericTarget C s && CallArgs.all fun c => c.removeCvref.isArithmetic, ?_⟩
        simp only [if_neg hc, hC, Option.map_some]
  obtain ⟨b, hb⟩ := hsome
  have hd : decide (MatchesNumeric P CallArgs s) = b := by
    cases b <;> simp [MatchesNumeric, hb]
  rw [hb, hd]

/-- Without a common type the selector does not compile. -/
lemma selector_eq_none {sigs : List Sig} (h : ¬ Instantiates P CallArgs sigs) :
    bestSignatureSelector P CallArgs sigs = none := by
  unfold Instantiates at h
  push Not at h
  obtain ⟨hargs, ⟨s, hs, hsa⟩, hcommon⟩ := h
  have hnone : commonType P (CallArgs.map QType.removeCvref) = none := by simpa using hcommon
  induction sigs with
  | nil => simp at hs
  | cons t rest ih =>
    rw [bestSignatureSelector]
    rcases List.mem_cons.mp hs with rfl | hs'
    · have hm : signatureMatchesCommonNumericTarget P (some s) CallArgs = none := by
        simp [signatureMatchesCommonNumericTarget, hargs, hsa, hnone]
      rcases bestSignatureSelector P CallArgs rest with _ | r
      · rfl
      · simp [hm]
    · simp [ih hs']

lemma Instantiates.tail {s : Sig} {rest : List Sig} (h : Instantiates P CallArgs (s :: rest)) :
    Instantiates P CallArgs rest := by
  rcases h with h | h | h
  · exact Or.inl h
  · exact Or.inr (Or.inl fun t ht => h t (by simp [ht]))
  · exact Or.inr (Or.inr h)

lemma Instantiates.perm {sigs sigs' : List Sig} (h : Instantiates P CallArgs sigs)
    (hp : sigs' ~ sigs) : Instantiates P CallArgs sigs' := by
  rcases h with h | h | h
  · exact Or.inl h
  · exact Or.inr (Or.inl fun s hs => h s (hp.mem_iff.mp hs))
  · exact Or.inr (Or.inr h)

/-- With a viable signature among the declared ones, the numeric tie-break is spelled out for every
argument list that is not empty. -/
lemma instantiates_iff {sigs : List Sig} {s : Sig} (hs : s ∈ sigs)
    (harity : s.arity = CallArgs.length) : Instantiates P CallArgs sigs ↔
      CallArgs = [] ∨ (commonType P (CallArgs.map QType.removeCvref)).isSome = true := by
  have hargs : s.args = [] ↔ CallArgs = [] := by
    rw [← List.length_eq_zero_iff, ← List.length_eq_zero_iff, ← harity, Sig.arity]
  constructor
  · rintro (h | h | h)
    · exact Or.inl h
    · exact Or.inl (hargs.mp (h s hs))
    · exact Or.inr h
  · rintro (h | h)
    · exact Or.inl h
    · exact Or.inr (Or.inr h)

lemma arity_of_viable {s : Sig} (h : viable P s CallArgs = true) : s.arity = CallArgs.length := by
  simp only [viable, Bool.and_eq_true, decide_eq_true_eq] at h
  exact h.1

lemma viable_iff {s : Sig} (h : s.arity = CallArgs.length) : viable P s CallArgs = true ↔
    ∀ p ∈ CallArgs.zip s.args, isConvertible P p.1.addRvalueRef p.2 = true := by
  simp [viable, h]

lemma viableMembers_nodup {sigs : List Sig} (h : sigs.Nodup) :
    (viableMembers P CallArgs sigs).Nodup := h.filter _

lemma viable_of_mem {sigs : List Sig} {s : Sig} (h : s ∈ viableMembers P CallArgs sigs) :
    viable P s CallArgs = true := (List.mem_filter.mp h).2

/-- **The selector is one pass over the viable candidates.** -/
theorem selector_eq_scan {sigs : List Sig} (h : Instantiates P CallArgs sigs) :
    bestSignatureSelector P CallArgs sigs =
      some (ofHeld (scan (Beats P CallArgs) (viableMembers P CallArgs sigs))) := by
  induction sigs with
  | nil => rfl
  | cons s rest ih =>
    have hs := matches_isSome h (List.mem_cons_self (a := s) (l := rest))
    rw [bestSignatureSelector, ih h.tail, hs]
    by_cases hv : viable P s CallArgs = true
    · have e : viableMembers P CallArgs (s :: rest) = s :: viableMembers P CallArgs rest := by
        simp [viableMembers, hv]
      rw [e, scan_cons]
      rcases hrest : scan (Beats P CallArgs) (viableMembers P CallArgs rest) with _ | ⟨t, b⟩
      · simp [ofHeld, meet, hv, signatureMatchesCommonNumericTarget, signatureIsBetterThan]
      · have htm : t ∈ viableMembers P CallArgs rest := holder_mem hrest
        have ht := matches_isSome h (List.mem_cons_of_mem s (List.mem_filter.mp htm).1)
        simp only [ofHeld, meet, hv, ht, signatureIsBetterThan, Option.bind_eq_bind,
          Option.bind_some, Bool.not_true, Bool.false_or, Bool.true_and, Bool.true_or]
        by_cases h1 : betterThan P s t CallArgs = true
        · have hb : Beats P CallArgs s t := Or.inl h1
          simp [h1, hb]
        · by_cases h2 : betterThan P t s CallArgs = true
          · have hb : Beats P CallArgs t s := Or.inl h2
            simp [h1, h2, hb, beats_asymm t s hb]
          · have hst : Beats P CallArgs s t ↔
                MatchesNumeric P CallArgs s ∧ ¬ MatchesNumeric P CallArgs t := by
              simp [Beats, h1, h2]
            have hts : Beats P CallArgs t s ↔
                MatchesNumeric P CallArgs t ∧ ¬ MatchesNumeric P CallArgs s := by
              simp [Beats, h1, h2]
            by_cases h3 : MatchesNumeric P CallArgs s <;> by_cases h4 : MatchesNumeric P CallArgs t <;>
              simp [h1, h2, h3, h4, hst, hts]
    · have e : viableMembers P CallArgs (s :: rest) = viableMembers P CallArgs rest := by
        simp [viableMembers, hv]
      rw [e]
      rcases hrest : scan (Beats P CallArgs) (viableMembers P CallArgs rest) with _ | ⟨t, b⟩
      · simp [ofHeld, hv, signatureMatchesCommonNumericTarget]
      · have htm : t ∈ viableMembers P CallArgs rest := holder_mem hrest
        have ht := matches_isSome h (List.mem_cons_of_mem s (List.mem_filter.mp htm).1)
        simp [ofHeld, hv, ht]

end FunctionWrapper.Selector
