import FunctionWrapper.Selector
import Mathlib.Data.List.Rotate

/-!
What the selection promises of a call: that the signature it selects beats its rivals, and that
the order of the declaration plays no part.

Both hold of two declared signatures. With three, a signature that takes over from the kept one
clears a tie that an earlier signature left, and that earlier signature is never compared again.
-/

namespace FunctionWrapper.OverloadSelection

open FunctionWrapper.Types FunctionWrapper.Traits FunctionWrapper.Signatures
open FunctionWrapper.Selector
open OnePass
open scoped List

variable (P : Program) (CallArgs : List QType)

/-- An unambiguous selection is a viable member that beats every other viable member. -/
def SoundFor (sigs : List Sig) : Prop :=
  ∀ r, bestSignatureSelector P CallArgs sigs = some r → r.found = true → r.ambiguous = false →
    ∃ s, r.type = some s ∧ s ∈ sigs ∧ viable P s CallArgs = true ∧
      ∀ t ∈ sigs, viable P t CallArgs = true → t ≠ s → Beats P CallArgs s t

/-- What a call sees of a selection: the two flags, and the type when both allow the call. -/
def report (sigs : List Sig) : Option (Bool × Bool × Option Sig) :=
  (bestSignatureSelector P CallArgs sigs).map fun r =>
    (r.found, r.ambiguous, if r.found && !r.ambiguous then r.type else none)

/-- All orders of the declared list report the same. -/
def OrderIndependent (sigs : List Sig) : Prop :=
  ∀ sigs', sigs' ~ sigs → report P CallArgs sigs' = report P CallArgs sigs

variable {P CallArgs}

lemma exists_perm_of_viable {sigs v : List Sig} (hv : v ~ viableMembers P CallArgs sigs) :
    ∃ sigs', sigs' ~ sigs ∧ viableMembers P CallArgs sigs' = v := by
  refine ⟨v ++ sigs.filter fun s => !viable P s CallArgs, ?_, ?_⟩
  · exact (hv.append_right _).trans (List.filter_append_perm _ _)
  · have hin : v.filter (viable P · CallArgs) = v :=
      List.filter_eq_self.mpr fun s hs => viable_of_mem (hv.mem_iff.mp hs)
    rw [viableMembers, List.filter_append, hin, List.filter_filter]
    simp

lemma soundFor_iff_untied {sigs : List Sig} (h : Instantiates P CallArgs sigs) :
    SoundFor P CallArgs sigs ↔
      ∀ k, scan (Beats P CallArgs) (viableMembers P CallArgs sigs) = some k → k.tied = false →
        Top (Beats P CallArgs) (viableMembers P CallArgs sigs) k.holder := by
  unfold SoundFor
  rw [selector_eq_scan h]
  constructor
  · intro hsound k hk hun t ht hne
    rw [hk] at hsound
    obtain ⟨s, hs, -, -, hall⟩ := hsound _ rfl rfl hun
    obtain rfl : k.holder = s := Option.some.inj hs
    exact hall t (List.mem_filter.mp ht).1 (viable_of_mem ht) hne
  · rintro htop r hr hfound hun
    obtain rfl := Option.some.inj hr
    rcases hk : scan (Beats P CallArgs) (viableMembers P CallArgs sigs) with _ | k
    · rw [hk] at hfound
      cases hfound
    · rw [hk] at hun
      have hmem := holder_mem hk
      refine ⟨k.holder, rfl, (List.mem_filter.mp hmem).1, viable_of_mem hmem, fun t ht hv hne => ?_⟩
      exact htop k hk hun t (List.mem_filter.mpr ⟨ht, hv⟩) hne

/-- `f(long, int)`, `f(int, short)` and `f(short, int)`. -/
def clearedTie : List Sig :=
  [⟨.val .void, [.val (.arith .long), .val (.arith .int)], false⟩,
   ⟨.val .void, [.val (.arith .int), .val (.arith .short)], false⟩,
   ⟨.val .void, [.val (.arith .short), .val (.arith .int)], false⟩]

def twoInts : List QType := [.lref (.arith .int), .lref (.arith .int)]

lemma selected_of_top {sigs : List Sig} (hnd : sigs.Nodup) (h : Instantiates P CallArgs sigs)
    {w : Sig} (hw : w ∈ sigs) (hv : viable P w CallArgs = true)
    (htop : ∀ t ∈ sigs, viable P t CallArgs = true → t ≠ w → Beats P CallArgs w t) :
    bestSignatureSelector P CallArgs sigs = some ⟨some w, true, false⟩ := by
  have hmem : w ∈ viableMembers P CallArgs sigs := List.mem_filter.mpr ⟨hw, hv⟩
  have hall : Top (Beats P CallArgs) (viableMembers P CallArgs sigs) w := fun t ht hne =>
    htop t (List.mem_filter.mp ht).1 (viable_of_mem ht) hne
  rw [selector_eq_scan h, scan_of_top (viableMembers_nodup hnd) beats_asymm hmem hall]
  rfl

/-- **When a signature that beats all its rivals is selected.** At every place in the list, and
whatever ties there are among the others, exactly when the selector compiles: when the arguments
have a common type. -/
theorem selected_iff_of_top {sigs : List Sig} (hnd : sigs.Nodup) {w : Sig} (hw : w ∈ sigs)
    (hv : viable P w CallArgs = true)
    (htop : ∀ t ∈ sigs, viable P t CallArgs = true → t ≠ w → Beats P CallArgs w t) :
    bestSignatureSelector P CallArgs sigs = some ⟨some w, true, false⟩ ↔
      CallArgs = [] ∨ (commonType P (CallArgs.map QType.removeCvref)).isSome = true := by
  rw [← instantiates_iff hw (arity_of_viable hv)]
  refine ⟨fun h => ?_, fun h => selected_of_top hnd h hw hv htop⟩
  by_contra hi
  rw [selector_eq_none hi] at h
  cases h

/-- `f(int, short)` beats the other two for an `int` and a `short`. -/
theorem selected_iff_of_top_sample :
    bestSignatureSelector arithmeticOnly [.lref (.arith .int), .lref (.arith .short)] clearedTie =
        some ⟨some clearedTie[1], true, false⟩ ↔
      [QType.lref (.arith .int), .lref (.arith .short)] = [] ∨
        (commonType arithmeticOnly ([QType.lref (.arith .int), .lref (.arith .short)].map
          QType.removeCvref)).isSome = true :=
  selected_iff_of_top (by decide) (by decide) (by decide) (by decide)

/-- `f(int, C)` and `f(double, C)`. -/
def withClass : List Sig :=
  [⟨.val .void, [.val (.arith .int), .val (.cls 0)], false⟩,
   ⟨.val .void, [.val (.arith .double), .val (.cls 0)], false⟩]

/-- An `int` and a `C` have no common type, and the selector does not compile. -/
theorem top_not_selected :
    ¬ ∀ (P : Program) (CallArgs : List QType) (sigs : List Sig) (w : Sig), sigs.Nodup → w ∈ sigs →
      viable P w CallArgs = true →
      (∀ t ∈ sigs, viable P t CallArgs = true → t ≠ w → Beats P CallArgs w t) →
      bestSignatureSelector P CallArgs sigs = some ⟨some w, true, false⟩ := by
  intro h
  have hsel := h valueClass [.lref (.arith .int), .lref (.cls 0)] withClass withClass[0] (by decide)
    (by decide) (by decide) (by decide)
  exact absurd hsel (by decide)

/-! ### Order of declaration -/

lemma report_eq_verdict {sigs : List Sig} (h : Instantiates P CallArgs sigs) :
    report P CallArgs sigs =
      some (match verdict (Beats P CallArgs) (viableMembers P CallArgs sigs) with
        | none => (false, false, none)
        | some (tied, holder) => (true, tied, holder)) := by
  rw [report, selector_eq_scan h, verdict]
  rcases scan (Beats P CallArgs) (viableMembers P CallArgs sigs) with _ | ⟨s, b⟩
  · rfl
  · cases b <;> rfl

lemma report_eq_iff {sigs sigs' : List Sig} (h : Instantiates P CallArgs sigs)
    (h' : Instantiates P CallArgs sigs') :
    report P CallArgs sigs' = report P CallArgs sigs ↔
      verdict (Beats P CallArgs) (viableMembers P CallArgs sigs') =
        verdict (Beats P CallArgs) (viableMembers P CallArgs sigs) := by
  rw [report_eq_verdict h, report_eq_verdict h', Option.some.injEq]
  rcases verdict (Beats P CallArgs) (viableMembers P CallArgs sigs') with _ | ⟨b, o⟩ <;>
    rcases verdict (Beats P CallArgs) (viableMembers P CallArgs sigs) with _ | ⟨c, q⟩ <;> simp

/-- **When the order of declaration does not matter.** Either the selection does not compile at
all, or some viable signature beats every other, or no viable signature can bridge its way past a
rival it does not beat. -/
theorem orderIndependent_iff {sigs : List Sig} (hnd : sigs.Nodup) :
    OrderIndependent P CallArgs sigs ↔
      ¬ Instantiates P CallArgs sigs ∨
        (∃ s ∈ viableMembers P CallArgs sigs,
          Top (Beats P CallArgs) (viableMembers P CallArgs sigs) s) ∨
        ¬ ∃ s ∈ viableMembers P CallArgs sigs,
          Bridged (Beats P CallArgs) (viableMembers P CallArgs sigs) s := by
  by_cases h : Instantiates P CallArgs sigs
  · rw [← verdict_perm_iff (viableMembers_nodup hnd) beats_asymm]
    simp only [h, not_true_eq_false, false_or]
    constructor
    · intro hind v hv
      obtain ⟨sigs', hp, rfl⟩ := exists_perm_of_viable hv
      exact (report_eq_iff h (h.perm hp)).mp (hind sigs' hp)
    · intro hall sigs' hp
      exact (report_eq_iff h (h.perm hp)).mpr (hall _ (hp.filter _))
  · refine ⟨fun _ => Or.inl h, fun _ sigs' hp => ?_⟩
    have h' : ¬ Instantiates P CallArgs sigs' := fun hi => h (hi.perm hp.symm)
    rw [report, report, selector_eq_none h, selector_eq_none h']

/-- Declared first, `f(long, int)` is selected; declared last, the call is ambiguous. -/
theorem order_matters :
    ¬ ∀ (P : Program) (CallArgs : List QType) (sigs : List Sig), sigs.Nodup →
      OrderIndependent P CallArgs sigs := by
  intro hall
  have hsame := hall arithmeticOnly twoInts clearedTie (by decide) (clearedTie.rotate 1)
    (List.rotate_perm clearedTie 1)
  exact absurd hsame (by decide)

theorem orderIndependent_pair :
    OrderIndependent arithmeticOnly twoInts (clearedTie.take 2) ↔
      ¬ Instantiates arithmeticOnly twoInts (clearedTie.take 2) ∨
        (∃ s ∈ viableMembers arithmeticOnly twoInts (clearedTie.take 2),
          Top (Beats arithmeticOnly twoInts)
            (viableMembers arithmeticOnly twoInts (clearedTie.take 2)) s) ∨
        ¬ ∃ s ∈ viableMembers arithmeticOnly twoInts (clearedTie.take 2),
          Bridged (Beats arithmeticOnly twoInts)
            (viableMembers arithmeticOnly twoInts (clearedTie.take 2)) s :=
  orderIndependent_iff (by decide)

end FunctionWrapper.OverloadSelection
