import FunctionWrapper.ConversionTable
import FunctionWrapper.OverloadSelection
import FunctionWrapper.PreferenceOrder
import Mathlib.Data.List.Pairwise

/-!
Calls with exactly the parameter types of a declared signature.

Such a call converts nothing, so that all its ranks are 0; and the rank of a conversion between
types that differ after `remove_cvref` is never 0. The signature therefore beats every other one
whose parameters are of other types, and is selected if the selector compiles at all.
-/

namespace FunctionWrapper.ExactMatch

open FunctionWrapper.Types FunctionWrapper.Traits FunctionWrapper.Rank FunctionWrapper.Signatures
open FunctionWrapper.Selector FunctionWrapper.ConversionTable FunctionWrapper.OverloadSelection
open FunctionWrapper.PreferenceOrder
open OnePass

variable {P : Program} {s t : Sig} {sigs : List Sig}

/-- The parameter lists differ after `remove_cvref`. -/
def OtherParameters (s t : Sig) : Prop :=
  s.args.map QType.removeCvref ≠ t.args.map QType.removeCvref

instance : DecidableRel OtherParameters := fun s t =>
  inferInstanceAs (Decidable (s.args.map QType.removeCvref ≠ t.args.map QType.removeCvref))

instance : Std.Symm OtherParameters where
  symm _ _ h := h.symm

lemma addRvalueRef_asArgument (T : QType) : T.asArgument.addRvalueRef = T.addRvalueRef := by
  obtain ⟨_ | _ | _, cv, ty⟩ := T <;> rfl

lemma rank_exact (T : QType) : implicitConversionRank P T.asArgument.addRvalueRef T = 0 := by
  obtain ⟨_ | _ | _, cv, ty⟩ := T <;>
    simp [implicitConversionRank, QType.addRvalueRef, QType.asArgument, QType.removeCvref,
      QType.isReference]

lemma rank_pos {S T : QType} (h : S.removeCvref ≠ T.removeCvref) :
    0 < implicitConversionRank P S T := by
  have hne : S ≠ T := fun e => h (congrArg QType.removeCvref e)
  rw [implicitConversionRank, if_neg hne, if_neg h]
  split
  · unfold arithmeticRank
    split_ifs <;> decide
  · split_ifs <;> decide

/-- A signature takes the arguments that are exactly its parameters if these can be initialized
from arguments of their own types. -/
lemma viable_exact : viable P s s.exactArgs = true ↔ forwardable P s = true := by
  have hzip : ∀ l : List QType, (l.map QType.asArgument).zip l = l.map fun a => (a.asArgument, a) := by
    intro l
    induction l with
    | nil => rfl
    | cons a l ih => simp [ih]
  simp only [viable, Sig.arity, Sig.exactArgs, hzip, forwardable, List.length_map, decide_true,
    Bool.true_and, List.all_map]
  simp [addRvalueRef_asArgument]

lemma positions_exact :
    positions s t s.exactArgs = (s.args.zip t.args).map fun p => (p.1.asArgument.addRvalueRef, p) := by
  have hzip : ∀ l m : List QType, (l.map QType.asArgument).zip (l.zip m) =
      (l.zip m).map fun p => (p.1.asArgument, p) := by
    intro l
    induction l with
    | nil => intro m; rfl
    | cons a l ih =>
      intro m
      cases m with
      | nil => rfl
      | cons b m => simp [ih]
  rw [positions, Sig.exactArgs, hzip, List.map_map]
  rfl

lemma exists_position (hst : OtherParameters s t) (harity : s.arity = t.arity) :
    ∃ p ∈ s.args.zip t.args, p.1.removeCvref ≠ p.2.removeCvref := by
  by_contra hall
  push Not at hall
  refine hst (List.ext_getElem (by simpa [Sig.arity] using harity) fun i hi hj => ?_)
  simp only [List.length_map] at hi hj
  have hp := hall (s.args[i], t.args[i])
    (List.mem_iff_getElem.mpr ⟨i, by rw [List.length_zip]; omega, by simp⟩)
  simpa using hp

/-- The ranks of the signature are all 0, and one of the others' is not. -/
theorem beats_exact (hs : forwardable P s = true) (ht : viable P t s.exactArgs = true)
    (hst : OtherParameters s t) : Beats P s.exactArgs s t := by
  have harity : s.arity = t.arity := by
    rw [arity_of_viable ht, Sig.exactArgs, List.length_map, Sig.arity]
  refine Or.inl ((betterThan_iff (viable_exact.mpr hs) ht).mpr ?_)
  rw [positions_exact]
  constructor
  · intro p hp
    obtain ⟨q, -, rfl⟩ := List.mem_map.mp hp
    rw [rank_exact]
    exact Nat.zero_le _
  · obtain ⟨q, hq, hne⟩ := exists_position hst harity
    refine ⟨_, List.mem_map_of_mem hq, ?_⟩
    rw [rank_exact]
    exact rank_pos hne

/-! ### The signature is selected -/

lemma nodup_of_others (h : sigs.Pairwise OtherParameters) : sigs.Nodup :=
  h.imp fun hst e => hst (by rw [e])

lemma others_of_ne (h : sigs.Pairwise OtherParameters) (hs : s ∈ sigs) (ht : t ∈ sigs)
    (hne : t ≠ s) : OtherParameters s t :=
  h.forall hs ht hne.symm

/-- **When an exact match is selected.** Among signatures whose parameters differ after
`remove_cvref`, in whatever order, a signature is selected for the arguments that are exactly its
parameters if and only if these have a common type. -/
theorem exact_selected_iff (h : sigs.Pairwise OtherParameters) (hs : s ∈ sigs)
    (hown : forwardable P s = true) :
    bestSignatureSelector P s.exactArgs sigs = some ⟨some s, true, false⟩ ↔
      s.args = [] ∨ (commonType P (s.args.map QType.removeCvref)).isSome = true := by
  rw [selected_iff_of_top (nodup_of_others h) hs (viable_exact.mpr hown) fun t ht hv hne =>
    beats_exact hown hv (others_of_ne h hs ht hne)]
  have hargs : s.exactArgs.map QType.removeCvref = s.args.map QType.removeCvref := by
    rw [Sig.exactArgs, List.map_map]
    rfl
  rw [hargs, Sig.exactArgs, List.map_eq_nil_iff]

lemma rankAt_exact (i : ℕ) : rankAt P s.exactArgs s i = 0 := by
  have hzero : ranks P s s.exactArgs = s.args.map fun _ => 0 := by
    simp [ranks, Sig.exactArgs, List.zipWith_map_left, rank_exact]
  rw [rankAt, hzero, List.getD_eq_getElem?_getD, List.getElem?_map]
  cases s.args[i]? <;> rfl

/-- **When the signature of the exact arguments is selected.** Whatever the other signatures, where
the selector compiles, it selects the signature for the arguments that are exactly its parameters if
and only if the signature beats every other one that could take them. -/
theorem own_selected_iff (hnd : sigs.Nodup) (hs : s ∈ sigs) (hown : forwardable P s = true)
    (hinst : Instantiates P s.exactArgs sigs) :
    bestSignatureSelector P s.exactArgs sigs = some ⟨some s, true, false⟩ ↔
      ∀ t ∈ sigs, viable P t s.exactArgs = true → t ≠ s → Beats P s.exactArgs s t := by
  refine ⟨fun hsel => ?_, selected_of_top hnd hinst hs (viable_exact.mpr hown)⟩
  rw [selector_eq_scan hinst, Option.some.injEq] at hsel
  rcases hk : scan (Beats P s.exactArgs) (viableMembers P s.exactArgs sigs) with _ | k
  · rw [hk] at hsel
    cases hsel
  · obtain ⟨holder, tied⟩ := k
    rw [hk] at hsel
    simp only [ofHeld, Selection.mk.injEq, Option.some.injEq, true_and] at hsel
    obtain ⟨rfl, rfl⟩ := hsel
    have hs' := viable_of_mem (holder_mem hk)
    have hleast : ∀ u, rankAt P holder.exactArgs holder ≤ rankAt P holder.exactArgs u :=
      fun u i => (rankAt_exact i).trans_le (Nat.zero_le _)
    have htop := top_of_untied (viableMembers_nodup hnd) beats_asymm hk rfl
      (fun t ht _ hst u hu hsu => ?_) (fun t ht _ hst u hu v hv htu huv => ?_)
    · exact fun t ht hv hne => htop t (List.mem_filter.mpr ⟨ht, hv⟩) hne
    · rw [beats_iff_prefers hs' (viable_of_mem ht)] at hst
      rw [beats_iff_prefers hs' (viable_of_mem hu)] at hsu
      rw [beats_iff_prefers (viable_of_mem ht) (viable_of_mem hu)]
      exact hsu.of_least hleast hst
    · rw [beats_iff_prefers hs' (viable_of_mem ht)] at hst
      rw [beats_iff_prefers (viable_of_mem ht) (viable_of_mem hu)] at htu
      rw [beats_iff_prefers (viable_of_mem hu) (viable_of_mem hv)] at huv
      rw [beats_iff_prefers (viable_of_mem ht) (viable_of_mem hv)]
      refine htu.trans_of_least (fun w => ?_) huv
      rw [← TieBreak.score_eq_of_least hleast hst]
      exact hleast w

/-- `f(short, int)` is the exact match for a `short` and an `int`. -/
theorem exact_selected_iff_sample :
    bestSignatureSelector arithmeticOnly clearedTie[2].exactArgs clearedTie =
        some ⟨some clearedTie[2], true, false⟩ ↔
      clearedTie[2].args = [] ∨
        (commonType arithmeticOnly (clearedTie[2].args.map QType.removeCvref)).isSome = true :=
  exact_selected_iff (by decide) (by decide) (by decide)

/-- `f(int, C)` is not selected for an `int` and a `C`, which have no common type. -/
theorem exact_not_selected :
    ¬ ∀ (P : Program) (sigs : List Sig) (s : Sig), sigs.Pairwise OtherParameters → s ∈ sigs →
      forwardable P s = true →
      bestSignatureSelector P s.exactArgs sigs = some ⟨some s, true, false⟩ := by
  intro h
  have hsel := h valueClass withClass withClass[0] (by decide) (by decide) (by decide)
  exact absurd hsel (by decide)

end FunctionWrapper.ExactMatch
