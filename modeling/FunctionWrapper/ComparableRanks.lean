import FunctionWrapper.OverloadSelection
import FunctionWrapper.PreferenceOrder

/-!
Calls whose candidates have comparable ranks.

The preference then ranks the candidates in levels, and what the selector forgets when a signature
takes over is of a lower level. Candidates that differ in one parameter have comparable ranks, and so
have all candidates of a call with one argument.
-/

namespace FunctionWrapper.ComparableRanks

open FunctionWrapper.Types FunctionWrapper.Traits FunctionWrapper.Rank FunctionWrapper.Signatures
open FunctionWrapper.Selector FunctionWrapper.OverloadSelection FunctionWrapper.PreferenceOrder
open OnePass
open scoped List

variable (P : Program) (CallArgs : List QType)

/-- The ranks of every two viable candidates are comparable. -/
def Comparable (sigs : List Sig) : Prop :=
  ∀ s ∈ viableMembers P CallArgs sigs, ∀ t ∈ viableMembers P CallArgs sigs,
    rankAt P CallArgs s ≤ rankAt P CallArgs t ∨ rankAt P CallArgs t ≤ rankAt P CallArgs s

/-- The signature is viable and beats every other viable one. -/
def BeatsAll (sigs : List Sig) (s : Sig) : Prop :=
  viable P s CallArgs = true ∧ ∀ t ∈ sigs, viable P t CallArgs = true → t ≠ s → Beats P CallArgs s t

/-- What the callers of a list of signatures rely on. -/
structure Decided (sigs : List Sig) : Prop where
  sound : SoundFor P CallArgs sigs
  orderIndependent : OrderIndependent P CallArgs sigs
  /-- Only calls without a signature that beats the others are ambiguous. -/
  unambiguous : ∀ r, bestSignatureSelector P CallArgs sigs = some r → r.found = true →
    (r.ambiguous = false ↔ ∃ s ∈ sigs, BeatsAll P CallArgs sigs s)

/-- The parameter lists are the same without the parameter at some place. -/
def DifferInOne (s t : Sig) : Prop := ∃ i, s.args.eraseIdx i = t.args.eraseIdx i

variable {P CallArgs} {sigs : List Sig} {s t : Sig}

lemma levelled_of_comparable (h : Comparable P CallArgs sigs) :
    Levelled (Beats P CallArgs) (viableMembers P CallArgs sigs) := by
  intro s hs t ht u hu hsu
  have hs' := viable_of_mem hs
  have ht' := viable_of_mem ht
  have hu' := viable_of_mem hu
  rw [beats_iff_prefers hs' hu'] at hsu
  rw [beats_iff_prefers hs' ht', beats_iff_prefers ht' hu']
  exact hsu.split (h s hs t ht) (h t ht u hu) (h s hs u hu)

lemma top_viable_iff : (∃ s ∈ viableMembers P CallArgs sigs,
      Top (Beats P CallArgs) (viableMembers P CallArgs sigs) s) ↔
    ∃ s ∈ sigs, BeatsAll P CallArgs sigs s := by
  simp only [viableMembers, List.mem_filter, OnePass.Top, BeatsAll, and_imp, and_assoc]

/-- **Where the ranks are comparable, the selection is decided by the preference.** -/
theorem decided_of_comparable (hnd : sigs.Nodup) (h : Comparable P CallArgs sigs) :
    Decided P CallArgs sigs := by
  have hlev := levelled_of_comparable h
  have hnd' : (viableMembers P CallArgs sigs).Nodup := viableMembers_nodup hnd
  by_cases hi : Instantiates P CallArgs sigs
  · refine ⟨?_, fun sigs' hp => ?_, fun r hr hfound => ?_⟩
    · rw [soundFor_iff_untied hi]
      exact fun k hk hun => (scan_of_levelled hnd' beats_asymm hlev hk).2.mp hun
    · rw [report_eq_iff hi (hi.perm hp)]
      exact verdict_perm_of_levelled hnd' beats_asymm hlev (hp.filter _)
    · rw [selector_eq_scan hi] at hr
      obtain rfl := Option.some.inj hr
      rcases hk : scan (Beats P CallArgs) (viableMembers P CallArgs sigs) with _ | k
      · rw [hk] at hfound
        cases hfound
      · rw [← top_viable_iff, ← untied_iff_of_levelled hnd' beats_asymm hlev hk]
        rfl
  · have hnone := selector_eq_none hi
    refine ⟨fun r hr => ?_, fun sigs' hp => ?_, fun r hr => ?_⟩
    · rw [hnone] at hr
      cases hr
    · rw [report, report, hnone, selector_eq_none fun hi' => hi (hi'.perm hp.symm)]
    · rw [hnone] at hr
      cases hr

/-! ### One parameter -/

lemma rankAt_congr {j : ℕ} (h : s.args[j]? = t.args[j]?) :
    rankAt P CallArgs s j = rankAt P CallArgs t j := by
  simp only [rankAt, ranks, List.getD_eq_getElem?_getD, List.getElem?_zipWith, h]

lemma getElem?_of_eraseIdx {l m : List QType} {i j : ℕ} (h : l.eraseIdx i = m.eraseIdx i)
    (hj : j ≠ i) : l[j]? = m[j]? := by
  rcases Nat.lt_or_gt_of_ne hj with hlt | hgt
  · have hget := congrArg (·[j]?) h
    simpa [List.getElem?_eraseIdx, hlt] using hget
  · have hget := congrArg (·[j - 1]?) h
    have hle : ¬ j - 1 < i := by omega
    have hsucc : j - 1 + 1 = j := by omega
    simpa [List.getElem?_eraseIdx, hle, hsucc] using hget

lemma rankAt_comparable (h : DifferInOne s t) :
    rankAt P CallArgs s ≤ rankAt P CallArgs t ∨ rankAt P CallArgs t ≤ rankAt P CallArgs s := by
  obtain ⟨i, hi⟩ := h
  have heq : ∀ j, j ≠ i → rankAt P CallArgs s j = rankAt P CallArgs t j := fun j hj =>
    rankAt_congr (getElem?_of_eraseIdx hi hj)
  rcases Nat.le_total (rankAt P CallArgs s i) (rankAt P CallArgs t i) with hle | hle
  · left
    intro j
    by_cases hj : j = i
    · rwa [hj]
    · exact (heq j hj).le
  · right
    intro j
    by_cases hj : j = i
    · rwa [hj]
    · exact (heq j hj).ge

theorem decided_of_one_argument (hnd : sigs.Nodup) (hone : CallArgs.length ≤ 1) :
    Decided P CallArgs sigs := by
  refine decided_of_comparable hnd fun s hs t ht => rankAt_comparable ⟨0, ?_⟩
  have hlen : ∀ u : Sig, viable P u CallArgs = true → u.args.eraseIdx 0 = [] := by
    intro u hu
    have harity : u.args.length = CallArgs.length := arity_of_viable hu
    rcases hargs : u.args with _ | ⟨a, _ | ⟨b, l⟩⟩
    · rfl
    · rfl
    · rw [hargs, List.length_cons, List.length_cons] at harity
      omega
  rw [hlen s (viable_of_mem hs), hlen t (viable_of_mem ht)]

/-- **Candidates that differ in one parameter are decided by the preference.** The selector finds
the one that beats all others, in every order of the declaration, and is ambiguous where there is
none. -/
theorem decided_of_differInOne (hnd : sigs.Nodup) (h : ∀ s ∈ sigs, ∀ t ∈ sigs,
      viable P s CallArgs = true → viable P t CallArgs = true → DifferInOne s t) :
    Decided P CallArgs sigs :=
  decided_of_comparable hnd fun s hs t ht => rankAt_comparable <|
    h s (List.mem_filter.mp hs).1 t (List.mem_filter.mp ht).1 (viable_of_mem hs) (viable_of_mem ht)

/-- `f(long, int)`, `f(int, int)` and `f(double, int)`. -/
def onePlace : List Sig :=
  [⟨.val .void, [.val (.arith .long), .val (.arith .int)], false⟩,
   ⟨.val .void, [.val (.arith .int), .val (.arith .int)], false⟩,
   ⟨.val .void, [.val (.arith .double), .val (.arith .int)], false⟩]

theorem decided_of_differInOne_sample :
    Decided arithmeticOnly [.lref (.arith .short), .lref (.arith .long)] onePlace :=
  decided_of_differInOne (by decide) fun s hs t ht _ _ => by
    have hall : ∀ s ∈ onePlace, ∀ t ∈ onePlace, s.args.eraseIdx 0 = t.args.eraseIdx 0 := by decide
    exact ⟨0, hall s hs t ht⟩

end FunctionWrapper.ComparableRanks
