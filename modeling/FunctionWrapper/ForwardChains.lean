import Mathlib.Computability.StateTransition
import Mathlib.Data.Set.Finite.Basic
import Mathlib.Order.Preorder.Finite
import Mathlib.Tactic.Common

/-!
Chains of a partial function: where they end, when they run into a loop, and what happens to them
when the function is changed at one entry or when two entries are exchanged.
-/

namespace ForwardChains

open StateTransition Relation

variable {α : Type*} {f g : α → Option α} {a b c r q : α}

/-- The chain from an entry comes to an end. -/
inductive Ends (f : α → Option α) : α → Prop
  | stop {a : α} (h : f a = none) : Ends f a
  | go {a b : α} (h : f a = some b) (hb : Ends f b) : Ends f a

lemma Ends.next (ha : Ends f a) (h : f a = some b) : Ends f b := by
  cases ha with
  | stop hnone => cases h.symm.trans hnone
  | go hsome hb =>
    obtain rfl := Option.some.inj (hsome.symm.trans h)
    exact hb

lemma eq_of_reaches (ha : f a = none) (hab : Reaches f a b) : a = b := by
  rcases ReflTransGen.cases_head hab with rfl | ⟨c, hac, -⟩
  · rfl
  · simp [ha] at hac

lemma last_unique (hab : Reaches f a b) (hb : f b = none) (hac : Reaches f a c) (hc : f c = none) :
    b = c := by
  rcases reaches_total hab hac with hbc | hcb
  · exact eq_of_reaches hb hbc
  · exact (eq_of_reaches hc hcb).symm

variable [DecidableEq α]

end ForwardChains
