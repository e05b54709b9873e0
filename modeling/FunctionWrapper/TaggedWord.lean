import Mathlib.Data.BitVec
import Mathlib.Tactic.Common

/-!
Words that carry an aligned address and a few tag bits below it.

`m` masks the tag bits. An address has none of them set, a tag has no others, and either part can be
read back from the word that joins them.
-/

namespace TaggedWord

variable {w : ℕ}

/-- No bit of the address lies under the mask. -/
def Aligned (m a : BitVec w) : Prop := a &&& m = 0#w

/-- Every bit of the tag lies under the mask. -/
def Under (m t : BitVec w) : Prop := t &&& m = t

instance (m t : BitVec w) : Decidable (Under m t) := inferInstanceAs (Decidable (t &&& m = t))

variable {m a t b : BitVec w}

lemma Aligned.and_of_under (ha : Aligned m a) (hb : Under m b) : a &&& b = 0#w := by
  unfold Under at hb
  rw [← hb, BitVec.and_comm b m, ← BitVec.and_assoc, ha, BitVec.zero_and]

lemma and_or_right (x y z : BitVec w) : (x ||| y) &&& z = x &&& z ||| y &&& z := by
  ext i hi
  simp [Bool.and_or_distrib_right]

theorem address_join (ha : Aligned m a) (ht : Under m t) : (a ||| t) &&& ~~~ m = a := by
  ext i hi
  have h1 : (a[i] && m[i]) = false := by
    have h := congrArg (fun x : BitVec w => x[i]) ha
    simpa only [BitVec.getElem_and, BitVec.getElem_zero] using h
  have h2 : (t[i] && m[i]) = t[i] := by
    have h := congrArg (fun x : BitVec w => x[i]) ht
    simpa only [BitVec.getElem_and] using h
  have key : ∀ x y z : Bool, (x && z) = false → (y && z) = y → ((x || y) && !z) = x := by decide
  simp only [BitVec.getElem_and, BitVec.getElem_or, BitVec.getElem_not]
  exact key _ _ _ h1 h2

theorem tag_join (ha : Aligned m a) (hb : Under m b) : (a ||| t) &&& b = t &&& b := by
  rw [and_or_right, ha.and_of_under hb, BitVec.zero_or]

lemma address_bare (ha : Aligned m a) : a &&& ~~~ m = a := by
  have h := address_join ha (t := 0#w) (by simp [Under])
  simpa using h

end TaggedWord
