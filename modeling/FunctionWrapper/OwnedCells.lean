import Mathlib.Logic.Function.Basic
import Mathlib.Data.List.Nodup
import Mathlib.Tactic.Common

/-!
Cells that hold objects, and owners that hold cells.

Every object gets a number when it is put into a cell, and the numbers of the objects that have
been ended are listed, so that a forgotten or a twice ended object can be told from the numbers.
The cells are `Sound` when each number that was given out and not ended is in exactly one cell, and
`OwnedBy` says that the occupied cells are in bijection with the owners that point to one.
-/

namespace OwnedCells

structure Cells (κ α : Type*) where
  cell : κ → Option (ℕ × α)
  born : ℕ
  ended : List ℕ

variable {ι κ α : Type*} [DecidableEq ι] [DecidableEq κ]

namespace Cells

def init : Cells κ α := ⟨fun _ => none, 0, []⟩

def get (C : Cells κ α) (k : κ) : Option α := (C.cell k).map Prod.snd

def put (C : Cells κ α) (k : κ) (a : α) : Cells κ α :=
  { C with cell := Function.update C.cell k (some (C.born, a)), born := C.born + 1 }

def drop (C : Cells κ α) (k : κ) : Cells κ α :=
  match C.cell k with
  | none => C
  | some (i, _) => { C with cell := Function.update C.cell k none, ended := i :: C.ended }

/-- The cell is used for something else while its object has not ended. -/
def forget (C : Cells κ α) (k : κ) : Cells κ α :=
  { C with cell := Function.update C.cell k none }

def write (C : Cells κ α) (k : κ) (a : α) : Cells κ α :=
  match C.cell k with
  | none => C
  | some (i, _) => { C with cell := Function.update C.cell k (some (i, a)) }

variable (C : Cells κ α)

lemma get_put (k : κ) (a : α) : (C.put k a).get = Function.update C.get k (some a) := by
  funext l
  by_cases h : l = k
  · subst h; simp [get, put]
  · simp [get, put, h]

lemma get_drop (k : κ) : (C.drop k).get = Function.update C.get k none := by
  funext l
  by_cases h : l = k
  · subst h
    rcases e : C.cell l with _ | ⟨i, a⟩ <;> simp [get, drop, e]
  · rcases e : C.cell k with _ | ⟨i, a⟩ <;> simp [get, drop, e, h]

lemma get_forget (k : κ) : (C.forget k).get = Function.update C.get k none := by
  funext l
  by_cases h : l = k
  · subst h; simp [get, forget]
  · simp [get, forget, h]

lemma get_write {k : κ} {b : α} (hk : C.get k = some b) (a : α) :
    (C.write k a).get = Function.update C.get k (some a) := by
  obtain ⟨⟨i, b⟩, hi, -⟩ := Option.map_eq_some_iff.mp hk
  funext l
  by_cases h : l = k
  · subst h; simp [get, write, hi]
  · simp [get, write, hi, h]

/-- Every number that was given out has ended once or is in one cell. -/
structure Sound : Prop where
  alive : ∀ k i a, C.cell k = some (i, a) → i < C.born ∧ i ∉ C.ended
  inj : ∀ k l i a b, C.cell k = some (i, a) → C.cell l = some (i, b) → k = l
  kept : ∀ i, i < C.born → i ∉ C.ended → ∃ k a, C.cell k = some (i, a)
  ended_lt : ∀ i ∈ C.ended, i < C.born
  nodup : C.ended.Nodup

omit [DecidableEq κ] in
lemma sound_init : (init : Cells κ α).Sound where
  alive _ _ _ h := by cases h
  inj _ _ _ _ _ h := by cases h
  kept i h := absurd h (by simp [init])
  ended_lt i h := by cases h
  nodup := List.nodup_nil

variable {C}

lemma Sound.put (h : C.Sound) {k : κ} (hk : C.get k = none) (a : α) : (C.put k a).Sound := by
  have hcell : C.cell k = none := by simpa [get] using hk
  refine ⟨fun l i b hl => ?_, fun l m i b c hl hm => ?_, fun i hi hne => ?_, fun i hi => ?_, h.nodup⟩
  · by_cases e : l = k
    · subst e
      obtain ⟨rfl, -⟩ : C.born = i ∧ a = b := by simpa [Cells.put] using hl
      exact ⟨Nat.lt_succ_self _, fun hmem => absurd (h.ended_lt _ hmem) (Nat.lt_irrefl _)⟩
    · have hl' : C.cell l = some (i, b) := by simpa [Cells.put, e] using hl
      exact ⟨Nat.lt_succ_of_lt (h.alive l i b hl').1, (h.alive l i b hl').2⟩
  · -- the new number is larger than every number in use
    have hold : ∀ l b, l ≠ k → (C.put k a).cell l = some (i, b) → C.cell l = some (i, b) := by
      intro l b e hl
      simpa [Cells.put, e] using hl
    have hnew : ∀ b, (C.put k a).cell k = some (i, b) → i = C.born := by
      intro b hl
      obtain ⟨e, -⟩ : C.born = i ∧ a = b := by simpa [Cells.put] using hl
      exact e.symm
    by_cases el : l = k <;> by_cases em : m = k
    · rw [el, em]
    · subst el
      have hlt := (h.alive m i c (hold m c em hm)).1
      have := hnew b hl
      omega
    · subst em
      have hlt := (h.alive l i b (hold l b el hl)).1
      have := hnew c hm
      omega
    · exact h.inj l m i b c (hold l b el hl) (hold m c em hm)
  · by_cases e : i = C.born
    · subst e
      exact ⟨k, a, by simp [Cells.put]⟩
    · have hlt : i < C.born := by
        have : i < C.born + 1 := hi
        omega
      obtain ⟨l, b, hl⟩ := h.kept i hlt hne
      refine ⟨l, b, ?_⟩
      have hlk : l ≠ k := fun e' => by simp [← e', hl] at hcell
      simpa [Cells.put, hlk] using hl
  · exact Nat.lt_succ_of_lt (h.ended_lt i hi)

lemma Sound.drop (h : C.Sound) (k : κ) : (C.drop k).Sound := by
  rcases hk : C.cell k with _ | ⟨j, a⟩
  · simpa [Cells.drop, hk] using h
  · have hd : C.drop k = { C with cell := Function.update C.cell k none, ended := j :: C.ended } := by
      simp [Cells.drop, hk]
    have hj := h.alive k j a hk
    have hother : ∀ l i b, (C.drop k).cell l = some (i, b) → l ≠ k ∧ C.cell l = some (i, b) := by
      intro l i b hl
      by_cases e : l = k
      · subst e; simp [hd] at hl
      · exact ⟨e, by simpa [hd, e] using hl⟩
    refine ⟨fun l i b hl => ?_, fun l m i b c hl hm => ?_, fun i hi hne => ?_, fun i hi => ?_, ?_⟩
    · obtain ⟨hlk, hl'⟩ := hother l i b hl
      refine ⟨by simpa [hd] using (h.alive l i b hl').1, ?_⟩
      rw [hd, List.mem_cons, not_or]
      exact ⟨fun e => hlk (h.inj l k i b a hl' (e ▸ hk)), (h.alive l i b hl').2⟩
    · exact h.inj l m i b c (hother l i b hl).2 (hother m i c hm).2
    · rw [hd, List.mem_cons, not_or] at hne
      obtain ⟨l, b, hl⟩ := h.kept i (by simpa [hd] using hi) hne.2
      have hlk : l ≠ k := by
        rintro rfl
        rw [hk] at hl
        exact hne.1 (Prod.mk.inj (Option.some.inj hl)).1.symm
      exact ⟨l, b, by simpa [hd, hlk] using hl⟩
    · rw [hd, List.mem_cons] at hi
      rw [hd]
      rcases hi with rfl | hi
      · exact hj.1
      · exact h.ended_lt i hi
    · rw [hd]
      exact List.nodup_cons.mpr ⟨hj.2, h.nodup⟩

lemma Sound.write (h : C.Sound) (k : κ) (a : α) : (C.write k a).Sound := by
  rcases hk : C.cell k with _ | ⟨j, b⟩
  · simpa [Cells.write, hk] using h
  · have hw : C.write k a = { C with cell := Function.update C.cell k (some (j, a)) } := by
      simp [Cells.write, hk]
    -- the numbers in the cells are the same as before
    have hback : ∀ l i c, (C.write k a).cell l = some (i, c) → ∃ d, C.cell l = some (i, d) := by
      intro l i c hl
      by_cases e : l = k
      · subst e
        obtain ⟨rfl, -⟩ : j = i ∧ a = c := by simpa [hw] using hl
        exact ⟨b, hk⟩
      · exact ⟨c, by simpa [hw, e] using hl⟩
    refine ⟨fun l i c hl => ?_, fun l m i c d hl hm => ?_, fun i hi hne => ?_, ?_, ?_⟩
    · obtain ⟨d, hd⟩ := hback l i c hl
      simpa [hw] using h.alive l i d hd
    · obtain ⟨c', hc'⟩ := hback l i c hl
      obtain ⟨d', hd'⟩ := hback m i d hm
      exact h.inj l m i c' d' hc' hd'
    · obtain ⟨l, c, hl⟩ := h.kept i (by simpa [hw] using hi) (by simpa [hw] using hne)
      by_cases e : l = k
      · subst e
        obtain ⟨rfl, -⟩ : j = i ∧ b = c := by simpa [hk] using hl
        exact ⟨l, a, by simp [hw]⟩
      · exact ⟨l, c, by simpa [hw, e] using hl⟩
    · simpa [hw] using h.ended_lt
    · simpa [hw] using h.nodup

/-! ### Ownership -/

variable (C) in
/-- The owners that point to a cell are in bijection with the occupied cells. -/
structure OwnedBy (own : ι → Option κ) : Prop where
  occupied : ∀ i k, own i = some k → C.get k ≠ none
  unique : ∀ i j k, own i = some k → own j = some k → i = j
  owner : ∀ k, C.get k ≠ none → ∃ i, own i = some k

omit [DecidableEq ι] [DecidableEq κ] in
lemma ownedBy_init : (init : Cells κ α).OwnedBy fun _ : ι => none where
  occupied _ _ h := by cases h
  unique _ _ _ h := by cases h
  owner k h := absurd rfl h

variable {own : ι → Option κ}

lemma OwnedBy.put (h : C.OwnedBy own) {i : ι} {k : κ} (hi : own i = none) (hk : C.get k = none)
    (a : α) : (C.put k a).OwnedBy (Function.update own i (some k)) := by
  have hfree : ∀ j, own j ≠ some k := fun j hj => h.occupied j k hj hk
  refine ⟨fun j l hj => ?_, fun j m l hj hm => ?_, fun l hl => ?_⟩
  · rw [get_put]
    by_cases e : l = k
    · simp [e]
    · have hji : j ≠ i := by
        rintro rfl
        rw [Function.update_self] at hj
        exact e (Option.some.inj hj).symm
      rw [Function.update_of_ne hji] at hj
      rw [Function.update_of_ne e]
      exact h.occupied j l hj
  · by_cases ej : j = i <;> by_cases em : m = i
    · rw [ej, em]
    · subst ej
      rw [Function.update_self] at hj
      rw [Function.update_of_ne em, ← hj] at hm
      exact absurd hm (hfree m)
    · subst em
      rw [Function.update_self] at hm
      rw [Function.update_of_ne ej, ← hm] at hj
      exact absurd hj (hfree j)
    · rw [Function.update_of_ne ej] at hj
      rw [Function.update_of_ne em] at hm
      exact h.unique j m l hj hm
  · by_cases e : l = k
    · exact ⟨i, by rw [e, Function.update_self]⟩
    · rw [get_put, Function.update_of_ne e] at hl
      obtain ⟨j, hj⟩ := h.owner l hl
      have hji : j ≠ i := fun e' => by simp [e', hi] at hj
      exact ⟨j, by rw [Function.update_of_ne hji, hj]⟩

lemma OwnedBy.drop (h : C.OwnedBy own) {i : ι} {k : κ} (hi : own i = some k) :
    (C.drop k).OwnedBy (Function.update own i none) := by
  have hother : ∀ j l, Function.update own i none j = some l → j ≠ i ∧ own j = some l ∧ l ≠ k := by
    intro j l hj
    by_cases e : j = i
    · subst e
      rw [Function.update_self] at hj
      cases hj
    · rw [Function.update_of_ne e] at hj
      refine ⟨e, hj, ?_⟩
      rintro rfl
      exact e (h.unique j i l hj hi)
  refine ⟨fun j l hj => ?_, fun j m l hj hm => ?_, fun l hl => ?_⟩
  · obtain ⟨-, hj', hlk⟩ := hother j l hj
    rw [get_drop, Function.update_of_ne hlk]
    exact h.occupied j l hj'
  · exact h.unique j m l (hother j l hj).2.1 (hother m l hm).2.1
  · rw [get_drop] at hl
    have hlk : l ≠ k := fun e => hl (by rw [e, Function.update_self])
    rw [Function.update_of_ne hlk] at hl
    obtain ⟨j, hj⟩ := h.owner l hl
    have hji : j ≠ i := by
      rintro rfl
      exact hlk (Option.some.inj (hj.symm.trans hi))
    exact ⟨j, by rw [Function.update_of_ne hji, hj]⟩

lemma OwnedBy.handOver (h : C.OwnedBy own) {i j : ι} {k : κ} (hi : own i = some k)
    (hj : own j = none) :
    C.OwnedBy (Function.update (Function.update own i none) j (some k)) := by
  have hij : i ≠ j := fun e => by simp [e, hj] at hi
  have hback : ∀ m l, Function.update (Function.update own i none) j (some k) m = some l →
      (m = j ∧ l = k) ∨ (m ≠ j ∧ m ≠ i ∧ own m = some l) := by
    intro m l hm
    by_cases ej : m = j
    · subst ej
      rw [Function.update_self] at hm
      exact Or.inl ⟨rfl, (Option.some.inj hm).symm⟩
    · rw [Function.update_of_ne ej] at hm
      by_cases ei : m = i
      · subst ei
        rw [Function.update_self] at hm
        cases hm
      · rw [Function.update_of_ne ei] at hm
        exact Or.inr ⟨ej, ei, hm⟩
  refine ⟨fun m l hm => ?_, fun m n l hm hn => ?_, fun l hl => ?_⟩
  · rcases hback m l hm with ⟨-, rfl⟩ | ⟨-, -, hm'⟩
    · exact h.occupied i l hi
    · exact h.occupied m l hm'
  · rcases hback m l hm with ⟨rfl, hl⟩ | ⟨-, hmi, hm'⟩ <;>
      rcases hback n l hn with ⟨rfl, hl'⟩ | ⟨-, hni, hn'⟩
    · rfl
    · exact absurd (h.unique n i l hn' (hl ▸ hi)) hni
    · exact absurd (h.unique m i l hm' (hl' ▸ hi)) hmi
    · exact h.unique m n l hm' hn'
  · obtain ⟨m, hm⟩ := h.owner l hl
    by_cases e : l = k
    · exact ⟨j, by rw [Function.update_self, e]⟩
    · have hmi : m ≠ i := fun e' => e (Option.some.inj ((e' ▸ hm).symm.trans hi))
      have hmj : m ≠ j := fun e' => by simp [e', hj] at hm
      exact ⟨m, by rw [Function.update_of_ne hmj, Function.update_of_ne hmi, hm]⟩

omit [DecidableEq ι] in
lemma OwnedBy.write (h : C.OwnedBy own) {k : κ} {b : α} (hk : C.get k = some b) (a : α) :
    (C.write k a).OwnedBy own := by
  have hsame : ∀ l, (C.write k a).get l ≠ none ↔ C.get l ≠ none := by
    intro l
    rw [get_write C hk]
    by_cases e : l = k
    · subst e; simp [hk]
    · rw [Function.update_of_ne e]
  refine ⟨fun i l hi => (hsame l).mpr (h.occupied i l hi), h.unique, fun l hl => ?_⟩
  exact h.owner l ((hsame l).mp hl)

omit [DecidableEq ι] [DecidableEq κ] in
/-- **Nothing is left.** When no owner points to a cell, every object that was put has ended. -/
theorem all_ended (hs : C.Sound) (ho : C.OwnedBy own) (hnone : ∀ i, own i = none) {i : ℕ}
    (hi : i < C.born) : i ∈ C.ended := by
  by_contra hne
  obtain ⟨k, a, hk⟩ := hs.kept i hi hne
  obtain ⟨j, hj⟩ := ho.owner k (by simp [get, hk])
  simp [hnone j] at hj

end Cells

end OwnedCells
