import Mathlib.Order.WellFoundedSet
import Mathlib.Tactic.Common

/-!
Preference by a score, with a mark that breaks ties.

An element is preferred for a smaller score, or, where neither score is smaller, for a mark that the
other has not. The scores are partially ordered, so that most pairs are ties, and the preference is
not transitive. It has no cycles if the scores of the marked elements are comparable: every
preference then points upwards in a strict order that this module constructs.
-/

namespace TieBreak

variable {α β : Type*} [PartialOrder β] (score : α → β) (Marked : α → Prop)

def Prefers (x y : α) : Prop :=
  score x < score y ∨ (¬ score x < score y ∧ ¬ score y < score x ∧ Marked x ∧ ¬ Marked y)

/-- The scores of the marked elements are comparable. -/
def MarkedChain : Prop := ∀ x y, Marked x → Marked y → score x ≤ score y ∨ score y ≤ score x

/-- Some marked score lies strictly above the first element and not above the second. -/
def Separated (x y : α) : Prop := ∃ n, Marked n ∧ score x < score n ∧ ¬ score y < score n

/-- The strict order: a marked element stands above everything that is not better, and unmarked
elements may be separated by a marked one. -/
inductive Above : α → α → Prop
  | marked {x y : α} (hy : Marked y) (h : score x < score y) : Above x y
  | tie {x y : α} (hx : Marked x) (hy : ¬ Marked y) (h : ¬ score y < score x) : Above x y
  | better {x y : α} (hx : ¬ Marked x) (hy : ¬ Marked y) (h : score x < score y) : Above x y
  | separated {x y : α} (hx : ¬ Marked x) (hy : ¬ Marked y) (h : Separated score Marked x y) :
      Above x y

variable {score Marked} {x y z : α}

lemma Prefers.above (h : Prefers score Marked x y) : Above score Marked x y := by
  rcases h with h | ⟨-, hn, hx, hy⟩
  · by_cases hy : Marked y
    · exact .marked hy h
    · by_cases hx : Marked x
      · exact .tie hx hy h.not_gt
      · exact .better hx hy h
  · exact .tie hx hy hn

lemma above_irrefl (x : α) : ¬ Above score Marked x x := by
  intro h
  cases h with
  | marked _ h => exact lt_irrefl _ h
  | tie hx hy _ => exact hy hx
  | better _ _ h => exact lt_irrefl _ h
  | separated _ _ h =>
    obtain ⟨n, -, h, hn⟩ := h
    exact hn h

/-- What is below a marked element keeps below what is not under it. -/
lemma MarkedChain.lt_of_lt (hm : MarkedChain score Marked) (hx : Marked x) (hz : Marked z)
    {b : β} (hb : b < score z) (hn : ¬ b < score x) : score x < score z := by
  rcases hm x z hx hz with h | h
  · refine lt_of_le_of_ne h fun e => hn ?_
    rw [e]
    exact hb
  · exact absurd (hb.trans_le h) hn

lemma above_marked (hm : MarkedChain score Marked) (hz : Marked z) (hxy : Above score Marked x y)
    (hyz : score y < score z) : score x < score z := by
  cases hxy with
  | marked _ h => exact h.trans hyz
  | tie hx _ h => exact hm.lt_of_lt hx hz hyz h
  | better _ _ h => exact h.trans hyz
  | separated _ _ h =>
    obtain ⟨n, hn, hxn, hyn⟩ := h
    exact hxn.trans (hm.lt_of_lt hn hz hyz hyn)

lemma Separated.trans (hm : MarkedChain score Marked) (hxy : Separated score Marked x y)
    (hyz : Separated score Marked y z) : Separated score Marked x z := by
  obtain ⟨n, hn, hxn, hyn⟩ := hxy
  obtain ⟨m, hm', hym, hzm⟩ := hyz
  exact ⟨m, hm', hxn.trans (hm.lt_of_lt hn hm' hym hyn), hzm⟩

theorem above_trans (hm : MarkedChain score Marked) (hxy : Above score Marked x y)
    (hyz : Above score Marked y z) : Above score Marked x z := by
  cases hyz with
  | marked hz h => exact .marked hz (above_marked hm hz hxy h)
  | tie hy hz h =>
    have hlt : score x < score y := by
      cases hxy with
      | marked _ h' => exact h'
      | tie _ hny _ | better _ hny _ | separated _ hny _ => exact absurd hy hny
    by_cases hx : Marked x
    · exact .tie hx hz fun hzx => h (hzx.trans hlt)
    · exact .separated hx hz ⟨y, hy, hlt, h⟩
  | better hy hz h =>
    cases hxy with
    | marked hy' _ => exact absurd hy' hy
    | tie hx _ h' => exact .tie hx hz fun hzx => h' (h.trans hzx)
    | better hx _ h' => exact .better hx hz (h'.trans h)
    | separated hx _ h' =>
      obtain ⟨n, hn, hxn, hyn⟩ := h'
      exact .separated hx hz ⟨n, hn, hxn, fun hzn => hyn (h.trans hzn)⟩
  | separated hy hz h =>
    cases hxy with
    | marked hy' _ => exact absurd hy' hy
    | tie hx _ h' =>
      obtain ⟨n, hn, hyn, hzn⟩ := h
      exact .tie hx hz fun hzx => hzn (hzx.trans (hm.lt_of_lt hx hn hyn h'))
    | better hx _ h' =>
      obtain ⟨n, hn, hyn, hzn⟩ := h
      exact .separated hx hz ⟨n, hn, h'.trans hyn, hzn⟩
    | separated hx _ h' => exact .separated hx hz (h'.trans hm h)

lemma isStrictOrder_above (hm : MarkedChain score Marked) :
    IsStrictOrder α (Above score Marked) where
  irrefl := above_irrefl
  trans _ _ _ := above_trans hm

/-! ### Preference -/

/-- **Preference has no cycles.** -/
theorem not_transGen_prefers (hm : MarkedChain score Marked) (x : α) :
    ¬ Relation.TransGen (Prefers score Marked) x x := by
  intro h
  have habove : ∀ y, Relation.TransGen (Prefers score Marked) x y → Above score Marked x y := by
    intro y hy
    induction hy with
    | single h => exact h.above
    | tail _ h ih => exact above_trans hm ih h.above
  exact above_irrefl x (habove x h)

/-- **Of finitely many elements there is one that no other is preferred to.** -/
theorem exists_not_prefers (hm : MarkedChain score Marked) {s : Set α} (hfin : s.Finite)
    (hne : s.Nonempty) : ∃ x ∈ s, ∀ y ∈ s, ¬ Prefers score Marked y x := by
  have := isStrictOrder_above hm
  obtain ⟨a, ha⟩ := hne
  have hwf : s.WellFoundedOn (Above score Marked) := hfin.wellFoundedOn
  obtain ⟨⟨x, hx⟩, -, hmin⟩ := hwf.has_min Set.univ ⟨⟨a, ha⟩, trivial⟩
  exact ⟨x, hx, fun y hy h => hmin ⟨y, hy⟩ trivial h.above⟩

/-- Only another element of the least score is not less preferred than one. -/
lemma score_eq_of_least (hx : ∀ a, score x ≤ score a) (hxy : ¬ Prefers score Marked x y) :
    score x = score y :=
  eq_of_le_of_not_lt (hx y) fun hlt => hxy (.inl hlt)

lemma Prefers.of_least (hx : ∀ a, score x ≤ score a) (hxy : ¬ Prefers score Marked x y)
    (h : Prefers score Marked x z) : Prefers score Marked y z := by
  have heq := score_eq_of_least hx hxy
  rcases h with h | ⟨h₁, h₂, hmx, hmz⟩
  · exact .inl (heq ▸ h)
  · have hmy : Marked y := by
      by_contra hn
      exact hxy (.inr ⟨heq.not_lt, heq.symm.not_lt, hmx, hn⟩)
    exact .inr ⟨heq ▸ h₁, heq ▸ h₂, hmy, hmz⟩

lemma Prefers.trans_of_least {w : α} (hy : ∀ a, score y ≤ score a)
    (h : Prefers score Marked y z) (hzw : Prefers score Marked z w) : Prefers score Marked y w := by
  by_cases hlt : score y < score w
  · exact .inl hlt
  · have heq : score y = score w := eq_of_le_of_not_lt (hy w) hlt
    rcases hzw with hzw | ⟨-, hwz, hmz, -⟩
    · exact absurd hzw (heq ▸ (hy z).not_gt)
    · rcases h with h | ⟨-, -, -, hnz⟩
      · exact absurd (heq ▸ h) hwz
      · exact absurd hmz hnz

/-- Where the scores are comparable, preference ranks the elements in levels. -/
lemma Prefers.split {x y z : α} (hxy : score x ≤ score y ∨ score y ≤ score x)
    (hyz : score y ≤ score z ∨ score z ≤ score y) (hxz : score x ≤ score z ∨ score z ≤ score x)
    (h : Prefers score Marked x z) : Prefers score Marked x y ∨ Prefers score Marked y z := by
  have hle : ∀ {a b : β}, a ≤ b ∨ b ≤ a → ¬ a < b → b ≤ a := fun hab hn =>
    hab.elim (fun h => (eq_of_le_of_not_lt h hn).ge) id
  by_cases hlt : score x < score y
  · exact .inl (.inl hlt)
  by_cases hlt' : score y < score z
  · exact .inr (.inl hlt')
  have hyx := hle hxy hlt
  have hzy := hle hyz hlt'
  rcases h with h | ⟨-, hn, hx, hz⟩
  · exact absurd h (hzy.trans hyx).not_gt
  · -- the three scores are equal, and the mark decides
    have hxz := hle hxz.symm hn
    by_cases hy : Marked y
    · exact .inr (.inr ⟨hlt', (hyx.trans hxz).not_gt, hy, hz⟩)
    · exact .inl (.inr ⟨hlt, (hxz.trans hzy).not_gt, hx, hy⟩)

end TieBreak
