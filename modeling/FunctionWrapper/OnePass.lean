import Mathlib.Data.List.Perm.Basic
import Mathlib.Data.List.Nodup
import Mathlib.Logic.Relation
import Mathlib.Tactic.Common

/-!
One-pass selection from a list by pairwise comparison.

The list is read from its last entry to its first. The pass keeps one entry, the holder, and
one bit: whether an entry has been met that neither beats the holder nor is beaten by it since
the holder took over. Nothing is assumed of the comparison except that two entries never beat
each other, so the holder need not beat the entries it was never compared with; the results
say exactly when it does, and when the outcome depends on the order of the list.
-/

namespace OnePass

open scoped List

variable {α : Type*}

/-- The holder, and whether a comparison with it was left open. -/
structure Held (α : Type*) where
  holder : α
  tied : Bool

section Scan

variable (beats : α → α → Prop) [DecidableRel beats]

def meet (x : α) : Option (Held α) → Held α
  | none => ⟨x, false⟩
  | some h => if beats x h.holder then ⟨x, false⟩
      else ⟨h.holder, h.tied || !decide (beats h.holder x)⟩

def scan : List α → Option (Held α)
  | [] => none
  | x :: l => some (meet beats x (scan l))

@[simp] lemma scan_nil : scan beats [] = none := rfl
@[simp] lemma scan_cons (x : α) (l : List α) :
    scan beats (x :: l) = some (meet beats x (scan beats l)) := rfl

/-- What the pass reports: whether it is tied, and the holder when it is not. -/
def verdict (l : List α) : Option (Bool × Option α) :=
  (scan beats l).map fun h => (h.tied, if h.tied then none else some h.holder)

end Scan

variable (beats : α → α → Prop)

/-- The nearest entry before `y` that beats it takes over: `y :: r` and `x :: …` are the parts
of the list read when `y` and `x` become holders. -/
inductive Overtakes : List α → List α → Prop
  | mk {x y : α} {mid r : List α} (hxy : beats x y) (hmid : ∀ k ∈ mid, ¬ beats k y) :
      Overtakes (y :: r) (x :: (mid ++ y :: r))

/-- Takeovers lead from the last entry of `s` to its first. -/
def Reaches (s : List α) : Prop := ∃ z, Relation.ReflTransGen (Overtakes beats) [z] s

def Top (l : List α) (x : α) : Prop := ∀ y ∈ l, y ≠ x → beats x y

/-- A chain of entries below `x`, each beaten by the one before it, such that every entry that
`x` does not beat fails to beat some member of the chain. -/
def Bridged (l : List α) (x : α) : Prop :=
  ∃ c : List α, c ≠ [] ∧ (x :: c).Nodup ∧ c ⊆ l ∧ (x :: c).IsChain beats ∧
    ∀ y ∈ l, y ≠ x → beats x y ∨ ∃ z ∈ c, ¬ beats y z

variable {beats}

lemma reaches_singleton (z : α) : Reaches beats [z] := ⟨z, .refl⟩

variable [DecidableRel beats]

/-- Entries that do not beat the holder leave it in place. -/
lemma scan_append {s : List α} {y : α} {b : Bool} (hs : scan beats s = some ⟨y, b⟩)
    {mid : List α} (hmid : ∀ k ∈ mid, ¬ beats k y) :
    scan beats (mid ++ s) = some ⟨y, b || mid.any fun k => !decide (beats y k)⟩ := by
  induction mid with
  | nil => simpa using hs
  | cons k mid ih =>
    have hk : ¬ beats k y := hmid k (by simp)
    rw [List.cons_append, scan_cons, ih fun j hj => hmid j (by simp [hj])]
    simp only [meet, hk, if_false, List.any_cons]
    rw [Bool.or_assoc, Bool.or_comm (mid.any _)]

lemma scan_cons_of_beats {s : List α} {x y : α} {b : Bool} (hs : scan beats s = some ⟨y, b⟩)
    (hxy : beats x y) : scan beats (x :: s) = some ⟨x, false⟩ := by
  simp [hs, meet, hxy]

lemma scan_of_reaches {x : α} {post : List α} (h : Reaches beats (x :: post)) :
    scan beats (x :: post) = some ⟨x, false⟩ := by
  obtain ⟨z, hz⟩ := h
  suffices key : ∀ s, Relation.ReflTransGen (Overtakes beats) [z] s →
      ∀ y r, s = y :: r → scan beats s = some ⟨y, false⟩ from key _ hz _ _ rfl
  intro s hs
  induction hs with
  | refl =>
    rintro y r ⟨⟩
    rfl
  | tail _ hstep ih =>
    cases hstep with
    | mk hxy hmid =>
      rintro y r ⟨⟩
      exact scan_cons_of_beats (scan_append (ih _ _ rfl) hmid) hxy

/-- The list splits at the holder: takeovers lead to it, and nothing before it beats it. -/
lemma scan_split {l : List α} {h : Held α} (hl : scan beats l = some h) :
    ∃ pre post, l = pre ++ h.holder :: post ∧ Reaches beats (h.holder :: post) ∧
      ∀ k ∈ pre, ¬ beats k h.holder := by
  induction l generalizing h with
  | nil => simp at hl
  | cons a l ih =>
    rw [scan_cons, Option.some.injEq] at hl
    subst hl
    rcases hs : scan beats l with _ | g
    · have hnil : l = [] := by
        cases l with
        | nil => rfl
        | cons b l => simp at hs
      subst hnil
      exact ⟨[], [], rfl, reaches_singleton a, by simp⟩
    · obtain ⟨pre, post, rfl, ⟨z, hz⟩, hpre⟩ := ih hs
      by_cases hag : beats a g.holder
      · have e : meet beats a (some g) = ⟨a, false⟩ := by simp [meet, hag]
        rw [e]
        exact ⟨[], pre ++ g.holder :: post, rfl, ⟨z, hz.tail (.mk hag hpre)⟩, by simp⟩
      · have e : (meet beats a (some g)).holder = g.holder := by simp [meet, hag]
        rw [e]
        refine ⟨a :: pre, post, rfl, ⟨z, hz⟩, fun k hk => ?_⟩
        rcases List.mem_cons.mp hk with rfl | hk'
        · exact hag
        · exact hpre k hk'

lemma scan_of_split {x : α} {pre post : List α} (hr : Reaches beats (x :: post))
    (hpre : ∀ k ∈ pre, ¬ beats k x) :
    scan beats (pre ++ x :: post) = some ⟨x, pre.any fun k => !decide (beats x k)⟩ := by
  simpa using scan_append (scan_of_reaches hr) hpre

lemma tied_eq_false {h : Held α} {pre post : List α}
    (hl : scan beats (pre ++ h.holder :: post) = some h) (hr : Reaches beats (h.holder :: post))
    (hpre : ∀ k ∈ pre, ¬ beats k h.holder) :
    h.tied = false ↔ ∀ k ∈ pre, beats h.holder k := by
  rw [scan_of_split hr hpre, Option.some.injEq] at hl
  rw [← hl]
  simp

lemma holder_mem {l : List α} {h : Held α} (hl : scan beats l = some h) : h.holder ∈ l := by
  obtain ⟨pre, post, e, -, -⟩ := scan_split hl
  rw [e]; simp

variable (beats) in
lemma scan_ne_none {l : List α} {x : α} (hx : x ∈ l) : ∃ h, scan beats l = some h := by
  cases l with
  | nil => simp at hx
  | cons a l => exact ⟨_, rfl⟩

/-- **Completeness of one pass.** An entry that beats all others is the untied holder, wherever
it stands. -/
theorem scan_of_top {l : List α} (hl : l.Nodup) (asymm : ∀ x y, beats x y → ¬ beats y x) {x : α}
    (hx : x ∈ l) (htop : Top beats l x) : scan beats l = some ⟨x, false⟩ := by
  obtain ⟨pre, post, rfl⟩ := List.append_of_mem hx
  have hnot : x ∉ pre ++ post := by
    rw [List.nodup_middle, List.nodup_cons] at hl
    exact hl.1
  have hbeat : ∀ k ∈ pre ++ post, beats x k := fun k hk =>
    htop k (by simp only [List.mem_append, List.mem_cons] at hk ⊢; tauto)
      fun e => hnot (e ▸ hk)
  have hx' : scan beats (x :: post) = some ⟨x, false⟩ := by
    rcases hs : scan beats post with _ | ⟨y, b⟩
    · simp [hs, meet]
    · exact scan_cons_of_beats hs (hbeat y (by simp [show y ∈ post from holder_mem hs]))
  have hpre : ∀ k ∈ pre, beats x k := fun k hk => hbeat k (List.mem_append_left _ hk)
  have hun : (pre.any fun k => !decide (beats x k)) = false := by simpa using hpre
  rw [scan_append hx' fun k hk => asymm _ _ (hpre k hk), hun]
  rfl

/-! ### When the order of the list does not matter -/

omit [DecidableRel beats] in
/-- The takeovers that lead to `x` pass through a chain, and every other entry read on the way
failed to beat the chain member that was the holder then. -/
lemma chain_of_reaches (irrefl : ∀ x, ¬ beats x x) {x : α} {post : List α}
    (h : Reaches beats (x :: post)) :
    ∃ c, c.Sublist post ∧ (x :: c).IsChain beats ∧ (c = [] → post = []) ∧
      ∀ y ∈ post, ∃ z ∈ c, ¬ beats y z := by
  obtain ⟨z, hz⟩ := h
  suffices key : ∀ s, Relation.ReflTransGen (Overtakes beats) [z] s → ∀ x post, s = x :: post →
      ∃ c, c.Sublist post ∧ (x :: c).IsChain beats ∧ (c = [] → post = []) ∧
        ∀ y ∈ post, ∃ z ∈ c, ¬ beats y z from key _ hz _ _ rfl
  intro s hs
  induction hs with
  | refl =>
    rintro y r ⟨⟩
    exact ⟨[], .refl _, by simp, fun _ => rfl, by simp⟩
  | tail _ hstep ih =>
    cases hstep with
    | @mk x y mid r hxy hmid =>
      rintro x' post ⟨⟩
      obtain ⟨c, hsub, hchain, -, hc⟩ := ih y r rfl
      refine ⟨y :: c, (hsub.cons_cons y).trans (List.sublist_append_right _ _),
        List.isChain_cons_cons.mpr ⟨hxy, hchain⟩, by simp, fun k hk => ?_⟩
      rcases List.mem_append.mp hk with h1 | h1
      · exact ⟨y, by simp, hmid k h1⟩
      · rcases List.mem_cons.mp h1 with rfl | h2
        · exact ⟨k, by simp, irrefl k⟩
        · obtain ⟨w, hw, hkw⟩ := hc k h2
          exact ⟨w, by simp [hw], hkw⟩

variable (beats) in
/-- The entries of `o` placed between the members of a chain, each right before a member that it
does not beat. -/
def weave : List α → List α → List α
  | [], _ => []
  | z :: c, o => o.filter (fun y => !decide (beats y z)) ++
      z :: weave c (o.filter fun y => decide (beats y z))

lemma weave_perm (c o : List α) (h : ∀ y ∈ o, ∃ z ∈ c, ¬ beats y z) :
    weave beats c o ~ c ++ o := by
  induction c generalizing o with
  | nil =>
    have : o = [] := by
      rcases o with _ | ⟨y, o⟩
      · rfl
      · simpa using h y (by simp)
    subst this; rfl
  | cons z c ih =>
    have hrest : ∀ y ∈ o.filter (fun y => decide (beats y z)), ∃ w ∈ c, ¬ beats y w := by
      intro y hy
      simp only [List.mem_filter, decide_eq_true_eq] at hy
      obtain ⟨w, hw, hyw⟩ := h y hy.1
      rcases List.mem_cons.mp hw with rfl | hw'
      · exact absurd hy.2 hyw
      · exact ⟨w, hw', hyw⟩
    have hsplit := List.filter_append_perm (fun y => !decide (beats y z)) o
    simp only [Bool.not_not] at hsplit
    calc weave beats (z :: c) o
        ~ z :: (o.filter (fun y => !decide (beats y z)) ++
            weave beats c (o.filter fun y => decide (beats y z))) := List.perm_middle
      _ ~ z :: (o.filter (fun y => !decide (beats y z)) ++
            (c ++ o.filter fun y => decide (beats y z))) := ((ih _ hrest).append_left _).cons z
      _ ~ z :: (c ++ (o.filter (fun y => !decide (beats y z)) ++
            o.filter fun y => decide (beats y z))) := by
          refine List.Perm.cons z ?_
          rw [← List.append_assoc, ← List.append_assoc]
          exact List.perm_append_comm.append_right _
      _ ~ z :: c ++ o := (hsplit.append_left c).cons z

/-- Read from its end, the woven list hands the holder up the chain. -/
lemma scan_weave {z : α} {c : List α} (o : List α) (h : (z :: c).IsChain beats) :
    ∃ b, scan beats (weave beats (z :: c) o) = some ⟨z, b⟩ := by
  induction c generalizing z o with
  | nil =>
    have hz : scan beats [z] = some ⟨z, false⟩ := rfl
    exact ⟨_, scan_append hz fun k hk => by simpa using (List.mem_filter.mp hk).2⟩
  | cons w c ih =>
    obtain ⟨hzw, hc⟩ := List.isChain_cons_cons.mp h
    obtain ⟨b, hb⟩ := ih (o.filter fun y => decide (beats y z)) hc
    exact ⟨_, scan_append (scan_cons_of_beats hb hzw) fun k hk => by
      simpa using (List.mem_filter.mp hk).2⟩

/-- An entry that bridges its way up is the untied holder in some order. -/
lemma exists_perm_of_bridged [DecidableEq α] {l : List α} (hl : l.Nodup)
    (asymm : ∀ x y, beats x y → ¬ beats y x) {x : α} (hx : x ∈ l) (h : Bridged beats l x) :
    ∃ l', l' ~ l ∧ scan beats l' = some ⟨x, false⟩ := by
  obtain ⟨c, hne, hnd, hcl, hchain, hc⟩ := h
  obtain ⟨hxc, hcnd⟩ := List.nodup_cons.mp hnd
  -- the entries outside the chain: those `x` beats, and those that must be met earlier
  set out := l.filter (fun y => decide (y ≠ x ∧ y ∉ c)) with hout
  set met := out.filter (fun y => !decide (beats x y)) with hmet
  set rest := out.filter (fun y => decide (beats x y)) with hrest
  have hmetc : ∀ y ∈ met, ∃ z ∈ c, ¬ beats y z := by
    intro y hy
    simp only [hmet, hout, List.mem_filter, decide_eq_true_eq, Bool.not_eq_true',
      decide_eq_false_iff_not] at hy
    exact (hc y hy.1.1 hy.1.2.1).resolve_left hy.2
  have hsplit : rest ++ met ~ out := by
    have := List.filter_append_perm (fun y => decide (beats x y)) out
    simpa using this
  have hxcout : x :: c ++ out ~ l := by
    refine (List.perm_ext_iff_of_nodup ?_ hl).mpr fun y => ?_
    · refine List.Nodup.append hnd (hl.filter _) fun y hy hy' => ?_
      simp only [hout, List.mem_filter, decide_eq_true_eq] at hy'
      rcases List.mem_cons.mp hy with rfl | hyc
      · exact hy'.2.1 rfl
      · exact hy'.2.2 hyc
    · simp only [hout, List.cons_append, List.mem_cons, List.mem_append, List.mem_filter,
        decide_eq_true_eq]
      constructor
      · rintro (rfl | hyc | hy)
        · exact hx
        · exact hcl hyc
        · exact hy.1
      · intro hy
        by_cases h1 : y = x
        · exact Or.inl h1
        · by_cases h2 : y ∈ c
          · exact Or.inr (Or.inl h2)
          · exact Or.inr (Or.inr ⟨hy, h1, h2⟩)
  refine ⟨rest ++ x :: weave beats c met, ?_, ?_⟩
  · calc rest ++ x :: weave beats c met
        ~ x :: (rest ++ weave beats c met) := List.perm_middle
      _ ~ x :: (rest ++ (c ++ met)) := ((weave_perm c met hmetc).append_left _).cons x
      _ ~ x :: (c ++ (rest ++ met)) := by
          refine List.Perm.cons x ?_
          rw [← List.append_assoc, ← List.append_assoc]
          exact List.perm_append_comm.append_right _
      _ ~ x :: (c ++ out) := (hsplit.append_left c).cons x
      _ ~ l := hxcout
  · obtain ⟨z, c', rfl⟩ := List.exists_cons_of_ne_nil hne
    obtain ⟨hxz, hzc⟩ := List.isChain_cons_cons.mp hchain
    obtain ⟨b, hb⟩ := scan_weave met hzc
    have hbeat : ∀ k ∈ rest, beats x k := by
      intro k hk
      simp only [hrest, List.mem_filter, decide_eq_true_eq] at hk
      exact hk.2
    have hun : (rest.any fun k => !decide (beats x k)) = false := by simpa using hbeat
    rw [scan_append (scan_cons_of_beats hb hxz) fun k hk => asymm _ _ (hbeat k hk), hun]
    rfl

/-- An untied holder that is not at the top got there over a bridge. -/
lemma bridged_of_untied {l : List α} (hl : l.Nodup) (asymm : ∀ x y, beats x y → ¬ beats y x)
    {h : Held α} (hsc : scan beats l = some h) (hun : h.tied = false)
    (htop : ¬ Top beats l h.holder) : Bridged beats l h.holder := by
  obtain ⟨pre, post, e, hr, hpre⟩ := scan_split hsc
  have hall := (tied_eq_false (e ▸ hsc) hr hpre).mp hun
  obtain ⟨c, hsub, hchain, hnil, hc⟩ := chain_of_reaches (fun x hx => asymm x x hx hx) hr
  have hmem : ∀ y ∈ l, y ≠ h.holder → y ∈ pre ∨ y ∈ post := by
    intro y hy hne
    rw [e] at hy
    simp only [List.mem_append, List.mem_cons] at hy
    tauto
  refine ⟨c, fun hc0 => htop fun y hy hne => ?_, ?_, fun y hy => ?_, hchain, fun y hy hne => ?_⟩
  · have := hmem y hy hne
    rw [hnil hc0] at this
    exact hall y (by simpa using this)
  · rw [e] at hl
    exact (List.nodup_append.mp hl).2.1.sublist (hsub.cons_cons _)
  · rw [e]
    simp [hsub.subset hy]
  · rcases hmem y hy hne with h1 | h1
    · exact Or.inl (hall y h1)
    · exact Or.inr (hc y h1)

/-- An untied holder is at the top if every entry that it does not beat beats all that it beats,
and all that these beat in turn. -/
lemma top_of_untied {l : List α} (hl : l.Nodup) (asymm : ∀ x y, beats x y → ¬ beats y x)
    {h : Held α} (hsc : scan beats l = some h) (hun : h.tied = false)
    (hbelow : ∀ y ∈ l, y ≠ h.holder → ¬ beats h.holder y → ∀ z ∈ l, beats h.holder z → beats y z)
    (htrans : ∀ y ∈ l, y ≠ h.holder → ¬ beats h.holder y →
      ∀ z ∈ l, ∀ w ∈ l, beats y z → beats z w → beats y w) : Top beats l h.holder := by
  by_contra htop
  obtain ⟨c, hne, -, hcl, hchain, hc⟩ := bridged_of_untied hl asymm hsc hun htop
  refine htop fun y hy hyx => ?_
  by_contra hxy
  obtain ⟨z, hz, hyz⟩ := (hc y hy hyx).resolve_left hxy
  -- down the chain, `y` beats every member
  have hdown : ∀ (c : List α) (x : α), (x :: c).IsChain beats → x ∈ l → c ⊆ l → beats y x →
      ∀ z ∈ c, beats y z := by
    intro c
    induction c with
    | nil => simp
    | cons w c ih =>
      intro x hx hxl hcl hyx' z hz
      obtain ⟨hxw, hw⟩ := List.isChain_cons_cons.mp hx
      obtain ⟨hwl, hcl⟩ := List.cons_subset.mp hcl
      have hyw : beats y w := htrans y hy hyx hxy x hxl w hwl hyx' hxw
      rcases List.mem_cons.mp hz with rfl | hz
      · exact hyw
      · exact ih w hw hwl hcl hyw z hz
  obtain ⟨z₁, c', rfl⟩ := List.exists_cons_of_ne_nil hne
  obtain ⟨hxz, hzc⟩ := List.isChain_cons_cons.mp hchain
  obtain ⟨hzl, hcl'⟩ := List.cons_subset.mp hcl
  have hyz₁ : beats y z₁ := hbelow y hy hyx hxy z₁ hzl hxz
  rcases List.mem_cons.mp hz with rfl | hz
  · exact hyz hyz₁
  · exact hyz (hdown c' z₁ hzc hzl hcl' hyz₁ z hz)

omit [DecidableRel beats] in
lemma top_perm {l l' : List α} (hp : l' ~ l) {x : α} : Top beats l' x ↔ Top beats l x := by
  simp only [Top, hp.mem_iff]

omit [DecidableRel beats] in
lemma bridged_perm {l l' : List α} (hp : l' ~ l) {x : α} :
    Bridged beats l' x ↔ Bridged beats l x := by
  simp only [Bridged, hp.mem_iff, List.subset_def]

/-- With nothing at the top and no bridge, the pass over a non-empty list ends in a tie. -/
lemma verdict_of_not_bridged {l : List α} (hl : l.Nodup)
    (asymm : ∀ x y, beats x y → ¬ beats y x) {a : α} (ha : a ∈ l)
    (htop : ¬ ∃ x ∈ l, Top beats l x) (hbr : ¬ ∃ x ∈ l, Bridged beats l x) :
    verdict beats l = some (true, none) := by
  obtain ⟨h, hsc⟩ := scan_ne_none beats ha
  have hmem := holder_mem hsc
  rw [verdict, hsc]
  cases hun : h.tied with
  | true => simp [hun]
  | false =>
    exact absurd ⟨_, hmem, bridged_of_untied hl asymm hsc hun fun ht => htop ⟨_, hmem, ht⟩⟩ hbr

/-- **When one pass is independent of the order.** All orders of the list give the same verdict
exactly when some entry beats all others, or no entry can bridge its way up. -/
theorem verdict_perm_iff [DecidableEq α] {l : List α} (hl : l.Nodup)
    (asymm : ∀ x y, beats x y → ¬ beats y x) :
    (∀ l', l' ~ l → verdict beats l' = verdict beats l) ↔
      (∃ x ∈ l, Top beats l x) ∨ ¬ ∃ x ∈ l, Bridged beats l x := by
  constructor
  · intro hsame
    by_contra hcon
    push Not at hcon
    obtain ⟨hnotop, x, hx, hbr⟩ := hcon
    obtain ⟨l₁, hp₁, hs₁⟩ := exists_perm_of_bridged hl asymm hx hbr
    -- read first, `x` can only stay the untied holder by beating everything
    have hp₂ : l.erase x ++ [x] ~ l :=
      (List.perm_append_comm).trans (List.perm_cons_erase hx).symm
    have hv : verdict beats (l.erase x ++ [x]) = some (false, some x) := by
      rw [hsame _ hp₂, ← hsame _ hp₁, verdict, hs₁]
      rfl
    obtain ⟨h, hs₂⟩ := scan_ne_none beats (show x ∈ l.erase x ++ [x] by simp)
    rw [verdict, hs₂] at hv
    obtain ⟨y, b⟩ := h
    cases b with
    | true => simp at hv
    | false =>
      have hyx : y = x := by simpa using hv
      subst hyx
      obtain ⟨pre, post, e, hr, hpre⟩ := scan_split hs₂
      have hall := (tied_eq_false (e ▸ hs₂) hr hpre).mp rfl
      have hnd : (pre ++ y :: post).Nodup := e ▸ (hp₂.nodup_iff.mpr hl)
      have hpost : post = [] := by
        rcases List.eq_nil_or_concat post with h0 | ⟨q, w, rfl⟩
        · exact h0
        · have hlast := congrArg List.getLast? e
          simp only [List.getLast?_append, List.getLast?_cons] at hlast
          simp at hlast
          subst hlast
          rw [List.nodup_middle, List.nodup_cons] at hnd
          simp at hnd
      refine hnotop y hx ((top_perm hp₂).mp fun k hk hne => hall k ?_)
      rw [e, hpost] at hk
      simpa [hne] using hk
  · intro hcond l' hp
    by_cases hex : ∃ x ∈ l, Top beats l x
    · obtain ⟨x, hx, htop⟩ := hex
      rw [verdict, verdict, scan_of_top hl asymm hx htop, scan_of_top (hp.nodup_iff.mpr hl) asymm
        (hp.mem_iff.mpr hx) ((top_perm hp).mpr htop)]
    · have hnone := hcond.resolve_left hex
      rcases l with _ | ⟨a, l⟩
      · rw [hp.eq_nil]
      · have ha : a ∈ a :: l := List.mem_cons_self
        have hex' : ¬ ∃ x ∈ l', Top beats l' x := by simpa only [top_perm hp, hp.mem_iff] using hex
        have hnone' : ¬ ∃ x ∈ l', Bridged beats l' x := by
          simpa only [bridged_perm hp, hp.mem_iff] using hnone
        rw [verdict_of_not_bridged hl asymm ha hex hnone, verdict_of_not_bridged
          (hp.nodup_iff.mpr hl) asymm (hp.mem_iff.mpr ha) hex' hnone']

variable (beats) in
/-- An entry that beats another beats every third one, or is itself beaten to it: entries that do not
beat each other are of one level, and beat the same entries. -/
def Levelled (l : List α) : Prop := ∀ x ∈ l, ∀ y ∈ l, ∀ z ∈ l, beats x z → beats x y ∨ beats y z

omit [DecidableRel beats] in
lemma Levelled.tail {x : α} {l : List α} (h : Levelled beats (x :: l)) : Levelled beats l :=
  fun y hy z hz w hw => h y (by simp [hy]) z (by simp [hz]) w (by simp [hw])

/-- **One pass over levels.** The holder is of the highest level, and untied exactly when it is alone
there. -/
theorem scan_of_levelled {l : List α} (hl : l.Nodup) (asymm : ∀ x y, beats x y → ¬ beats y x)
    (h : Levelled beats l) {k : Held α} (hk : scan beats l = some k) :
    (∀ x ∈ l, ¬ beats x k.holder) ∧ (k.tied = false ↔ Top beats l k.holder) := by
  induction l generalizing k with
  | nil => simp at hk
  | cons a l ih =>
    rw [scan_cons, Option.some.injEq] at hk
    subst hk
    rw [List.nodup_cons] at hl
    rcases hs : scan beats l with _ | g
    · have hnil : l = [] := by
        cases l with
        | nil => rfl
        | cons b l => simp at hs
      subst hnil
      refine ⟨fun x hx => ?_, iff_of_true rfl fun y hy hne => ?_⟩
      · obtain rfl : x = a := by simpa using hx
        exact fun hxx => asymm _ _ hxx hxx
      · exact absurd (List.mem_singleton.mp hy) hne
    · obtain ⟨hmax, htied⟩ := ih hl.2 h.tail hs
      have hg : g.holder ∈ l := holder_mem hs
      by_cases hag : beats a g.holder
      · -- whoever is not above the old holder is below the new one
        have hall : ∀ y ∈ l, beats a y := fun y hy =>
          (h a (by simp) y (by simp [hy]) g.holder (by simp [hg]) hag).resolve_right (hmax y hy)
        have e : meet beats a (some g) = ⟨a, false⟩ := by simp [meet, hag]
        rw [e]
        refine ⟨fun x hx => ?_, iff_of_true rfl fun y hy hne => ?_⟩
        · rcases List.mem_cons.mp hx with rfl | hx
          · exact fun hxx => asymm _ _ hxx hxx
          · exact asymm _ _ (hall x hx)
        · exact hall y ((List.mem_cons.mp hy).resolve_left hne)
      · have e : meet beats a (some g) = ⟨g.holder, g.tied || !decide (beats g.holder a)⟩ := by
          simp [meet, hag]
        rw [e]
        have hne : a ≠ g.holder := fun e => hl.1 (e ▸ hg)
        refine ⟨fun x hx => ?_, ?_⟩
        · rcases List.mem_cons.mp hx with rfl | hx
          · exact hag
          · exact hmax x hx
        · simp only [Bool.or_eq_false_iff, Bool.not_eq_false', decide_eq_true_eq, htied, Top,
            List.forall_mem_cons]
          exact ⟨fun h => ⟨fun _ => h.2, h.1⟩, fun h => ⟨h.2, h.1 hne⟩⟩

lemma untied_iff_of_levelled {l : List α} (hl : l.Nodup) (asymm : ∀ x y, beats x y → ¬ beats y x)
    (h : Levelled beats l) {k : Held α} (hk : scan beats l = some k) :
    k.tied = false ↔ ∃ x ∈ l, Top beats l x := by
  obtain ⟨hmax, htied⟩ := scan_of_levelled hl asymm h hk
  rw [htied]
  refine ⟨fun htop => ⟨k.holder, holder_mem hk, htop⟩, ?_⟩
  rintro ⟨x, hx, htop⟩
  by_cases e : k.holder = x
  · rwa [e]
  · exact absurd (htop _ (holder_mem hk) e) (hmax x hx)

omit [DecidableRel beats] in
lemma Levelled.perm {l l' : List α} (h : Levelled beats l) (hp : l' ~ l) : Levelled beats l' :=
  fun x hx y hy z hz => h x (hp.mem_iff.mp hx) y (hp.mem_iff.mp hy) z (hp.mem_iff.mp hz)

/-- All orders of the list give the same verdict. -/
theorem verdict_perm_of_levelled {l l' : List α} (hl : l.Nodup)
    (asymm : ∀ x y, beats x y → ¬ beats y x) (h : Levelled beats l) (hp : l' ~ l) :
    verdict beats l' = verdict beats l := by
  rcases l with _ | ⟨a, l⟩
  · rw [hp.eq_nil]
  · have hl' := hp.nodup_iff.mpr hl
    obtain ⟨k, hk⟩ := scan_ne_none beats (List.mem_cons_self (a := a) (l := l))
    obtain ⟨k', hk'⟩ := scan_ne_none beats (hp.mem_iff.mpr (List.mem_cons_self (a := a) (l := l)))
    by_cases hex : ∃ x ∈ a :: l, Top beats (a :: l) x
    · obtain ⟨x, hx, htop⟩ := hex
      rw [verdict, verdict, scan_of_top hl asymm hx htop,
        scan_of_top hl' asymm (hp.mem_iff.mpr hx) ((top_perm hp).mpr htop)]
    · have hex' : ¬ ∃ x ∈ l', Top beats l' x := by simpa only [top_perm hp, hp.mem_iff] using hex
      rw [← untied_iff_of_levelled hl asymm h hk, Bool.not_eq_false] at hex
      rw [← untied_iff_of_levelled hl' asymm (h.perm hp) hk', Bool.not_eq_false] at hex'
      simp [verdict, hk, hk', hex, hex']

end OnePass
