import FunctionWrapper.StorageSpec

/-!
What each operation of the wrappers does to what the wrappers are: their constant part and the
callable they hold.
-/

namespace FunctionWrapper.WrapperSpec

open FunctionWrapper.Signatures FunctionWrapper.Callables FunctionWrapper.Storage
open FunctionWrapper.Lifecycle FunctionWrapper.StorageForms FunctionWrapper.StorageSpec
open OwnedCells

variable {τ Val Fn : Type} [DecidableEq τ] {E : Env τ Val Fn}

/-- The wrappers of a world, each with its constant part and the callable in its storage. -/
abbrev View (τ Val Fn : Type) := ℕ → Option (Constant Fn × Option (Object τ Val))

def view (W : World τ Val Fn) : View τ Val Fn := fun w =>
  (W.constants w).map fun c => (c, content W (.of w))

variable (E) in
/-- The storages are in order, belong to the wrappers that exist, and hold nothing in constant
evaluation. -/
structure Whole (W : World τ Val Fn) : Prop where
  store : StoreInv E W
  tmp : W.storages .tmp = none
  made : ∀ w, W.storages (.of w) = none ↔ W.constants w = none
  still : W.phase = .constant → ∀ p, content W p = none

variable {W : World τ Val Fn} {w u : ℕ} {luck : Luck}

omit [DecidableEq τ] in
lemma view_eq_none : view W w = none ↔ ¬ Live W w := by
  simp [view, Live]

omit [DecidableEq τ] in
lemma view_eq_some {c : Constant Fn} {o : Option (Object τ Val)} (h : view W w = some (c, o)) :
    W.constants w = some c ∧ content W (.of w) = o := by
  obtain ⟨d, hd, he⟩ := Option.map_eq_some_iff.mp h
  obtain ⟨rfl, rfl⟩ := Prod.mk.inj he
  exact ⟨hd, rfl⟩

omit [DecidableEq τ] in
lemma live_view (h : Live W w) : ∃ c o, view W w = some (c, o) := by
  obtain ⟨c, hc⟩ := Option.ne_none_iff_exists'.mp h
  exact ⟨c, content W (.of w), by simp [view, hc]⟩

omit [DecidableEq τ] in
lemma view_of_live {c : Constant Fn} (hc : W.constants w = some c) :
    view W w = some (c, content W (.of w)) := by
  simp [view, hc]

namespace Whole

omit [DecidableEq τ] in
lemma storage (h : Whole E W) (hw : Live W w) : ∃ s, W.storages (.of w) = some s :=
  Option.ne_none_iff_exists'.mp (mt (h.made w).mp hw)

omit [DecidableEq τ] in
lemma content_none (h : Whole E W) (hw : ¬ Live W w) : content W (.of w) = none := by
  have hs : W.storages (.of w) = none := (h.made w).mpr (by simpa [Live] using hw)
  simp [content, owner, hs]

omit [DecidableEq τ] in
lemma setConstant (h : Whole E W) (hw : Live W w) (c : Constant Fn) :
    Whole E (W.setConstant w c) := by
  refine ⟨⟨h.store.sound, h.store.owned, h.store.holds⟩, h.tmp, fun v => ?_, h.still⟩
  by_cases hv : v = w
  · subst hv
    obtain ⟨s, hs⟩ := h.storage hw
    simp [World.setConstant, hs]
  · simpa [World.setConstant, hv] using h.made v

omit [DecidableEq τ] in
lemma of_becomes (h : Whole E W) {W' : World τ Val Fn} {c : Place → Option (Object τ Val)}
    (hb : Becomes E W W' c) (hrun : W.phase = .run) : Whole E W' := by
  refine ⟨hb.inv, (hb.dom _).mpr h.tmp, fun v => ?_, fun hp => ?_⟩
  · rw [hb.dom, hb.constants]
    exact h.made v
  · rw [hb.phase, hrun] at hp
    cases hp

omit [DecidableEq τ] in
lemma create (h : Whole E W) (hw : ¬ Live W w) (c : Constant Fn) :
    Whole E ((W.setConstant w c).setStorage (.of w) .empty) ∧
      content ((W.setConstant w c).setStorage (.of w) .empty) = content W := by
  have hs : W.storages (.of w) = none := (h.made w).mpr (by simpa [Live] using hw)
  have hstore : StoreInv E (W.setConstant w c) := ⟨h.store.sound, h.store.owned, h.store.holds⟩
  obtain ⟨hinv, hcon⟩ := hstore.setFree (p := .of w)
    (by simp [owner, World.setConstant, hs]) (some .empty) fun t ht =>
      ⟨_, (Option.some.inj ht).symm.trans empty_eq⟩
  refine ⟨⟨hinv, ?_, fun v => ?_, fun hp p => ?_⟩, hcon⟩
  · simpa [World.setStorage, World.setConstant] using h.tmp
  · by_cases hv : v = w
    · subst hv
      simp [World.setStorage, World.setConstant]
    · simpa [World.setStorage, World.setConstant, hv] using h.made v
  · exact (congrFun hcon p).trans (h.still hp p)

omit [DecidableEq τ] in
lemma view_create (h : Whole E W) (hw : ¬ Live W w) (c : Constant Fn) :
    view ((W.setConstant w c).setStorage (.of w) .empty) =
      Function.update (view W) w (some (c, none)) := by
  funext v
  rw [view, (h.create hw c).2]
  by_cases hv : v = w
  · subst hv
    simp [World.setStorage, World.setConstant, h.content_none hw]
  · simp [World.setStorage, World.setConstant, hv, view]

omit [DecidableEq τ] in
lemma remove (h : Whole E W) (hw : content W (.of w) = none) :
    Whole E (W.remove w) ∧ view (W.remove w) = Function.update (view W) w none := by
  have hstore : StoreInv E { W with constants := Function.update W.constants w none } :=
    ⟨h.store.sound, h.store.owned, h.store.holds⟩
  obtain ⟨hinv, hcon⟩ := hstore.setFree (p := .of w) (h.store.owner_none_of_content hw) none
    fun t ht => by cases ht
  have hcon' : content (W.remove w) = content W := hcon
  refine ⟨⟨hinv, by simpa [World.remove] using h.tmp, fun v => ?_, fun hp p => ?_⟩, ?_⟩
  · by_cases hv : v = w
    · subst hv
      simp [World.remove]
    · simpa [World.remove, hv] using h.made v
  · rw [hcon']
    exact h.still hp p
  · funext v
    rw [view, hcon']
    by_cases hv : v = w
    · subst hv
      simp [World.remove]
    · simp [World.remove, hv, view]

end Whole

omit [DecidableEq τ] in
theorem defaultConstruct_spec (h : Whole E W) (hw : ¬ Live W w) :
    Whole E (defaultConstruct w W) ∧
      view (defaultConstruct w W) = Function.update (view W) w (some (.inactive, none)) :=
  ⟨(h.create hw .inactive).1, h.view_create hw .inactive⟩

omit [DecidableEq τ] in
lemma view_setConstant (c : Constant Fn) :
    view (W.setConstant w c) = Function.update (view W) w (some (c, content W (.of w))) := by
  funext v
  by_cases hv : v = w
  · subst hv
    simp [view, World.setConstant]
    rfl
  · simp [view, World.setConstant, hv]
    rfl

omit [DecidableEq τ] in
lemma view_of_becomes {W' : World τ Val Fn} {o : Option (Object τ Val)}
    (hb : Becomes E W W' (Function.update (content W) (.of w) o)) :
    view W' = Function.update (view W) w ((view W w).map fun p => (p.1, o)) := by
  funext v
  rw [view, hb.content, hb.constants]
  by_cases hv : v = w
  · subst hv
    rcases hc : W.constants v with _ | c <;> simp [view, hc]
  · simp [view, hv]

theorem reset_spec (h : Whole E W) (hw : Live W w) :
    ∃ W', reset E w W = some W' ∧ Whole E W' ∧ W'.phase = W.phase ∧
      view W' = Function.update (view W) w (some (.inactive, none)) ∧
      ∀ k, W.mem.get k = none ∨ owner W (.of w) = some k → W'.mem.get k = none := by
  have h' := h.setConstant hw .inactive
  cases hp : W.phase with
  | constant =>
    refine ⟨_, by simp [reset, World.setConstant, hp], h', hp, ?_, fun k hk => ?_⟩
    · rw [view_setConstant, h.still hp]
    · rcases hk with hk | hk
      · exact hk
      · have hget : W.mem.get k = none := by simpa [content, hk] using h.still hp (.of w)
        exact hget
  | run =>
    obtain ⟨s, hs⟩ := h.storage hw
    obtain ⟨W', e, hb, hfree⟩ := resetStorage_spec h'.store (p := .of w) (s := s) hs
    refine ⟨W', by simpa [reset, World.setConstant, hp] using e, h'.of_becomes hb hp,
      hb.phase.trans hp, ?_, hfree⟩
    rw [view_of_becomes hb, view_setConstant, Function.update_self, Function.update_idem]
    rfl

theorem destruct_spec (h : Whole E W) (hw : Live W w) :
    ∃ W', destruct E w W = some W' ∧ Whole E W' ∧ W'.phase = W.phase ∧
      view W' = Function.update (view W) w none := by
  obtain ⟨W', e, hwhole, hphase, hview, -⟩ := reset_spec h hw
  have hc := (view_eq_some (W := W') (w := w) (by rw [hview, Function.update_self])).2
  obtain ⟨hwhole', hview'⟩ := hwhole.remove hc
  refine ⟨W'.remove w, by simp [destruct, e], hwhole', hphase, ?_⟩
  rw [hview', hview, Function.update_idem]

omit [DecidableEq τ] in
lemma copyable_of_content (h : StoreInv E W) (hk : E.kind = .copyable) {p : Place}
    {s : WrapperStorage} (hs : W.storages p = some s) {o : Object τ Val}
    (ho : content W p = some o) : E.layout.copyConstructible o.type = true := by
  have hacc := h.accepts hs ho
  simp only [Env.accepts, hk, Bool.and_eq_true] at hacc
  exact hacc.1

/-- The end of a copy: the callable of `u` comes to the empty wrapper `w`, or the copy throws. -/
lemma copyEnd_spec (h : Whole E W) (hk : E.kind = .copyable) (hw : Live W w) (hu : Live W u)
    (hnone : content W (.of w) = none) (hblock : W.mem.get (.block luck.block) = none) :
    ∃ W' threw, (if W.phase = .constant then some (W, false)
        else copyStorage E (.of w) (.of u) luck W) = some (W', threw) ∧
      Whole E W' ∧ W'.phase = W.phase ∧
      view W' = if threw then view W else
        Function.update (view W) w ((view W w).map fun p => (p.1, content W (.of u))) := by
  cases hp : W.phase with
  | constant =>
    refine ⟨W, false, by simp, h, hp, ?_⟩
    obtain ⟨c, o, hc⟩ := live_view hw
    have ho : o = none := (view_eq_some hc).2 ▸ hnone
    rw [h.still hp (.of u), if_neg (by simp), eq_comm, Function.update_eq_self_iff, hc, ho]
    rfl
  | run =>
    obtain ⟨s, hs⟩ := h.storage hu
    obtain ⟨d, hd⟩ := h.storage hw
    obtain ⟨W', threw, e, hb⟩ := copyStorage_spec h.store hd hs hnone
      (fun o ho => copyable_of_content h.store hk hs ho) hblock
    refine ⟨W', threw, by simpa using e, h.of_becomes hb hp, hb.phase.trans hp, ?_⟩
    cases threw with
    | true =>
      have hb' : Becomes E W W' (content W) := by simpa using hb
      funext v
      simp only [view, hb'.content, hb'.constants, if_true]
    | false =>
      have hb' : Becomes E W W' (Function.update (content W) (.of w) (content W (.of u))) := by
        simpa using hb
      rw [view_of_becomes hb']
      simp

theorem copyConstruct_spec (h : Whole E W) (hk : E.kind = .copyable) (hw : ¬ Live W w)
    (hu : Live W u) (hblock : W.mem.get (.block luck.block) = none) :
    ∃ W' threw, copyConstruct E w u luck W = some (W', threw) ∧ Whole E W' ∧ W'.phase = W.phase ∧
      view W' = if threw then view W else Function.update (view W) w (view W u) := by
  obtain ⟨c, hc⟩ := Option.ne_none_iff_exists'.mp hu
  have hwu : u ≠ w := fun e => hw (e ▸ hu)
  obtain ⟨h₁, hcon⟩ := h.create hw c
  have hview₁ := h.view_create hw c
  set W₁ := (W.setConstant w c).setStorage (.of w) .empty with hW₁
  have hu₁ : Live W₁ u := by simpa [Live, hW₁, World.setStorage, World.setConstant, hwu] using hu
  have hw₁ : Live W₁ w := by simp [Live, hW₁, World.setStorage, World.setConstant]
  obtain ⟨W₂, threw, e, h₂, hphase, hview₂⟩ := copyEnd_spec h₁ hk hw₁ hu₁
    (by rw [hcon]; exact h.content_none hw) hblock
  have hrun : copyConstruct E w u luck W = some (orRemove w (W₂, threw)) := by
    rw [← Option.map_some, ← e]
    simp only [copyConstruct, hc, ← hW₁, Option.bind_eq_bind, Option.bind_some]
    split <;> rfl
  have hold : view W = Function.update (view W) w none :=
    (Function.update_eq_self_iff.mpr (view_eq_none.mpr hw).symm).symm
  cases threw with
  | true =>
    rw [if_pos rfl] at hview₂
    have hnone : content W₂ (.of w) = none := by
      refine (view_eq_some (c := c) ?_).2
      rw [hview₂, hview₁, Function.update_self]
    obtain ⟨h₃, hview₃⟩ := h₂.remove hnone
    refine ⟨W₂.remove w, true, hrun, h₃, hphase, ?_⟩
    rw [hview₃, hview₂, hview₁, Function.update_idem, if_pos rfl, ← hold]
  | false =>
    refine ⟨W₂, false, hrun, h₂, hphase, ?_⟩
    rw [hview₂, if_neg (by simp), if_neg (by simp), hview₁, Function.update_self,
      Function.update_idem, hcon, view_of_live hc]
    rfl

omit [DecidableEq τ] in
lemma live_of_view {W' : World τ Val Fn} (hne : u ≠ w) {p : Constant Fn × Option (Object τ Val)}
    (hview : view W' = Function.update (view W) w (some p)) (hu : Live W u) :
    Live W' u ∧ view W' u = view W u := by
  have e : view W' u = view W u := by rw [hview, Function.update_of_ne hne]
  refine ⟨?_, e⟩
  by_contra hn
  rw [view_eq_none.mpr hn, eq_comm, view_eq_none] at e
  exact e hu

omit [DecidableEq τ] in
lemma live_of_update {W' : World τ Val Fn} {p : Constant Fn × Option (Object τ Val)}
    (hview : view W' = Function.update (view W) w (some p)) : Live W' w := by
  by_contra hn
  have e := view_eq_none.mpr hn
  rw [hview, Function.update_self] at e
  cases e

theorem copyAssign_spec (h : Whole E W) (hk : E.kind = .copyable) (hw : Live W w) (hu : Live W u)
    (hblock : W.mem.get (.block luck.block) = none ∨
      owner W (.of w) = some (.block luck.block)) :
    ∃ W' threw, copyAssign E w u luck W = some (W', threw) ∧ Whole E W' ∧ W'.phase = W.phase ∧
      view W' = if w = u then view W
        else Function.update (view W) w
          (if threw then (view W u).map fun p => (p.1, none) else view W u) := by
  by_cases hwu : w = u
  · exact ⟨W, false, by simp [copyAssign, hwu], h, rfl, by simp [hwu]⟩
  · obtain ⟨W₁, e₁, h₁, hphase₁, hview₁, hfree⟩ := reset_spec h hw
    obtain ⟨hu₁, hviewu⟩ := live_of_view (Ne.symm hwu) hview₁ hu
    have hw₁ := live_of_update hview₁
    obtain ⟨c, o, hco⟩ := live_view hu₁
    obtain ⟨hc, ho⟩ := view_eq_some hco
    obtain ⟨-, hw0⟩ := view_eq_some (W := W₁) (w := w) (by rw [hview₁, Function.update_self])
    have hu₂ : Live (W₁.setConstant w c) u := by
      simpa [Live, World.setConstant, Ne.symm hwu] using hu₁
    obtain ⟨W₂, threw, e₂, h₂, hphase₂, hview₂⟩ := copyEnd_spec (h₁.setConstant hw₁ c) hk
      (by simp [Live, World.setConstant]) hu₂ hw0 (hfree _ hblock)
    refine ⟨W₂, threw, ?_, h₂, hphase₂.trans hphase₁, ?_⟩
    · simp only [copyAssign, if_neg hwu, e₁, Option.bind_eq_bind, Option.bind_some, hc]
      simpa using e₂
    · have hu' : content (W₁.setConstant w c) (.of u) = o := ho
      rw [hview₂, if_neg hwu, view_setConstant, hw0, hview₁, Function.update_idem, ← hviewu, hco, hu']
      cases threw with
      | true => simp
      | false => simp [Function.update_idem]

/-- The end of a move: the callable of `u` passes to the empty wrapper `w`. -/
lemma moveEnd_spec (h : Whole E W) (hw : Live W w) (hu : Live W u) (hwu : u ≠ w)
    (hnone : content W (.of w) = none) :
    ∃ W', (if W.phase = .constant then some W else moveStorage E (.of w) (.of u) W) = some W' ∧
      Whole E W' ∧ W'.phase = W.phase ∧
      view W' = Function.update (Function.update (view W) u ((view W u).map fun p => (p.1, none))) w
        ((view W w).map fun p => (p.1, content W (.of u))) := by
  obtain ⟨c, hc⟩ := Option.ne_none_iff_exists'.mp hw
  obtain ⟨d, hd⟩ := Option.ne_none_iff_exists'.mp hu
  cases hp : W.phase with
  | constant =>
    refine ⟨W, by simp, h, hp, ?_⟩
    have hnu : content W (.of u) = none := h.still hp (.of u)
    funext v
    by_cases hvw : v = w
    · subst hvw
      simp [view, hc, hnu, hnone]
    · by_cases hvu : v = u
      · subst hvu
        simp [view, hd, hnu, hvw]
      · simp [hvw, hvu]
  | run =>
    obtain ⟨s, hs⟩ := h.storage hu
    obtain ⟨t, ht⟩ := h.storage hw
    obtain ⟨W', e, hb⟩ := moveStorage_spec h.store (by simpa using hwu) ht hs hnone
    refine ⟨W', by simpa using e, h.of_becomes hb hp, hb.phase.trans hp, ?_⟩
    funext v
    rw [view, hb.content, hb.constants]
    by_cases hvw : v = w
    · subst hvw
      simp [view, hc]
    · by_cases hvu : v = u
      · subst hvu
        simp [view, hd, hvw]
      · simp [view, hvw, hvu]

theorem moveConstruct_spec (h : Whole E W) (hw : ¬ Live W w) (hu : Live W u) :
    ∃ W', moveConstruct E w u W = some W' ∧ Whole E W' ∧ W'.phase = W.phase ∧
      view W' = Function.update (Function.update (view W) u (some (.inactive, none))) w
        (view W u) := by
  obtain ⟨c, hc⟩ := Option.ne_none_iff_exists'.mp hu
  have hwu : u ≠ w := fun e => hw (e ▸ hu)
  have h₀ := h.setConstant hu .inactive
  have hw₀ : ¬ Live (W.setConstant u .inactive) w := by
    simpa [Live, World.setConstant, Ne.symm hwu] using hw
  obtain ⟨h₁, hcon₁⟩ := h₀.create hw₀ c
  have hview₁ := h₀.view_create hw₀ c
  set W₁ := ((W.setConstant u .inactive).setConstant w c).setStorage (.of w) .empty with hW₁
  have heq : ((W.setConstant w c).setConstant u .inactive).setStorage (.of w) .empty = W₁ := by
    simp only [hW₁, World.setConstant, World.setStorage]
    rw [Function.update_comm hwu]
  have hw₁ : Live W₁ w := by simp [Live, hW₁, World.setStorage, World.setConstant]
  have hu₁ : Live W₁ u := by simp [Live, hW₁, World.setStorage, World.setConstant, hwu]
  have hcw : content W₁ (.of w) = none := by
    rw [hcon₁]
    exact h₀.content_none hw₀
  have hcu : content W₁ (.of u) = content W (.of u) := by
    rw [hcon₁]
    rfl
  obtain ⟨W₂, e, h₂, hphase, hview₂⟩ := moveEnd_spec h₁ hw₁ hu₁ hwu hcw
  refine ⟨W₂, ?_, h₂, hphase, ?_⟩
  · simp only [moveConstruct, hc, Option.bind_eq_bind, Option.bind_some, heq]
    exact e
  · rw [hview₂, hcu, hview₁, view_setConstant, view_of_live hc]
    funext v
    by_cases hvw : v = w
    · subst hvw
      simp
    · by_cases hvu : v = u
      · subst hvu
        simp [hvw]
      · simp [hvw, hvu]

theorem moveAssign_spec (h : Whole E W) (hw : Live W w) (hu : Live W u) :
    ∃ W', moveAssign E w u W = some W' ∧ Whole E W' ∧ W'.phase = W.phase ∧
      view W' = if w = u then view W else
        Function.update (Function.update (view W) u (some (.inactive, none))) w (view W u) := by
  by_cases hwu : w = u
  · exact ⟨W, by simp [moveAssign, hwu], h, rfl, by simp [hwu]⟩
  · obtain ⟨W₁, e₁, h₁, hphase₁, hview₁, -⟩ := reset_spec h hw
    obtain ⟨hu₁, hviewu⟩ := live_of_view (Ne.symm hwu) hview₁ hu
    have hw₁ := live_of_update hview₁
    obtain ⟨c, o, hco⟩ := live_view hu₁
    obtain ⟨hc, ho⟩ := view_eq_some hco
    obtain ⟨-, hw0⟩ := view_eq_some (W := W₁) (w := w) (by rw [hview₁, Function.update_self])
    have h₂ := h₁.setConstant hw₁ c
    have hu₂ : Live (W₁.setConstant w c) u := by
      simpa [Live, World.setConstant, Ne.symm hwu] using hu₁
    have hw₂ : Live (W₁.setConstant w c) w := by simp [Live, World.setConstant]
    have h₃ := h₂.setConstant hu₂ .inactive
    obtain ⟨W₄, e₄, h₄, hphase₄, hview₄⟩ := moveEnd_spec h₃ (w := w) (u := u)
      (by simp [Live, World.setConstant, hwu]) (by simp [Live, World.setConstant])
      (Ne.symm hwu) hw0
    refine ⟨W₄, ?_, h₄, hphase₄.trans hphase₁, ?_⟩
    · simp only [moveAssign, if_neg hwu, e₁, Option.bind_eq_bind, Option.bind_some, hc]
      exact e₄
    · have hcu : content ((W₁.setConstant w c).setConstant u .inactive) (.of u) = o := ho
      rw [hview₄, if_neg hwu, hcu, view_setConstant, view_setConstant, hview₁, ← hviewu, hco]
      funext v
      by_cases hvw : v = w
      · subst hvw
        simp [hwu]
      · by_cases hvu : v = u
        · subst hvu
          simp [hvw]
        · simp [hvw, hvu]

theorem swap_spec (h : Whole E W) (hw : Live W w) (hu : Live W u) :
    ∃ W', Lifecycle.swap E w u W = some W' ∧ Whole E W' ∧ W'.phase = W.phase ∧
      view W' = if w = u then view W else
        Function.update (Function.update (view W) w (view W u)) u (view W w) := by
  by_cases hwu : w = u
  · exact ⟨W, by simp [Lifecycle.swap, hwu], h, rfl, by simp [hwu]⟩
  · obtain ⟨c, hc⟩ := Option.ne_none_iff_exists'.mp hw
    obtain ⟨d, hd⟩ := Option.ne_none_iff_exists'.mp hu
    have h₁ := h.setConstant hw d
    have hu₁ : Live (W.setConstant w d) u := by
      simpa [Live, World.setConstant, Ne.symm hwu] using hu
    have h₂ := h₁.setConstant hu₁ c
    set W₂ := (W.setConstant w d).setConstant u c with hW₂
    have hcon : content W₂ = content W := rfl
    have hrun : Lifecycle.swap E w u W =
        if W₂.phase = .constant then some W₂ else swapStorages E (.of w) (.of u) W₂ := by
      simp only [Lifecycle.swap, if_neg hwu, hc, hd, Option.bind_eq_bind, Option.bind_some]
      rfl
    have hconst : W₂.constants = Function.update (Function.update W.constants w (some d)) u (some c) :=
      rfl
    cases hp : W.phase with
    | constant =>
      have hp₂ : W₂.phase = .constant := hp
      refine ⟨W₂, by rw [hrun, if_pos hp₂], h₂, hp, ?_⟩
      rw [if_neg hwu, view_of_live hc, view_of_live hd, h.still hp, h.still hp]
      funext v
      rw [view, hcon, hconst]
      by_cases hvu : v = u
      · subst hvu
        simp [h.still hp]
      · by_cases hvw : v = w
        · subst hvw
          simp [hvu, h.still hp]
        · simp [hvu, hvw, view]
    | run =>
      have hp₂ : W₂.phase = .run := hp
      obtain ⟨s, hs⟩ := h.storage hw
      obtain ⟨t, ht⟩ := h.storage hu
      obtain ⟨W₃, e, hb⟩ := swapStorages_spec h₂.store hwu (s := s) (d := t) ht hs h.tmp
      refine ⟨W₃, by rw [hrun, hp₂]; simpa using e, h₂.of_becomes hb hp₂, hb.phase.trans hp₂, ?_⟩
      rw [if_neg hwu, view_of_live hc, view_of_live hd]
      funext v
      rw [view, hb.content, hb.constants, hcon, hconst]
      by_cases hvu : v = u
      · subst hvu
        simp
      · by_cases hvw : v = w
        · subst hvw
          simp [hvu]
        · simp [hvu, hvw, view]

/-! ### Callables -/

def sourceValue (V : View τ Val Fn) : Source τ Val → Option (Object τ Val)
  | .object o => some o
  | .target u _ => (V u).bind (·.2)

def leaveView (left : Object τ Val → Val) (V : View τ Val Fn) : Source τ Val → View τ Val Fn
  | .target u true => Function.update V u ((V u).map fun p =>
      (p.1, p.2.map fun o => { o with val := left o }))
  | _ => V

variable (E) in
/-- The constant part a callable gives a wrapper in constant evaluation. -/
def constantOf (o : Object τ Val) : Constant Fn :=
  if o.type = E.staticFunction then ⟨E.slotsOf o.val, hasValue E (E.slotsOf o.val)⟩
  else
    let r := bindConstexprCallable E o E.sigs (fun _ => none, false)
    ⟨r.1, r.2⟩

variable (E) in
/-- A wrapper that has been given a callable. -/
def assignView (ph : Phase) (w : ℕ) (src : Source τ Val) (o : Object τ Val) (V : View τ Val Fn) :
    View τ Val Fn :=
  if ph = .constant then Function.update V w (some (constantOf E o, none))
  else leaveView (fun o => E.movedFrom o.type o.val) (Function.update V w (some (.inactive, some o)))
    src

omit [DecidableEq τ] in
lemma read_target (r : Bool) : (Source.target u r).read W = content W (.of u) := by
  simp only [Source.read, content, owner, Option.bind_eq_bind, Option.bind_assoc]

omit [DecidableEq τ] in
lemma read_eq (h : Whole E W) (src : Source τ Val) : src.read W = sourceValue (view W) src := by
  cases src with
  | object o => rfl
  | target u r =>
    rw [read_target, sourceValue]
    by_cases hu : Live W u
    · obtain ⟨c, hc⟩ := Option.ne_none_iff_exists'.mp hu
      rw [view_of_live hc]
      rfl
    · rw [h.content_none hu, view_eq_none.mpr hu]
      rfl

omit [DecidableEq τ] in
lemma leave_spec (h : Whole E W) (hp : W.phase = .run) (left : Object τ Val → Val)
    (src : Source τ Val) :
    Whole E (src.leave left W) ∧ (src.leave left W).phase = W.phase ∧
      view (src.leave left W) = leaveView left (view W) src := by
  cases src with
  | object o => exact ⟨h, rfl, rfl⟩
  | target u r =>
    cases r with
    | false => exact ⟨h, rfl, rfl⟩
    | true =>
      have hobj : (W.storages (.of u)).bind (·.obj) = owner W (.of u) := rfl
      rcases ho : owner W (.of u) with _ | k
      · have hleave : (Source.target u true).leave left W = W := by
          simp [Source.leave, hobj, ho]
        rw [hleave]
        refine ⟨h, rfl, ?_⟩
        have hc : content W (.of u) = none := by simp [content, ho]
        rw [leaveView, eq_comm, Function.update_eq_self_iff]
        rcases hk : W.constants u with _ | c <;> simp [view, hk, hc]
      · obtain ⟨o, hget⟩ := Option.ne_none_iff_exists'.mp (h.store.owned.occupied _ _ ho)
        obtain ⟨hinv, hcon⟩ := h.store.write ho hget (left o)
        set W' : World τ Val Fn := { W with mem := W.mem.write k { o with val := left o } } with hW'
        have hleave : (Source.target u true).leave left W = W' := by
          simp [Source.leave, hobj, ho, hget, hW']
        rw [hleave]
        refine ⟨⟨hinv, h.tmp, h.made, fun hp' => ?_⟩, rfl, ?_⟩
        · have : W.phase = .constant := hp'
          rw [hp] at this
          cases this
        · have hc : content W (.of u) = some o := by simp [content, ho, hget]
          funext v
          rw [view, hcon, leaveView]
          by_cases hv : v = u
          · subst hv
            rcases hk : W.constants v with _ | c <;> simp [view, hk, hc]
          · simp [view, hv, hW']

omit [DecidableEq τ] in
lemma leaveView_of_ne (left : Object τ Val → Val) {V : View τ Val Fn} {src : Source τ Val}
    (hsrc : src.moved ≠ some w) : leaveView left V src w = V w := by
  cases src with
  | object o => rfl
  | target u r =>
    cases r with
    | false => rfl
    | true =>
      have hwu : w ≠ u := fun e => hsrc (e ▸ rfl)
      exact Function.update_of_ne hwu _ _

omit [DecidableEq τ] in
lemma leaveView_moved (left : Object τ Val → Val) {V : View τ Val Fn} {src : Source τ Val}
    (hsrc : src.moved = some u) : leaveView left V src u =
      (V u).map fun p => (p.1, p.2.map fun o => { o with val := left o }) := by
  cases src with
  | object o => cases hsrc
  | target v r =>
    cases r with
    | false => cases hsrc
    | true =>
      obtain rfl : v = u := Option.some.inj hsrc
      exact Function.update_self ..

omit [DecidableEq τ] in
lemma moved_ne {src : Source τ Val} (hsrc : ∀ r, src ≠ .target w r) : src.moved ≠ some w := by
  rcases src with o | ⟨u, _ | _⟩
  · exact nofun
  · exact nofun
  · exact fun e => hsrc true (Option.some.inj e ▸ rfl)

omit [DecidableEq τ] in
lemma leaveView_update (left : Object τ Val → Val) {V : View τ Val Fn} {src : Source τ Val}
    (hsrc : ∀ r, src ≠ .target w r) (p : Option (Constant Fn × Option (Object τ Val))) :
    leaveView left (Function.update V w p) src = Function.update (leaveView left V src) w p := by
  cases src with
  | object o => rfl
  | target u r =>
    have huw : u ≠ w := fun e => hsrc r (e ▸ rfl)
    cases r with
    | false => rfl
    | true => rw [leaveView, leaveView, Function.update_of_ne huw, Function.update_comm huw]

lemma assign_spec (h : Whole E W) (hw : view W w = some (.inactive, none)) {src : Source τ Val}
    {o : Object τ Val} (ho : sourceValue (view W) src = some o) (hacc : E.accepts o.type = true)
    (hbind : W.phase = .constant → o.type = E.staticFunction ∨ constexprBindable E o.type = true)
    (hblock : W.mem.get (.block luck.block) = none) :
    ∃ W' threw, assign E w src luck W = some (W', threw) ∧ Whole E W' ∧ W'.phase = W.phase ∧
      view W' = if threw then leaveView (leftover E luck true) (view W) src
        else assignView E W.phase w src o (view W) := by
  obtain ⟨hc, hnone⟩ := view_eq_some hw
  have hlive : Live W w := by simp [Live, hc]
  have hread : src.read W = some o := (read_eq h src).trans ho
  cases hp : W.phase with
  | constant =>
    have hset := h.setConstant hlive (constantOf E o)
    refine ⟨W.setConstant w (constantOf E o), false, ?_, hset, hp, ?_⟩
    · simp only [assign, hp, if_true, hread, Option.bind_eq_bind, Option.bind_some]
      by_cases hst : o.type = E.staticFunction
      · simp [assignConstexpr, constantOf, hst]
      · have hb := (hbind hp).resolve_left hst
        simp [assignConstexpr, constantOf, hst, hb]
    · rw [view_setConstant, hnone, if_neg (by simp), assignView, if_pos rfl]
  | run =>
    obtain ⟨s, hs⟩ := h.storage hlive
    obtain ⟨r, hr⟩ : ∃ r, r = if E.fitsInSbo o.type then emplaceSmallStorage E (.of w) o luck W.mem s
      else emplaceHeapStorage E (.of w) o luck W.mem s := ⟨_, rfl⟩
    have hb := emplace_spec h.store hs hnone hacc hblock hr
    set W₁ : World τ Val Fn := ({ W with mem := r.1 } : World τ Val Fn).setStorage (.of w) r.2.1
    have h₁ := h.of_becomes hb hp
    have hrun : assign E w src luck W =
        some (src.leave (leftover E luck r.2.2) W₁, r.2.2) := by
      have hne : ¬ W.phase = .constant := by rw [hp]; simp
      simp only [assign, if_neg hne, assignRuntime, hread, hs, ← hr, Option.bind_eq_bind,
        Option.bind_some]
      rfl
    obtain ⟨h₂, hphase₂, hview₂⟩ := leave_spec h₁ (hb.phase.trans hp) (leftover E luck r.2.2) src
    refine ⟨_, r.2.2, hrun, h₂, hphase₂.trans (hb.phase.trans hp), ?_⟩
    rw [hview₂]
    cases hthrow : r.2.2 with
    | true =>
      have hsame : view W₁ = view W := by
        funext v
        simp only [view, hb.content, hb.constants, hthrow, if_true]
      rw [hsame, if_pos rfl]
    | false =>
      have hb' : Becomes E W W₁ (Function.update (content W) (.of w) (some o)) := by
        simpa [hthrow] using hb
      rw [view_of_becomes hb', hw, if_neg (by simp), assignView, if_neg (by simp)]
      rfl

omit [DecidableEq τ] in
lemma sourceOk_value (h : Whole E W) {src : Source τ Val} (hsrc : SourceOk E W src) :
    ∃ o, sourceValue (view W) src = some o ∧ E.accepts o.type = true ∧
      (W.phase = .constant → o.type = E.staticFunction ∨ constexprBindable E o.type = true) := by
  cases src with
  | object o => exact ⟨o, rfl, hsrc⟩
  | target u r =>
    obtain ⟨hp, hu, o, ho, -⟩ := hsrc
    obtain ⟨s, hs⟩ := h.storage hu
    refine ⟨o, (read_eq h _).symm.trans ho, h.store.accepts hs ((read_target r).symm.trans ho), ?_⟩
    rw [hp]
    intro hc
    cases hc

theorem construct_spec (h : Whole E W) (hw : ¬ Live W w) {src : Source τ Val}
    (hsrc : SourceOk E W src) (hblock : W.mem.get (.block luck.block) = none) :
    ∃ W' threw o, construct E w src luck W = some (W', threw) ∧ Whole E W' ∧ W'.phase = W.phase ∧
      sourceValue (view W) src = some o ∧
      view W' = if threw then leaveView (leftover E luck true) (view W) src
        else assignView E W.phase w src o (view W) := by
  obtain ⟨o, ho, hacc, hbind⟩ := sourceOk_value h hsrc
  obtain ⟨h₁, hview₁⟩ := defaultConstruct_spec h hw
  have hw₁ : view (defaultConstruct w W) w = some (.inactive, none) := by
    rw [hview₁, Function.update_self]
  have hother : ∀ r, src ≠ .target w r := by
    rintro r rfl
    exact hw hsrc.2.1
  have ho₁ : sourceValue (view (defaultConstruct w W)) src = some o := by
    cases src with
    | object o' => exact ho
    | target u r =>
      have hu : u ≠ w := fun e => hother r (e ▸ rfl)
      rw [sourceValue, hview₁, Function.update_of_ne hu]
      exact ho
  obtain ⟨W₂, threw, e, h₂, hphase₂, hview₂⟩ := assign_spec h₁ hw₁ ho₁ hacc hbind
    hblock
  have hphase : (defaultConstruct w W).phase = W.phase := rfl
  cases threw with
  | true =>
    rw [if_pos rfl, hview₁, leaveView_update _ hother] at hview₂
    obtain ⟨h₃, hview₃⟩ := h₂.remove (view_eq_some (by rw [hview₂, Function.update_self])).2
    refine ⟨W₂.remove w, true, o, by simp [construct, e, orRemove], h₃, hphase₂, ho, ?_⟩
    rw [hview₃, hview₂, Function.update_idem, if_pos rfl, Function.update_eq_self_iff,
      leaveView_of_ne _ (moved_ne hother), view_eq_none.mpr hw]
  | false =>
    refine ⟨W₂, false, o, by simp [construct, e, orRemove], h₂, hphase₂, ho, ?_⟩
    rw [hview₂, hview₁, hphase, if_neg (by simp), if_neg (by simp), assignView, assignView,
      Function.update_idem, Function.update_idem]

theorem assignCallable_spec (h : Whole E W) (hw : Live W w) {src : Source τ Val}
    (hsrc : SourceOk E W src) (hself : ∀ r, src ≠ .target w r)
    (hblock : W.mem.get (.block luck.block) = none ∨
      owner W (.of w) = some (.block luck.block)) :
    ∃ W' threw o, assignCallable E w src luck W = some (W', threw) ∧ Whole E W' ∧
      W'.phase = W.phase ∧ sourceValue (view W) src = some o ∧
      view W' = if threw then
          leaveView (leftover E luck true) (Function.update (view W) w (some (.inactive, none))) src
        else assignView E W.phase w src o (view W) := by
  obtain ⟨o, ho, hacc, hbind⟩ := sourceOk_value h hsrc
  obtain ⟨W₁, e₁, h₁, hphase₁, hview₁, hfree⟩ := reset_spec h hw
  have hw₁ : view W₁ w = some (.inactive, none) := by rw [hview₁, Function.update_self]
  have ho₁ : sourceValue (view W₁) src = some o := by
    cases src with
    | object o' => exact ho
    | target u r =>
      have hu : u ≠ w := fun e => hself r (e ▸ rfl)
      rw [sourceValue, hview₁, Function.update_of_ne hu]
      exact ho
  obtain ⟨W₂, threw, e₂, h₂, hphase₂, hview₂⟩ := assign_spec h₁ hw₁ ho₁ hacc
    (by rwa [hphase₁]) (hfree _ hblock)
  refine ⟨W₂, threw, o, by simp [assignCallable, e₁, e₂], h₂, hphase₂.trans hphase₁, ho, ?_⟩
  rw [hview₂, hview₁, hphase₁, assignView, assignView, Function.update_idem, Function.update_idem]

/-- A callable inside the target is gone when the assignment reads it. -/
lemma assignCallable_self (h : Whole E W) (hw : Live W w) (hp : W.phase = .run) (r : Bool) :
    assignCallable E w (.target w r) luck W = none := by
  obtain ⟨W₁, e₁, h₁, hphase₁, hview₁, -⟩ := reset_spec h hw
  have hread : (Source.target w r).read W₁ = none := by
    rw [read_eq h₁, sourceValue, hview₁, Function.update_self]
    rfl
  simp [assignCallable, e₁, assign, hphase₁, hp, assignRuntime, hread]

omit [DecidableEq τ] in
theorem targetRuns_spec (h : Whole E W) (hp : W.phase = .run) {o : Object τ Val}
    (ho : (Source.target w false).read W = some o) (v : Val) :
    ∃ W', targetRuns w v W = some W' ∧ Whole E W' ∧ W'.phase = W.phase ∧
      view W' = Function.update (view W) w
        ((view W w).map fun p => (p.1, some { o with val := v })) := by
  rw [read_target] at ho
  obtain ⟨k, hk, hget⟩ := Option.bind_eq_some_iff.mp ho
  obtain ⟨s, hs, hobj⟩ := Option.bind_eq_some_iff.mp hk
  obtain ⟨hinv, hcon⟩ := h.store.write hk hget v
  refine ⟨_, by simp [targetRuns, hs, hobj, hget], ⟨hinv, h.tmp, h.made, fun hp' => ?_⟩, rfl, ?_⟩
  · have : W.phase = .constant := hp'
    rw [hp] at this
    cases this
  · funext u
    rw [view, hcon]
    by_cases hu : u = w
    · subst hu
      rcases hc : W.constants u with _ | c <;> simp [view, hc]
    · simp [view, hu]

end FunctionWrapper.WrapperSpec
