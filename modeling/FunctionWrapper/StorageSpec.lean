import FunctionWrapper.StorageForms

/-!
What the storage part of each operation does to the contents of the storages.
-/

namespace FunctionWrapper.StorageSpec

open FunctionWrapper.Callables FunctionWrapper.Storage FunctionWrapper.Lifecycle
open FunctionWrapper.StorageForms
open OwnedCells

variable {τ Val Fn : Type} [DecidableEq τ] {E : Env τ Val Fn}

section Memory

variable {m : Mem τ Val} {p : Place} {k : Site} {o : Object τ Val}

lemma readAt_eq (h : m.get k = some o) : readAt o.type k m = some o.val := by
  simp [readAt, h]

lemma destroyAt_eq (h : m.get k = some o) : destroyAt o.type k m = some (m.drop k) := by
  simp [destroyAt, h]

omit [DecidableEq τ] in
lemma overwrite_free (h : m.get (.sbo p) = none) : overwrite E p m = m := by
  simp [overwrite, h]

omit [DecidableEq τ] in
lemma overwrite_trivial (h : m.get (.sbo p) = some o)
    (ht : E.layout.triviallyDestructible o.type = true) : overwrite E p m = m.drop (.sbo p) := by
  simp [overwrite, h, ht]

omit [DecidableEq τ] in
lemma overwrite_drop : overwrite E p (m.drop (.sbo p)) = m.drop (.sbo p) :=
  overwrite_free (by rw [Cells.get_drop, Function.update_self])

end Memory

variable (E) in
/-- The storages change their contents, and nothing else changes. -/
structure Becomes (W W' : World τ Val Fn) (c : Place → Option (Object τ Val)) : Prop where
  inv : StoreInv E W'
  content : content W' = c
  phase : W'.phase = W.phase
  constants : W'.constants = W.constants
  dom : ∀ p, W'.storages p = none ↔ W.storages p = none

omit [DecidableEq τ] in
lemma becomes_set {W : World τ Val Fn} {p : Place} {s s' : WrapperStorage} {m : Mem τ Val}
    {c : Place → Option (Object τ Val)} (hs : W.storages p = some s)
    (h : StoreInv E (({ W with mem := m } : World τ Val Fn).setStorage p s') ∧
      StorageForms.content (({ W with mem := m } : World τ Val Fn).setStorage p s') = c) :
    Becomes E W (({ W with mem := m } : World τ Val Fn).setStorage p s') c := by
  refine ⟨h.1, h.2, rfl, rfl, fun q => ?_⟩
  by_cases hq : q = p
  · subst hq; simp [World.setStorage, hs]
  · simp [World.setStorage, hq]

omit [DecidableEq τ] in
lemma Becomes.trans {W W' W'' : World τ Val Fn} {c c' : Place → Option (Object τ Val)}
    (h : Becomes E W W' c) (h' : Becomes E W' W'' c') : Becomes E W W'' c' :=
  ⟨h'.inv, h'.content, h'.phase.trans h.phase, h'.constants.trans h.constants,
    fun p => (h'.dom p).trans (h.dom p)⟩

omit [DecidableEq τ] in
lemma becomes_refl {W : World τ Val Fn} (h : StoreInv E W) {c : Place → Option (Object τ Val)}
    (hc : content W = c) : Becomes E W W c :=
  ⟨h, hc, rfl, rfl, fun _ => Iff.rfl⟩

variable {W : World τ Val Fn} {p q : Place}

omit [DecidableEq τ] in
lemma get_drop_none {k : Site} (hp : owner W p = some k) (l : Site)
    (hl : W.mem.get l = none ∨ owner W p = some l) : (W.mem.drop k).get l = none := by
  rw [Cells.get_drop]
  by_cases e : l = k
  · rw [e, Function.update_self]
  · rw [Function.update_of_ne e]
    refine hl.resolve_right fun hl' => e ?_
    exact Option.some.inj (hl'.symm.trans hp)

theorem resetStorage_spec (h : StoreInv E W) {s : WrapperStorage} (hs : W.storages p = some s) :
    ∃ W', resetStorage E p W = some W' ∧
      Becomes E W W' (Function.update (content W) p none) ∧
      ∀ k, W.mem.get k = none ∨ owner W p = some k → W'.mem.get k = none := by
  have hh := h.holds p s hs
  generalize hc : content W p = c at hh
  cases hh with
  | empty k =>
    refine ⟨W, by simp [resetStorage, hs], becomes_refl h ?_, ?_⟩
    · rw [← hc, Function.update_eq_self]
    · simp [owner, hs]
  | small o hfit hacc hget =>
    have hp : owner W p = some (.sbo p) := by simp [owner, hs]
    refine ⟨_, ?_, becomes_set hs (h.drop hp (.heap none)), get_drop_none hp⟩
    cases ht : E.layout.triviallyDestructible o.type with
    | true =>
      simp [resetStorage, hs, ht, destroyTrivialSmallStorage, clearStorage,
        overwrite_trivial hget ht, empty_eq]
    | false =>
      simp [resetStorage, hs, ht, E.vtables.typeAt_address, Storage.destroy,
        destroyAt_eq hget, clearStorage, overwrite_drop, empty_eq]
  | heap o n hfit hacc hget =>
    have hp : owner W p = some (.block n) := by simp [owner, hs]
    have hfree : (W.mem.drop (.block n)).get (.sbo p) = none := by
      rw [Cells.get_drop, Function.update_of_ne (by simp)]
      exact h.sbo_free (by simp [hp])
    refine ⟨_, ?_, becomes_set hs (h.drop hp (.heap none)), get_drop_none hp⟩
    simp [resetStorage, hs, E.vtables.typeAt_address, Storage.destroy,
      Payload.pointer, show (heapStorage E n o.type).payload = .heap (some (.block n)) from rfl,
      destroyAt_eq hget, clearStorage, overwrite_free hfree, empty_eq]

theorem vtableMove_spec (h : StoreInv E W) {d s : WrapperStorage} (hpq : p ≠ q)
    (hd : W.storages q = some d) (hs : W.storages p = some s) (hq : content W q = none) :
    ∃ W', vtableMove E q p W = some W' ∧
      Becomes E W W' (Function.update (Function.update (content W) p none) q (content W p)) := by
  have hoq := h.owner_none_of_content hq
  have hfreeq : W.mem.get (.sbo q) = none := h.sbo_free (by simp [hoq])
  have hh := h.holds p s hs
  generalize hc : content W p = c at hh
  cases hh with
  | empty k =>
    refine ⟨W, by simp [vtableMove, hd, hs], becomes_refl h ?_⟩
    have hp0 : Function.update (content W) p none = content W :=
      Function.update_eq_self_iff.mpr hc.symm
    have hq0 : Function.update (content W) q none = content W :=
      Function.update_eq_self_iff.mpr hq.symm
    rw [hp0, hq0]
  | small o hfit hacc hget =>
    have hnothrow : E.layout.nothrowMoveConstructible o.type = true := by
      simp only [Env.fitsInSbo, Bool.and_eq_true] at hfit
      exact hfit.2
    have hput := (W.mem.get_put (.sbo q) o)
    obtain ⟨hinv, hcon⟩ := h.put (s := smallStorage E q o.type) hoq hfreeq rfl
      (.small o hfit hacc (by rw [hput, Function.update_self]))
    have hget' : (W.mem.put (.sbo q) o).get (.sbo p) = some o := by
      rw [hput, Function.update_of_ne (by simpa using hpq)]
      exact hget
    have hop : owner (({ W with mem := W.mem.put (.sbo q) o } : World τ Val Fn).setStorage q
        (smallStorage E q o.type)) p = some (.sbo p) := by
      simp [owner, World.setStorage, hpq, hs]
    obtain ⟨hinv', hcon'⟩ := hinv.drop hop (.heap none)
    refine ⟨_, ?_, (becomes_set hd ⟨hinv, hcon⟩).trans
      (becomes_set (s := smallStorage E p o.type) ?_ ⟨hinv', ?_⟩)⟩
    · simp [vtableMove, hd, hs, E.vtables.typeAt_address, Storage.move,
        readAt_eq hget, hnothrow, guard, overwrite_free hfreeq, destroyAt_eq hget', clearStorage,
        overwrite_drop, empty_eq, World.setStorage]
      rfl
    · simp [World.setStorage, hpq, hs]
    · rw [hcon', hcon, Function.update_comm hpq]
  | heap o n hfit hacc hget =>
    have hop : owner W p = some (.block n) := by simp [owner, hs]
    have hfreep : W.mem.get (.sbo p) = none := h.sbo_free (by simp [hop])
    obtain ⟨hinv, hcon⟩ := h.handOver hpq hs hoq (.heap none)
    refine ⟨_, ?_, ⟨hinv, by rw [hcon, hc], rfl, rfl, fun r => ?_⟩⟩
    · simp [vtableMove, hd, hs, E.vtables.typeAt_address, Storage.move,
        Payload.pointer, show (heapStorage E n o.type).payload = .heap (some (.block n)) from rfl,
        overwrite_free hfreeq, overwrite_free hfreep, clearStorage, empty_eq]
      rfl
    · by_cases hrp : r = p
      · subst hrp; simp [World.setStorage, hs]
      · by_cases hrq : r = q
        · subst hrq; simp [World.setStorage, hrp, hd]
        · simp [World.setStorage, hrp, hrq]

theorem moveStorage_spec (h : StoreInv E W) {d s : WrapperStorage} (hpq : p ≠ q)
    (hd : W.storages q = some d) (hs : W.storages p = some s) (hq : content W q = none) :
    ∃ W', moveStorage E q p W = some W' ∧
      Becomes E W W' (Function.update (Function.update (content W) p none) q (content W p)) := by
  have hslow := vtableMove_spec h hpq hd hs hq
  have hoq := h.owner_none_of_content hq
  have hfreeq : W.mem.get (.sbo q) = none := h.sbo_free (by simp [hoq])
  have hh := h.holds p s hs
  generalize hc : content W p = c at hh
  cases hh with
  | empty k => simpa [moveStorage, hs, hc] using hslow
  | heap o n hfit hacc hget => simpa [moveStorage, hs, hc] using hslow
  | small o hfit hacc hget =>
    cases ht : E.layout.triviallyCopyable o.type with
    | false => simpa [moveStorage, hs, hc, ht] using hslow
    | true =>
      have hput := (W.mem.get_put (.sbo q) o)
      obtain ⟨hinv, hcon⟩ := h.put (s := smallStorage E q o.type) hoq hfreeq rfl
        (.small o hfit hacc (by rw [hput, Function.update_self]))
      have hget' : (W.mem.put (.sbo q) o).get (.sbo p) = some o := by
        rw [hput, Function.update_of_ne (by simpa using hpq)]
        exact hget
      have hop : owner (({ W with mem := W.mem.put (.sbo q) o } : World τ Val Fn).setStorage q
          (smallStorage E q o.type)) p = some (.sbo p) := by
        simp [owner, World.setStorage, hpq, hs]
      obtain ⟨hinv', hcon'⟩ := hinv.drop hop (.heap none)
      refine ⟨_, ?_, (becomes_set hd ⟨hinv, hcon⟩).trans
        (becomes_set (s := smallStorage E p o.type) ?_ ⟨hinv', ?_⟩)⟩
      · simp [moveStorage, hs, ht, moveTrivialSmallStorage, copyTrivialSmallStorage,
          show (smallStorage E p o.type).payload = .sbo from rfl, hget, overwrite_free hfreeq,
          clearStorage, overwrite_trivial hget' (E.layout.destructible_of_copyable _ ht), empty_eq,
          World.setStorage]
        rfl
      · simp [World.setStorage, hpq, hs]
      · rw [hcon', hcon, Function.update_comm hpq]

theorem swapStorages_spec (h : StoreInv E W) {d s : WrapperStorage} {w u : ℕ} (hwu : w ≠ u)
    (hd : W.storages (.of u) = some d) (hs : W.storages (.of w) = some s)
    (htmp : W.storages .tmp = none) :
    ∃ W', swapStorages E (.of w) (.of u) W = some W' ∧
      Becomes E W W' (Function.update (Function.update (content W) (.of w) (content W (.of u)))
        (.of u) (content W (.of w))) := by
  have hne : Place.of w ≠ Place.of u := by simpa using hwu
  have htmp0 : content W .tmp = none := by simp [StorageForms.content, owner, htmp]
  -- the temporary is made empty
  obtain ⟨h₀, c₀⟩ := h.setFree (p := .tmp) (by simp [owner, htmp]) (some .empty) fun t ht =>
    ⟨_, (Option.some.inj ht).symm.trans empty_eq⟩
  set W₀ : World τ Val Fn := { W with storages := Function.update W.storages .tmp (some .empty) }
  have s₀ : ∀ v, W₀.storages (.of v) = W.storages (.of v) := fun v => by simp [W₀]
  -- three moves
  obtain ⟨W₁, e₁, b₁⟩ := vtableMove_spec h₀ (p := .of w) (q := .tmp) (by simp)
    (show W₀.storages .tmp = some .empty by simp [W₀]) ((s₀ w).trans hs) (by rw [c₀, htmp0])
  obtain ⟨d₁, hd₁⟩ := Option.ne_none_iff_exists'.mp
    (mt (b₁.dom (.of w)).mp (by rw [s₀, hs]; simp))
  obtain ⟨s₁, hs₁⟩ := Option.ne_none_iff_exists'.mp
    (mt (b₁.dom (.of u)).mp (by rw [s₀, hd]; simp))
  obtain ⟨W₂, e₂, b₂⟩ := vtableMove_spec b₁.inv hne.symm hd₁ hs₁
    (by rw [b₁.content, Function.update_of_ne (by simp), Function.update_self])
  obtain ⟨d₂, hd₂⟩ := Option.ne_none_iff_exists'.mp
    (mt ((b₂.dom (.of u)).trans (b₁.dom _)).mp (by rw [s₀, hd]; simp))
  obtain ⟨s₂, hs₂⟩ := Option.ne_none_iff_exists'.mp
    (mt ((b₂.dom .tmp).trans (b₁.dom _)).mp (by simp [W₀]))
  obtain ⟨W₃, e₃, b₃⟩ := vtableMove_spec b₂.inv (p := .tmp) (q := .of u) (by simp) hd₂ hs₂
    (by rw [b₂.content, Function.update_of_ne hne.symm, Function.update_self])
  have hcon : StorageForms.content W₃ = Function.update (Function.update (StorageForms.content W)
      (.of w) (StorageForms.content W (.of u))) (.of u) (StorageForms.content W (.of w)) := by
    rw [b₃.content, b₂.content, b₁.content, c₀]
    funext v
    by_cases hvu : v = .of u
    · subst hvu
      simp
    · by_cases hvw : v = .of w
      · subst hvw
        simp [hvu, Function.update_of_ne hne.symm]
      · by_cases hvt : v = .tmp
        · subst hvt
          simp [htmp0]
        · simp [hvu, hvw, hvt]
  -- the temporary is given up empty
  have htmp3 : owner W₃ .tmp = none := b₃.inv.owner_none_of_content (by rw [hcon]; simp [htmp0])
  obtain ⟨h₄, c₄⟩ := b₃.inv.setFree htmp3 none fun t ht => by cases ht
  refine ⟨_, ?_, ⟨h₄, c₄.trans hcon, ?_, ?_, fun v => ?_⟩⟩
  · simp only [swapStorages, show W.setStorage .tmp .empty = W₀ from rfl, e₁, e₂, e₃,
      Option.bind_eq_bind, Option.bind_some]
    rfl
  · exact b₃.phase.trans (b₂.phase.trans b₁.phase)
  · exact b₃.constants.trans (b₂.constants.trans b₁.constants)
  · by_cases hv : v = .tmp
    · subst hv; simp [htmp]
    · simp only [Function.update_of_ne hv]
      rw [b₃.dom, b₂.dom, b₁.dom]
      simp [W₀, hv]

omit [DecidableEq τ] in
theorem emplace_spec (h : StoreInv E W) {s : WrapperStorage} (hs : W.storages p = some s)
    (hp : content W p = none) {o : Object τ Val} (hacc : E.accepts o.type = true) {luck : Luck}
    (hblock : W.mem.get (.block luck.block) = none) {r : Mem τ Val × WrapperStorage × Bool}
    (hr : r = if E.fitsInSbo o.type then emplaceSmallStorage E p o luck W.mem s
      else emplaceHeapStorage E p o luck W.mem s) :
    Becomes E W (({ W with mem := r.1 } : World τ Val Fn).setStorage p r.2.1)
      (if r.2.2 then content W else Function.update (content W) p (some o)) := by
  have hop := h.owner_none_of_content hp
  have hfree : W.mem.get (.sbo p) = none := h.sbo_free (by simp [hop])
  obtain ⟨k, rfl⟩ := h.eq_empty hs hp
  cases hfit : E.fitsInSbo o.type with
  | true =>
    simp only [hfit, if_true, emplaceSmallStorage, overwrite_free hfree] at hr
    cases hthrow : luck.throws with
    | true =>
      simp only [hthrow, if_true] at hr
      subst hr
      exact becomes_set hs (h.setFree hop (some (emptyStorage .sbo)) fun t ht =>
        ⟨.sbo, (Option.some.inj ht).symm⟩)
    | false =>
      simp only [hthrow, Bool.false_eq_true, if_false] at hr
      subst hr
      exact becomes_set hs (h.put (s := smallStorage E p o.type) hop hfree rfl
        (.small o hfit hacc (by rw [Cells.get_put, Function.update_self])))
  | false =>
    simp only [hfit, Bool.false_eq_true, if_false, emplaceHeapStorage, overwrite_free hfree] at hr
    cases hthrow : luck.allocFails || luck.throws with
    | true =>
      simp only [hthrow, if_true] at hr
      subst hr
      exact becomes_set hs (h.setFree hop (some (emptyStorage k)) fun t ht =>
        ⟨k, (Option.some.inj ht).symm⟩)
    | false =>
      simp only [hthrow, Bool.false_eq_true, if_false] at hr
      subst hr
      exact becomes_set hs (h.put (s := heapStorage E luck.block o.type) hop hblock rfl
        (.heap o luck.block hfit hacc (by rw [Cells.get_put, Function.update_self])))

theorem copyStorage_spec (h : StoreInv E W) {d s : WrapperStorage}
    (hd : W.storages q = some d) (hs : W.storages p = some s) (hq : content W q = none)
    (hcopy : ∀ o, content W p = some o → E.layout.copyConstructible o.type = true) {luck : Luck}
    (hblock : W.mem.get (.block luck.block) = none) :
    ∃ W' threw, copyStorage E q p luck W = some (W', threw) ∧
      Becomes E W W' (if threw then content W else Function.update (content W) q (content W p)) := by
  have hoq := h.owner_none_of_content hq
  have hfree : W.mem.get (.sbo q) = none := h.sbo_free (by simp [hoq])
  obtain ⟨k, rfl⟩ := h.eq_empty hd hq
  have hh := h.holds p s hs
  generalize hc : content W p = c at hh hcopy
  cases hh with
  | empty l =>
    refine ⟨W, false, by simp [copyStorage, hd, hs], becomes_refl h ?_⟩
    rw [if_neg (by simp), Function.update_eq_self_iff.mpr hq.symm]
  | small o hfit hacc hget =>
    have hsmall := becomes_set hd (h.put (s := smallStorage E q o.type) hoq hfree rfl
      (.small o hfit hacc (by rw [Cells.get_put, Function.update_self])))
    cases ht : E.layout.triviallyCopyable o.type with
    | true =>
      refine ⟨_, false, ?_, hsmall⟩
      simp [copyStorage, hd, hs, ht, copyTrivialSmallStorage,
        show (smallStorage E p o.type).payload = .sbo from rfl, hget, overwrite_free hfree]
      rfl
    | false =>
      cases hthrow : luck.throws with
      | true =>
        refine ⟨_, true, ?_, becomes_set hd (h.setFree hoq (some (emptyStorage .sbo)) fun t ht =>
          ⟨.sbo, (Option.some.inj ht).symm⟩)⟩
        simp [copyStorage, hd, hs, ht, E.vtables.typeAt_address, hcopy o rfl, guard,
          Storage.copy, readAt_eq hget, hthrow, overwrite_free hfree]
        rfl
      | false =>
        refine ⟨_, false, ?_, hsmall⟩
        simp [copyStorage, hd, hs, ht, E.vtables.typeAt_address, hcopy o rfl, guard,
          Storage.copy, readAt_eq hget, hthrow, overwrite_free hfree]
        rfl
  | heap o n hfit hacc hget =>
    cases hthrow : luck.allocFails || luck.throws with
    | true =>
      refine ⟨_, true, ?_, becomes_set hd (h.setFree hoq (some (emptyStorage k)) fun t ht =>
        ⟨k, (Option.some.inj ht).symm⟩)⟩
      simp [copyStorage, hd, hs, E.vtables.typeAt_address, hcopy o rfl, guard,
        Storage.copy, Payload.pointer,
        show (heapStorage E n o.type).payload = .heap (some (.block n)) from rfl,
        readAt_eq hget, hthrow]
    | false =>
      refine ⟨_, false, ?_, becomes_set hd (h.put (s := heapStorage E luck.block o.type) hoq hblock
        rfl (.heap o luck.block hfit hacc (by rw [Cells.get_put, Function.update_self])))⟩
      simp [copyStorage, hd, hs, E.vtables.typeAt_address, hcopy o rfl, guard,
        Storage.copy, Payload.pointer,
        show (heapStorage E n o.type).payload = .heap (some (.block n)) from rfl,
        readAt_eq hget, hthrow, overwrite_free hfree]
      rfl

end FunctionWrapper.StorageSpec
