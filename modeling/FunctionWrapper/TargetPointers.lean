import FunctionWrapper.DispatchSpec
import FunctionWrapper.FastPaths
import FunctionWrapper.Simulations

/-!
How long a pointer from `target` is good.

The pointer is to the object in the storage. An object on the heap keeps its block when its wrapper
is moved or swapped, so that the pointer is good as long as some wrapper keeps the callable; an
object in the buffer ends when its wrapper is moved from or swapped.
-/

namespace FunctionWrapper.TargetPointers

open FunctionWrapper.Callables FunctionWrapper.Storage FunctionWrapper.Lifecycle
open FunctionWrapper.StorageForms FunctionWrapper.StorageSpec FunctionWrapper.WrapperSpec
open FunctionWrapper.FastPaths FunctionWrapper.RunInvariant FunctionWrapper.Dispatch
open FunctionWrapper.DispatchSpec
open OwnedCells

variable {τ Val Fn : Type}

section Cells

variable {κ α : Type} [DecidableEq κ] {C : Cells κ α} {k l : κ} {i : ℕ} {a : α}

lemma cell_put_of_ne (hl : l ≠ k) : (C.put k a).cell l = C.cell l := Function.update_of_ne hl _ _

lemma cell_drop_of_ne (hl : l ≠ k) : (C.drop k).cell l = C.cell l := by
  unfold Cells.drop
  split
  · rfl
  · exact Function.update_of_ne hl _ _

lemma mem_ended_drop (hk : C.cell k = some (i, a)) : i ∈ (C.drop k).ended := by
  simp [Cells.drop, hk]

lemma ended_subset_drop : C.ended ⊆ (C.drop k).ended := by
  unfold Cells.drop
  split
  · exact fun _ h => h
  · exact fun _ h => List.mem_cons_of_mem _ h

lemma cell_write (b : α) (hk : C.cell k = some (i, a)) : (C.write k b).cell k = some (i, b) := by
  simp [Cells.write, hk]

lemma cell_write_of_ne (b : α) (hl : l ≠ k) : (C.write k b).cell l = C.cell l := by
  unfold Cells.write
  split
  · rfl
  · exact Function.update_of_ne hl _ _

lemma ended_write (b : α) : (C.write k b).ended = C.ended := by
  unfold Cells.write
  split <;> rfl

end Cells

variable [DecidableEq τ] {E : Env τ Val Fn} {W W' W'' : World τ Val Fn} {p q : Place}

lemma resetStorage_cases (h : StoreInv E W) (e : resetStorage E p W = some W') :
    (owner W p = none ∧ W' = W) ∨ ∃ k l, owner W p = some k ∧
      W' = ({ W with mem := W.mem.drop k } : World τ Val Fn).setStorage p (emptyStorage l) := by
  obtain ⟨s, hs, -⟩ := Option.bind_eq_some_iff.mp e
  have hh := h.holds p s hs
  generalize content W p = c at hh
  cases hh with
  | empty k =>
    have e' : some W = some W' := by simpa [resetStorage, hs] using e
    exact .inl ⟨by simp [owner, hs], (Option.some.inj e').symm⟩
  | small o hfit hacc hget =>
    refine .inr ⟨.sbo p, .heap none, by simp [owner, hs], ?_⟩
    cases ht : E.layout.triviallyDestructible o.type with
    | true =>
      simp [resetStorage, hs, ht, destroyTrivialSmallStorage, clearStorage,
        overwrite_trivial hget ht, empty_eq] at e
      exact e.symm
    | false =>
      simp [resetStorage, hs, ht, E.vtables.typeAt_address, Storage.destroy, destroyAt_eq hget,
        clearStorage, overwrite_drop, empty_eq] at e
      exact e.symm
  | heap o n hfit hacc hget =>
    have hp : owner W p = some (.block n) := by simp [owner, hs]
    have hfree : (W.mem.drop (.block n)).get (.sbo p) = none := by
      rw [Cells.get_drop, Function.update_of_ne (by simp)]
      exact h.sbo_free (by simp [hp])
    refine .inr ⟨.block n, .heap none, hp, ?_⟩
    simp [resetStorage, hs, E.vtables.typeAt_address, Storage.destroy,
      Payload.pointer, show (heapStorage E n o.type).payload = .heap (some (.block n)) from rfl,
      destroyAt_eq hget, clearStorage, overwrite_free hfree, empty_eq] at e
    exact e.symm

/-- A small object is made again in the other buffer and ends; a block of the heap changes hands. -/
lemma vtableMove_cases (h : StoreInv E W) (hpq : p ≠ q) (hq : content W q = none)
    (e : vtableMove E q p W = some W') :
    (owner W p = none ∧ W' = W) ∨
    (∃ o, owner W p = some (.sbo p) ∧ W.mem.get (.sbo q) = none ∧
      W' = (({ W with mem := (W.mem.put (.sbo q) o).drop (.sbo p) } : World τ Val Fn).setStorage q
        (smallStorage E q o.type)).setStorage p .empty) ∨
    ∃ n T, owner W p = some (.block n) ∧
      W' = (W.setStorage q (heapStorage E n T)).setStorage p .empty := by
  obtain ⟨d, hd, e'⟩ := Option.bind_eq_some_iff.mp e
  obtain ⟨s, hs, -⟩ := Option.bind_eq_some_iff.mp e'
  have hoq := h.owner_none_of_content hq
  have hfreeq : W.mem.get (.sbo q) = none := h.sbo_free (by simp [hoq])
  have hh := h.holds p s hs
  generalize content W p = c at hh
  cases hh with
  | empty k =>
    have e' : some W = some W' := by simpa [vtableMove, hd, hs] using e
    exact .inl ⟨by simp [owner, hs], (Option.some.inj e').symm⟩
  | small o hfit hacc hget =>
    have hnothrow : E.layout.nothrowMoveConstructible o.type = true := by
      simp only [Env.fitsInSbo, Bool.and_eq_true] at hfit
      exact hfit.2
    have hget' : (W.mem.put (.sbo q) o).get (.sbo p) = some o := by
      rw [W.mem.get_put, Function.update_of_ne (by simpa using hpq)]
      exact hget
    refine .inr (.inl ⟨o, by simp [owner, hs], hfreeq, ?_⟩)
    simp [vtableMove, hd, hs, E.vtables.typeAt_address, Storage.move,
      readAt_eq hget, hnothrow, guard, overwrite_free hfreeq, destroyAt_eq hget', clearStorage,
      overwrite_drop] at e
    exact e.symm
  | heap o n hfit hacc hget =>
    have hop : owner W p = some (.block n) := by simp [owner, hs]
    have hfreep : W.mem.get (.sbo p) = none := h.sbo_free (by simp [hop])
    refine .inr (.inr ⟨n, o.type, hop, ?_⟩)
    simp [vtableMove, hd, hs, E.vtables.typeAt_address, Storage.move,
      Payload.pointer, show (heapStorage E n o.type).payload = .heap (some (.block n)) from rfl,
      overwrite_free hfreeq, overwrite_free hfreep, clearStorage] at e
    exact e.symm

/-! ### Objects that are carried along -/

/-- What becomes of the objects in the storages: `f` tells which storage has the object of a storage
afterwards, in the same cell and with the same number. The others have ended. -/
structure Carries (f : Place → Site → Option Place) (W W' : World τ Val Fn) : Prop where
  kept : ∀ p q k i o, owner W p = some k → W.mem.cell k = some (i, o) → f p k = some q →
    owner W' q = some k ∧ ∃ v, W'.mem.cell k = some (i, { o with val := v })
  ended : ∀ p k i o, owner W p = some k → W.mem.cell k = some (i, o) → f p k = none →
    i ∈ W'.mem.ended
  grows : W.mem.ended ⊆ W'.mem.ended

def same (p : Place) (_ : Site) : Option Place := some p

def endAt (p : Place) (r : Place) (_ : Site) : Option Place := if r = p then none else some r

/-- The object of one storage passes to another one, if it is on the heap. -/
def moveTo (p q : Place) (r : Place) : Site → Option Place
  | .block _ => if r = p then some q else some r
  | .sbo _ => if r = p then none else some r

variable {f g : Place → Site → Option Place}

omit [DecidableEq τ] in
lemma Carries.trans (h : Carries f W W') (h' : Carries g W' W'') :
    Carries (fun p k => (f p k).bind fun q => g q k) W W'' where
  kept p r k i o hp hk hr := by
    obtain ⟨q, hq, hgr⟩ := Option.bind_eq_some_iff.mp hr
    obtain ⟨hq', v, hv⟩ := h.kept p q k i o hp hk hq
    obtain ⟨hr', v', hv'⟩ := h'.kept q r k i _ hq' hv hgr
    exact ⟨hr', v', hv'⟩
  ended p k i o hp hk hnone := by
    rcases hf : f p k with _ | q
    · exact h'.grows (h.ended p k i o hp hk hf)
    · obtain ⟨hq', v, hv⟩ := h.kept p q k i o hp hk hf
      exact h'.ended q k i _ hq' hv (by simpa [hf] using hnone)
  grows _ hi := h'.grows (h.grows hi)

omit [DecidableEq τ] in
lemma Carries.congr (h : Carries f W W') (hfg : ∀ p k, owner W p = some k → f p k = g p k) :
    Carries g W W' where
  kept p q k i o hp hk hq := h.kept p q k i o hp hk ((hfg p k hp).trans hq)
  ended p k i o hp hk hnone := h.ended p k i o hp hk ((hfg p k hp).trans hnone)
  grows := h.grows

omit [DecidableEq τ] in
lemma Carries.after (h : Carries same W W') (h' : Carries g W' W'') : Carries g W W'' := h.trans h'

omit [DecidableEq τ] in
lemma Carries.before (h : Carries f W W') (h' : Carries same W' W'') : Carries f W W'' :=
  (h.trans h').congr fun p k _ => by rcases f p k with _ | q <;> rfl

omit [DecidableEq τ] in
lemma carries_of_eq (hmem : W'.mem = W.mem) (hown : owner W' = owner W) : Carries same W W' where
  kept p q k i o hp hk hq := by
    obtain rfl : p = q := Option.some.inj hq
    exact ⟨by rw [hown, hp], o.val, by rw [hmem, hk]⟩
  ended p k i o _ _ hnone := by cases hnone
  grows := by rw [hmem]; exact fun _ hi => hi

omit [DecidableEq τ] in
lemma carries_nothing (hnone : ∀ p, owner W p = none) (hgrows : W.mem.ended ⊆ W'.mem.ended) :
    Carries f W W' where
  kept p q k i o hp := by simp [hnone] at hp
  ended p k i o hp := by simp [hnone] at hp
  grows := hgrows

omit [DecidableEq τ] in
lemma carries_put (h : W.mem.OwnedBy (owner W)) {k : Site} (hp : owner W p = none) (hk : W.mem.get k = none)
    (o : Object τ Val) (s : WrapperStorage) :
    Carries same W (({ W with mem := W.mem.put k o } : World τ Val Fn).setStorage p s) where
  kept r q l i o' hr hl hq := by
    obtain rfl : r = q := Option.some.inj hq
    have hrp : r ≠ p := fun e => by simp [e, hp] at hr
    have hlk : l ≠ k := fun e => h.occupied r l hr (e ▸ hk)
    refine ⟨?_, o'.val, (cell_put_of_ne hlk).trans hl⟩
    rw [owner_setStorage, Function.update_of_ne hrp]
    exact hr
  ended p k i o _ _ hnone := by cases hnone
  grows _ hi := hi

omit [DecidableEq τ] in
/-- The object of a storage ends. -/
lemma carries_drop (h : W.mem.OwnedBy (owner W)) {k : Site} (hp : owner W p = some k) (l : Payload) :
    Carries (endAt p) W
      (({ W with mem := W.mem.drop k } : World τ Val Fn).setStorage p (emptyStorage l)) where
  kept r q j i o hr hj hq := by
    by_cases hrp : r = p
    · simp [endAt, hrp] at hq
    · obtain rfl : r = q := by simpa [endAt, hrp] using hq
      have hjk : j ≠ k := fun e => hrp (h.unique r p k (e ▸ hr) hp)
      refine ⟨?_, o.val, (cell_drop_of_ne hjk).trans hj⟩
      rw [owner_setStorage, Function.update_of_ne hrp]
      exact hr
  ended r j i o hr hj hnone := by
    obtain rfl : r = p := by simpa [endAt] using hnone
    obtain rfl : k = j := Option.some.inj (hp.symm.trans hr)
    exact mem_ended_drop hj
  grows := ended_subset_drop

omit [DecidableEq τ] in
lemma carries_handOver (hpq : p ≠ q) {n : ℕ} (hp : owner W p = some (.block n))
    (hq : owner W q = none) (E : Env τ Val Fn) (T : τ) (l : Payload) :
    Carries (moveTo p q) W
      ((W.setStorage q (heapStorage E n T)).setStorage p (emptyStorage l)) := by
  have hown : ∀ r, r ≠ p → r ≠ q →
      owner ((W.setStorage q (heapStorage E n T)).setStorage p (emptyStorage l)) r = owner W r := by
    intro r hrp hrq
    rw [owner_setStorage, owner_setStorage, Function.update_of_ne hrp, Function.update_of_ne hrq]
  refine ⟨fun r t k i o hr hk ht => ?_, fun r k i o hr hk hnone => ?_, fun _ hi => hi⟩
  · by_cases hrp : r = p
    · subst hrp
      obtain rfl : Site.block n = k := Option.some.inj (hp.symm.trans hr)
      obtain rfl : q = t := by simpa [moveTo] using ht
      refine ⟨?_, o.val, hk⟩
      rw [owner_setStorage, owner_setStorage, Function.update_of_ne (Ne.symm hpq),
        Function.update_self]
      rfl
    · obtain rfl : r = t := by cases k <;> simpa [moveTo, hrp] using ht
      have hrq : r ≠ q := fun e => by simp [e, hq] at hr
      exact ⟨(hown r hrp hrq).trans hr, o.val, hk⟩
  · by_cases hrp : r = p
    · subst hrp
      obtain rfl : Site.block n = k := Option.some.inj (hp.symm.trans hr)
      simp [moveTo] at hnone
    · cases k <;> simp [moveTo, hrp] at hnone

omit [DecidableEq τ] in
lemma carries_write {k : Site} {o : Object τ Val} (hk : W.mem.get k = some o) (v : Val) :
    Carries same W { W with mem := W.mem.write k { o with val := v } } where
  kept r q l i o' hr hl hq := by
    obtain rfl : r = q := Option.some.inj hq
    by_cases hlk : l = k
    · subst hlk
      obtain rfl : o' = o := by simpa [Cells.get, hl] using hk
      exact ⟨hr, v, cell_write _ hl⟩
    · exact ⟨hr, o'.val, (cell_write_of_ne _ hlk).trans hl⟩
  ended p k i o _ _ hnone := by cases hnone
  grows := by rw [show ({ W with mem := W.mem.write k { o with val := v } } : World τ Val Fn).mem =
    W.mem.write k { o with val := v } from rfl, ended_write]; exact fun _ hi => hi

lemma carries_resetStorage (h : StoreInv E W) (e : resetStorage E p W = some W') :
    Carries (endAt p) W W' := by
  rcases resetStorage_cases h e with ⟨hp, rfl⟩ | ⟨k, l, hp, rfl⟩
  · refine (carries_of_eq rfl rfl).congr fun r k hr => ?_
    have hrp : r ≠ p := fun e => by simp [e, hp] at hr
    simp [same, endAt, hrp]
  · exact carries_drop h.owned hp l

lemma carries_vtableMove (h : StoreInv E W) (hpq : p ≠ q) (hq : content W q = none)
    (e : vtableMove E q p W = some W') : Carries (moveTo p q) W W' := by
  have hoq := h.owner_none_of_content hq
  rcases vtableMove_cases h hpq hq e with ⟨hp, rfl⟩ | ⟨o, hp, hfree, rfl⟩ | ⟨n, T, hp, rfl⟩
  · refine (carries_of_eq rfl rfl).congr fun r k hr => ?_
    have hrp : r ≠ p := fun e => by simp [e, hp] at hr
    cases k <;> simp [same, moveTo, hrp]
  · -- the new object is made before the old one ends
    have hput := carries_put h.owned hoq hfree o (smallStorage E q o.type)
    set W₁ : World τ Val Fn :=
      ({ W with mem := W.mem.put (.sbo q) o } : World τ Val Fn).setStorage q (smallStorage E q o.type)
    have hown : owner W₁ = Function.update (owner W) q (some (.sbo q)) := owner_setStorage _ q _
    have hop : owner W₁ p = some (.sbo p) := by rw [hown, Function.update_of_ne hpq, hp]
    have h₁ : W₁.mem.OwnedBy (owner W₁) := hown ▸ h.owned.put hoq hfree o
    refine (hput.trans (carries_drop h₁ hop (.heap none))).congr fun r k hr => ?_
    by_cases hrp : r = p
    · subst hrp
      obtain rfl : Site.sbo r = k := Option.some.inj (hp.symm.trans hr)
      simp [same, endAt, moveTo]
    · cases k <;> simp [same, endAt, moveTo, hrp]
  · exact carries_handOver hpq hp hoq E T _

lemma carries_moveStorage (h : StoreInv E W) (hpq : p ≠ q) {d s : WrapperStorage}
    (hd : W.storages q = some d) (hs : W.storages p = some s) (hq : content W q = none)
    (e : moveStorage E q p W = some W') : Carries (moveTo p q) W W' := by
  refine carries_vtableMove h hpq hq ?_
  cases ht : s.hasTrivialSmallRelocate with
  | true => rw [← (moveStorage_eq h hpq hd hs ht).1, e]
  | false => simpa [moveStorage, hs, ht] using e

def swapAt (p q : Place) (r : Place) : Site → Option Place
  | .block _ => if r = p then some q else if r = q then some p else some r
  | .sbo _ => if r = p ∨ r = q then none else some r

omit [DecidableEq τ] in
lemma owner_setFree (hp : owner W p = none) {s : Option WrapperStorage}
    (hs : s.bind (·.obj) = none) :
    owner { W with storages := Function.update W.storages p s } = owner W := by
  funext r
  by_cases hr : r = p
  · subst hr
    rw [hp]
    simpa [owner] using hs
  · simp [owner, hr]

lemma vtableMove_becomes (h : StoreInv E W) (hpq : p ≠ q) (hq : content W q = none)
    (e : vtableMove E q p W = some W') : Becomes E W W'
      (Function.update (Function.update (content W) p none) q (content W p)) := by
  obtain ⟨d, hd, e'⟩ := Option.bind_eq_some_iff.mp e
  obtain ⟨s, hs, -⟩ := Option.bind_eq_some_iff.mp e'
  obtain ⟨W₁, e₁, hb⟩ := vtableMove_spec h hpq hd hs hq
  obtain rfl := Option.some.inj (e₁.symm.trans e)
  exact hb

lemma carries_swapStorages (h : StoreInv E W) {w u : ℕ} (hwu : w ≠ u)
    (htmp : W.storages .tmp = none) (e : swapStorages E (.of w) (.of u) W = some W') :
    Carries (swapAt (.of w) (.of u)) W W' := by
  have hne : Place.of w ≠ Place.of u := by simpa using hwu
  have htmp0 : owner W .tmp = none := by simp [owner, htmp]
  obtain ⟨h₀, c₀⟩ := h.setFree (p := .tmp) htmp0 (some .empty) fun t ht =>
    ⟨_, (Option.some.inj ht).symm.trans empty_eq⟩
  have k₀ : Carries same W (W.setStorage .tmp .empty) := carries_of_eq rfl (owner_setFree htmp0 rfl)
  -- three moves
  obtain ⟨W₁, e₁, e⟩ := Option.bind_eq_some_iff.mp e
  obtain ⟨W₂, e₂, e⟩ := Option.bind_eq_some_iff.mp e
  obtain ⟨W₃, e₃, e⟩ := Option.bind_eq_some_iff.mp e
  have hc₀ : content (W.setStorage .tmp .empty) .tmp = none := by
    rw [show content (W.setStorage .tmp .empty) = content W from c₀, content, htmp0]
    rfl
  have k₁ := carries_vtableMove h₀ (p := .of w) (by simp) hc₀ e₁
  have b₁ := vtableMove_becomes h₀ (p := .of w) (by simp) hc₀ e₁
  have hc₁ : content W₁ (.of w) = none := by
    rw [b₁.content, Function.update_of_ne (by simp), Function.update_self]
  have k₂ := carries_vtableMove b₁.inv hne.symm hc₁ e₂
  have b₂ := vtableMove_becomes b₁.inv hne.symm hc₁ e₂
  have hc₂ : content W₂ (.of u) = none := by
    rw [b₂.content, Function.update_of_ne hne.symm, Function.update_self]
  have k₃ := carries_vtableMove b₂.inv (p := .tmp) (by simp) hc₂ e₃
  have b₃ := vtableMove_becomes b₂.inv (p := .tmp) (by simp) hc₂ e₃
  have hc₃ : content W₃ .tmp = none := by
    rw [b₃.content, Function.update_of_ne (by simp), Function.update_self]
  -- the temporary is given up
  have k₄ : Carries same W₃ W' := by
    obtain rfl := Option.some.inj e
    exact carries_of_eq rfl (owner_setFree (b₃.inv.owner_none_of_content hc₃) rfl)
  refine ((((k₀.trans k₁).trans k₂).trans k₃).trans k₄).congr fun r k hr => ?_
  have hrt : r ≠ .tmp := fun e => by simp [e, htmp0] at hr
  by_cases hrw : r = .of w
  · subst hrw
    cases k <;> simp [same, moveTo, swapAt]
  · by_cases hru : r = .of u
    · subst hru
      cases k <;> simp [same, moveTo, swapAt, Ne.symm hwu]
    · cases k <;> simp [same, moveTo, swapAt, hrt, hrw, hru]

omit [DecidableEq τ] in
lemma carries_emplace (h : StoreInv E W) {s : WrapperStorage} (hp : content W p = none)
    (hs : W.storages p = some s) {o : Object τ Val} {luck : Luck}
    (hblock : W.mem.get (.block luck.block) = none) {r : Mem τ Val × WrapperStorage × Bool}
    (hr : r = if E.fitsInSbo o.type then emplaceSmallStorage E p o luck W.mem s
      else emplaceHeapStorage E p o luck W.mem s) :
    Carries same W (({ W with mem := r.1 } : World τ Val Fn).setStorage p r.2.1) := by
  have hop := h.owner_none_of_content hp
  have hfree : W.mem.get (.sbo p) = none := h.sbo_free (by simp [hop])
  obtain ⟨k, rfl⟩ := h.eq_empty hs hp
  subst hr
  cases hfit : E.fitsInSbo o.type with
  | true =>
    cases hthrow : luck.throws with
    | true =>
      simp only [if_true, emplaceSmallStorage, hthrow, overwrite_free hfree]
      exact carries_of_eq rfl (owner_setFree hop rfl)
    | false =>
      simp only [if_true, emplaceSmallStorage, hthrow, overwrite_free hfree, Bool.false_eq_true,
        if_false]
      exact carries_put h.owned hop hfree o _
  | false =>
    cases hthrow : luck.allocFails || luck.throws with
    | true =>
      simp only [Bool.false_eq_true, if_false, emplaceHeapStorage, hthrow, if_true]
      exact carries_of_eq rfl (owner_setFree hop rfl)
    | false =>
      simp only [Bool.false_eq_true, if_false, emplaceHeapStorage, hthrow, overwrite_free hfree]
      exact carries_put h.owned hop hblock o _

lemma carries_copyStorage (h : StoreInv E W) (hq : content W q = none) {luck : Luck} {threw : Bool}
    (hblock : W.mem.get (.block luck.block) = none)
    (e : copyStorage E q p luck W = some (W', threw)) : Carries same W W' := by
  obtain ⟨d, hd, e'⟩ := Option.bind_eq_some_iff.mp e
  obtain ⟨s, hs, -⟩ := Option.bind_eq_some_iff.mp e'
  have hoq := h.owner_none_of_content hq
  have hfree : W.mem.get (.sbo q) = none := h.sbo_free (by simp [hoq])
  obtain ⟨k, rfl⟩ := h.eq_empty hd hq
  have hh := h.holds p s hs
  generalize content W p = c at hh
  cases hh with
  | empty k =>
    simp [copyStorage, hd, hs] at e
    exact e.1 ▸ carries_of_eq rfl rfl
  | small o hfit hacc hget =>
    cases ht : E.layout.triviallyCopyable o.type with
    | true =>
      simp [copyStorage, hd, hs, ht, copyTrivialSmallStorage,
        show (smallStorage E p o.type).payload = .sbo from rfl, hget, overwrite_free hfree] at e
      exact e.1 ▸ carries_put h.owned hoq hfree o _
    | false =>
      cases hc : E.layout.copyConstructible o.type <;> cases hthrow : luck.throws <;>
        simp [copyStorage, hd, hs, ht, E.vtables.typeAt_address, guard, hc, Storage.copy,
          readAt_eq hget, hthrow, overwrite_free hfree] at e
      · exact e.1 ▸ carries_put h.owned hoq hfree o _
      · exact e.1 ▸ carries_of_eq rfl (owner_setFree hoq rfl)
  | heap o n hfit hacc hget =>
    have hpayload : (heapStorage E n o.type).payload = .heap (some (.block n)) := rfl
    cases hc : E.layout.copyConstructible o.type <;>
      cases hthrow : luck.allocFails || luck.throws <;>
      simp [copyStorage, hd, hs, E.vtables.typeAt_address, guard, hc, Storage.copy, hpayload,
        Payload.pointer, readAt_eq hget, hthrow, overwrite_free hfree] at e
    · exact e.1 ▸ carries_put h.owned hoq hblock o _
    · exact e.1 ▸ carries_of_eq rfl (owner_setFree hoq rfl)

omit [DecidableEq τ] in
lemma carries_leave (left : Object τ Val → Val) (src : Source τ Val) :
    Carries same W (src.leave left W) := by
  rcases src with o | ⟨u, _ | _⟩
  · exact carries_of_eq rfl rfl
  · exact carries_of_eq rfl rfl
  · simp only [Source.leave]
    split
    · exact carries_of_eq rfl rfl
    · split
      · exact carries_of_eq rfl rfl
      · next hk => exact carries_write hk _

variable {w u : ℕ} {luck : Luck} {threw : Bool} {op : Op τ Val}

omit [DecidableEq τ] in
lemma owner_still (h : Whole E W) (hp : W.phase = .constant) (p : Place) : owner W p = none :=
  h.store.owner_none_of_content (h.still hp p)

lemma carries_reset (h : Whole E W) (hw : Live W w) (e : reset E w W = some W') :
    Carries (endAt (.of w)) W W' := by
  unfold reset at e
  dsimp only at e
  split at e
  · next hp =>
    obtain rfl := Option.some.inj e
    exact carries_nothing (owner_still h hp) fun _ hi => hi
  · have hset : Carries same W (W.setConstant w .inactive) := carries_of_eq rfl rfl
    exact hset.after (carries_resetStorage (h.setConstant hw _).store e)

omit [DecidableEq τ] in
lemma carries_create (h : Whole E W) (hw : ¬ Live W w) (c : Constant Fn) :
    Carries same W ((W.setConstant w c).setStorage (.of w) .empty) := by
  have hnone : owner (W.setConstant w c) (.of w) = none :=
    h.store.owner_none_of_content (h.content_none hw)
  exact carries_of_eq rfl (owner_setFree hnone rfl)

omit [DecidableEq τ] in
lemma Carries.remove (h : Carries same W W') (hw : owner W (.of w) = none) :
    Carries same W (W'.remove w) where
  kept p q k i o hp hk hq := by
    obtain rfl : p = q := Option.some.inj hq
    have hpw : p ≠ .of w := fun e => by simp [e, hw] at hp
    have hown : owner (W'.remove w) p = owner W' p := by simp [owner, World.remove, hpw]
    obtain ⟨hp', hv⟩ := h.kept p p k i o hp hk rfl
    exact ⟨hown.trans hp', hv⟩
  ended p k i o _ _ hnone := by cases hnone
  grows := h.grows

omit [DecidableEq τ] in
lemma Carries.orRemove (h : Carries same W W') (hw : owner W (.of w) = none) :
    Carries same W (Lifecycle.orRemove w (W', threw)).1 := by
  cases threw with
  | true => exact h.remove hw
  | false => exact h

lemma carries_assign (h : Whole E W) (hw : content W (.of w) = none) {src : Source τ Val}
    (hblock : W.mem.get (.block luck.block) = none)
    (e : assign E w src luck W = some (W', threw)) : Carries same W W' := by
  unfold assign at e
  split at e
  · next hp =>
    simp only [Option.bind_eq_bind, Option.bind_eq_some_iff] at e
    obtain ⟨o, -, e⟩ := e
    have hW := congrArg Prod.fst (Option.some.inj e)
    unfold assignConstexpr at hW
    split_ifs at hW
    all_goals
      subst hW
      exact carries_nothing (owner_still h hp) fun _ hi => hi
  · simp only [assignRuntime, Option.bind_eq_bind, Option.bind_eq_some_iff] at e
    obtain ⟨o, -, s, hs, e⟩ := e
    obtain ⟨r, hr⟩ : ∃ r, r = if E.fitsInSbo o.type then emplaceSmallStorage E (.of w) o luck W.mem s
      else emplaceHeapStorage E (.of w) o luck W.mem s := ⟨_, rfl⟩
    have hmake := carries_emplace h.store hw hs hblock hr
    rw [← hr] at e
    obtain ⟨hW, -⟩ := Prod.mk.inj (Option.some.inj e)
    subst hW
    exact hmake.after (carries_leave _ src)

lemma carries_copyEnd (h : Whole E W) (hnone : content W (.of w) = none)
    (hblock : W.mem.get (.block luck.block) = none)
    (e : (if W.phase = .constant then some (W, false)
      else copyStorage E (.of w) (.of u) luck W) = some (W', threw)) : Carries same W W' := by
  split at e
  · obtain ⟨rfl, -⟩ := Prod.mk.inj (Option.some.inj e)
    exact carries_of_eq rfl rfl
  · exact carries_copyStorage h.store hnone hblock e

lemma carries_moveEnd (h : Whole E W) (hw : Live W w) (hu : Live W u) (huw : u ≠ w)
    (hnone : content W (.of w) = none)
    (e : (if W.phase = .constant then some W else moveStorage E (.of w) (.of u) W) = some W') :
    Carries (moveTo (.of u) (.of w)) W W' := by
  split at e
  · next hp =>
    obtain rfl := Option.some.inj e
    exact carries_nothing (owner_still h hp) fun _ hi => hi
  · obtain ⟨s, hs⟩ := h.storage hu
    obtain ⟨d, hd⟩ := h.storage hw
    exact carries_moveStorage h.store (by simpa using huw) hd hs hnone e

lemma carries_construct (h : Whole E W) (hw : ¬ Live W w) {src : Source τ Val}
    (hblock : W.mem.get (.block luck.block) = none)
    (e : construct E w src luck W = some (W', threw)) : Carries same W W' := by
  obtain ⟨⟨W₁, threw₁⟩, e₁, eW⟩ := Option.map_eq_some_iff.mp e
  obtain ⟨h₁, hcon₁⟩ := h.create hw .inactive
  have hassign : Carries same (defaultConstruct w W) W₁ :=
    carries_assign h₁ ((congrFun hcon₁ _).trans (h.content_none hw)) hblock e₁
  obtain rfl : (orRemove w (W₁, threw₁)).1 = W' := congrArg Prod.fst eW
  exact ((carries_create h hw .inactive).after hassign).orRemove
    (h.store.owner_none_of_content (h.content_none hw))

lemma carries_copyConstruct (h : Whole E W) (hw : ¬ Live W w)
    (hblock : W.mem.get (.block luck.block) = none)
    (e : copyConstruct E w u luck W = some (W', threw)) : Carries same W W' := by
  have hnone := h.store.owner_none_of_content (h.content_none hw)
  simp only [copyConstruct, Option.bind_eq_bind, Option.bind_eq_some_iff] at e
  obtain ⟨c, -, e⟩ := e
  obtain ⟨h₁, hcon₁⟩ := h.create hw c
  have hmade := carries_create h hw c
  split at e
  · obtain ⟨rfl, -⟩ := Prod.mk.inj (Option.some.inj e)
    exact hmade
  · obtain ⟨⟨W₂, threw₂⟩, e₂, eW⟩ := Option.map_eq_some_iff.mp e
    have hcopy := carries_copyStorage h₁.store ((congrFun hcon₁ _).trans (h.content_none hw)) hblock e₂
    obtain rfl : (orRemove w (W₂, threw₂)).1 = W' := congrArg Prod.fst eW
    exact (hmade.after hcopy).orRemove hnone

lemma carries_moveConstruct (h : Whole E W) (hw : ¬ Live W w) (hu : Live W u)
    (e : moveConstruct E w u W = some W') : Carries (moveTo (.of u) (.of w)) W W' := by
  have huw : u ≠ w := fun e => hw (e ▸ hu)
  simp only [moveConstruct, Option.bind_eq_bind, Option.bind_eq_some_iff] at e
  obtain ⟨c, hc, e⟩ := e
  have h₀ := h.setConstant hu .inactive
  have hw₀ : ¬ Live (W.setConstant u .inactive) w := by
    simpa [Live, World.setConstant, Ne.symm huw] using hw
  have hcomm : (W.setConstant w c).setConstant u .inactive =
      (W.setConstant u .inactive).setConstant w c := by
    simp only [World.setConstant]
    rw [Function.update_comm huw]
  rw [hcomm] at e
  obtain ⟨h₁, hcon₁⟩ := h₀.create hw₀ c
  have hset : Carries same W (W.setConstant u .inactive) := carries_of_eq rfl rfl
  refine (hset.after (carries_create h₀ hw₀ c)).after (carries_moveEnd h₁ ?_ ?_ huw ?_ e)
  · simp [Live, World.setStorage, World.setConstant]
  · simp [Live, World.setStorage, World.setConstant, huw]
  · rw [hcon₁]
    exact h₀.content_none hw₀

/-- Copies to a wrapper end its object. -/
def copyAt (w u : ℕ) : Place → Site → Option Place := if w = u then same else endAt (.of w)

lemma carries_copyAssign (h : Whole E W) (hw : Live W w)
    (hblock : W.mem.get (.block luck.block) = none ∨
      owner W (.of w) = some (.block luck.block))
    (e : copyAssign E w u luck W = some (W', threw)) : Carries (copyAt w u) W W' := by
  by_cases hwu : w = u
  · simp only [copyAssign, hwu, if_true, Option.pure_def, Option.some.injEq, Prod.mk.injEq] at e
    rw [copyAt, if_pos hwu, ← e.1]
    exact carries_of_eq rfl rfl
  · obtain ⟨W₁, e₁, h₁, -, hview₁, hfree⟩ := reset_spec h hw
    simp only [copyAssign, if_neg hwu, e₁, Option.bind_eq_bind, Option.bind_some,
      Option.bind_eq_some_iff] at e
    obtain ⟨c, -, e⟩ := e
    have hset : Carries same W₁ (W₁.setConstant w c) := carries_of_eq rfl rfl
    have hnone : content W₁ (.of w) = none := (view_eq_some (c := .inactive) (by
      rw [hview₁, Function.update_self])).2
    have hcopy := carries_copyEnd (h₁.setConstant (live_of_update hview₁) c) hnone
      (hfree _ hblock) e
    rw [copyAt, if_neg hwu]
    exact ((carries_reset h hw e₁).before hset).before hcopy

/-- A move to a wrapper ends its object. -/
def moveAt (w u : ℕ) (r : Place) (k : Site) : Option Place :=
  if w = u then some r else if r = .of w then none else moveTo (.of u) (.of w) r k

lemma carries_moveAssign (h : Whole E W) (hw : Live W w) (hu : Live W u)
    (e : moveAssign E w u W = some W') : Carries (moveAt w u) W W' := by
  by_cases hwu : w = u
  · simp only [moveAssign, hwu, if_true, Option.pure_def, Option.some.injEq] at e
    subst e
    exact (carries_of_eq rfl rfl).congr fun r k _ => by simp [same, moveAt, hwu]
  · obtain ⟨W₁, e₁, h₁, -, hview₁, -⟩ := reset_spec h hw
    obtain ⟨hu₁, -⟩ := live_of_view (Ne.symm hwu) hview₁ hu
    simp only [moveAssign, if_neg hwu, e₁, Option.bind_eq_bind, Option.bind_some,
      Option.bind_eq_some_iff] at e
    obtain ⟨c, -, e⟩ := e
    have h₂ := h₁.setConstant (live_of_update hview₁) c
    have hu₂ : Live (W₁.setConstant w c) u := by
      simpa [Live, World.setConstant, Ne.symm hwu] using hu₁
    have hnone : content W₁ (.of w) = none := (view_eq_some (c := .inactive) (by
      rw [hview₁, Function.update_self])).2
    have hset : Carries same W₁ ((W₁.setConstant w c).setConstant u .inactive) :=
      carries_of_eq rfl rfl
    have hmove := carries_moveEnd (h₂.setConstant hu₂ .inactive) (w := w) (u := u)
      (by simp [Live, World.setConstant, hwu]) (by simp [Live, World.setConstant])
      (Ne.symm hwu) hnone e
    refine (((carries_reset h hw e₁).before hset).trans hmove).congr fun r k _ => ?_
    by_cases hr : r = .of w <;> simp [endAt, moveAt, hwu, hr]

/-- A swap of a wrapper with itself does nothing. -/
def exchangeAt (w u : ℕ) : Place → Site → Option Place :=
  if w = u then same else swapAt (.of w) (.of u)

lemma carries_swap (h : Whole E W) (hw : Live W w) (hu : Live W u)
    (e : Lifecycle.swap E w u W = some W') : Carries (exchangeAt w u) W W' := by
  by_cases hwu : w = u
  · simp only [Lifecycle.swap, hwu, if_true, Option.pure_def, Option.some.injEq] at e
    rw [exchangeAt, if_pos hwu, ← e]
    exact carries_of_eq rfl rfl
  · simp only [Lifecycle.swap, if_neg hwu, Option.bind_eq_bind, Option.bind_eq_some_iff] at e
    obtain ⟨c, -, d, -, e⟩ := e
    have h₁ := h.setConstant hw d
    have hu₁ : Live (W.setConstant w d) u := by
      simpa [Live, World.setConstant, Ne.symm hwu] using hu
    have h₂ := h₁.setConstant hu₁ c
    have hset : Carries same W ((W.setConstant w d).setConstant u c) := carries_of_eq rfl rfl
    rw [exchangeAt, if_neg hwu]
    split at e
    · next hp =>
      obtain rfl := Option.some.inj e
      exact carries_nothing (owner_still h hp) fun _ hi => hi
    · exact hset.after (carries_swapStorages h₂.store hwu h.tmp e)

omit [DecidableEq τ] in
lemma carries_targetRuns {v : Val} (e : targetRuns w v W = some W') : Carries same W W' := by
  simp only [targetRuns, Option.bind_eq_bind, Option.bind_eq_some_iff] at e
  obtain ⟨s, -, k, -, o, hk, e⟩ := e
  obtain rfl := Option.some.inj e
  exact carries_write hk v

/-! ### Runs -/

/-- The storage that has the object in a cell after an operation, if it is still there. -/
def carriedBy : Op τ Val → Place → Site → Option Place
  | .moveConstruct w u => moveTo (.of u) (.of w)
  | .copyAssign w u => copyAt w u
  | .moveAssign w u => moveAt w u
  | .assignCallable w _ | .reset w | .destruct w => endAt (.of w)
  | .swap w u => exchangeAt w u
  | _ => same

lemma carries_step {a : Label τ Val} (h : Whole E W) (hs : (system E).step W a W') :
    Carries (carriedBy a.op) W W' := by
  obtain ⟨op, luck, threw⟩ := a
  obtain ⟨hen, hblock, e⟩ := hs
  cases op with
  | defaultConstruct w =>
    obtain ⟨rfl, -⟩ := Prod.mk.inj (Option.some.inj e)
    exact carries_create h hen .inactive
  | construct w src => exact carries_construct h hen.1 hblock e
  | copyConstruct w u => exact carries_copyConstruct h hen.2.1 hblock e
  | moveConstruct w u =>
    obtain ⟨W₁, e₁, ⟨⟩⟩ := Option.map_eq_some_iff.mp e
    exact carries_moveConstruct h hen.1 hen.2 e₁
  | copyAssign w u => exact carries_copyAssign h hen.2.1 hblock e
  | moveAssign w u =>
    obtain ⟨W₁, e₁, ⟨⟩⟩ := Option.map_eq_some_iff.mp e
    exact carries_moveAssign h hen.1 hen.2 e₁
  | assignCallable w src =>
    obtain ⟨W₁, e₁, h₁, -, hview₁, hfree⟩ := reset_spec h hen.1
    simp only [exec, assignCallable, e₁, Option.bind_eq_bind, Option.bind_some] at e
    have hnone : content W₁ (.of w) = none := (view_eq_some (c := .inactive) (by
      rw [hview₁, Function.update_self])).2
    exact (carries_reset h hen.1 e₁).before (carries_assign h₁ hnone (hfree _ hblock) e)
  | reset w =>
    obtain ⟨W₁, e₁, ⟨⟩⟩ := Option.map_eq_some_iff.mp e
    exact carries_reset h hen e₁
  | swap w u =>
    obtain ⟨W₁, e₁, ⟨⟩⟩ := Option.map_eq_some_iff.mp e
    exact carries_swap h hen.1 hen.2 e₁
  | destruct w =>
    obtain ⟨W₂, e₂, ⟨⟩⟩ := Option.map_eq_some_iff.mp e
    obtain ⟨W₁, e₁, h₁, -, hview₁, -⟩ := reset_spec h hen
    simp only [destruct, e₁, Option.bind_eq_bind, Option.bind_some, Option.pure_def,
      Option.some.injEq] at e₂
    subst e₂
    have hnone := h₁.store.owner_none_of_content (view_eq_some (c := .inactive) (by
      rw [hview₁, Function.update_self])).2
    have hremove : Carries same W₁ (W₁.remove w) :=
      (carries_of_eq rfl rfl : Carries same W₁ W₁).remove hnone
    exact (carries_reset h hen e₁).before hremove
  | targetRuns w v =>
    obtain ⟨W₁, e₁, ⟨⟩⟩ := Option.map_eq_some_iff.mp e
    exact carries_targetRuns e₁
  | start =>
    obtain ⟨rfl, -⟩ := Prod.mk.inj (Option.some.inj e)
    exact carries_of_eq rfl rfl

/-- The storage that has the object in a cell after some operations, if it is still there. -/
def keeper : List (Label τ Val) → Place → Site → Option Place
  | [], p, _ => some p
  | a :: l, p, k => (carriedBy a.op p k).bind fun q => keeper l q k

lemma carries_path {l : List (Label τ Val)} (h : Inv E W) (hpath : Runs.Path (system E) l W W') :
    Carries (keeper l) W W' := by
  induction hpath with
  | nil W => exact carries_of_eq rfl rfl
  | cons hs _ ih => exact (carries_step h.toWhole hs).trans (ih (inv_step h hs))

/-- **Pointers to targets.** Wherever a run goes on from a world in which `target` found an object,
the pointer is good exactly as long as the object has a keeper, and it is what `target` finds
there. -/
theorem target_good_iff {l : List (Label τ Val)} (hr : Runs.Reachable (system E) W)
    (hpath : Runs.Path (system E) l W W') {T : τ} {k : Site}
    (ht : target E W w T = some (some k)) :
    ∃ i v, W.mem.cell k = some (i, ⟨T, v⟩) ∧
      ((∃ o, W'.mem.cell k = some (i, o)) ↔ (keeper l (.of w) k).isSome = true) ∧
      ∀ q, keeper l (.of w) k = some q → ∃ u, q = .of u ∧ target E W' u T = some (some k) := by
  have hinv := inv_reachable hr
  have hinv' := inv_reachable (hpath.reachable hr)
  have hcarries := carries_path hinv hpath
  -- the object and its number
  have hw : Live W w := by
    obtain ⟨s, hs, -⟩ := Option.bind_eq_some_iff.mp ht
    exact fun hc => by simp [(hinv.made w).mpr hc] at hs
  rw [target_eq hinv hw, Option.some.injEq, Option.bind_eq_some_iff] at ht
  obtain ⟨⟨T', v⟩, ho, hk⟩ := ht
  obtain ⟨rfl, hown⟩ : T' = T ∧ owner W (.of w) = some k := by
    by_cases hT : T' = T <;> simp_all
  have hget : W.mem.get k = some ⟨T', v⟩ := by simpa [content, hown] using ho
  obtain ⟨⟨i, o⟩, hcell, rfl⟩ := Option.map_eq_some_iff.mp hget
  refine ⟨i, v, hcell, ⟨fun hgood => ?_, fun hsome => ?_⟩, fun q hq => ?_⟩
  · obtain ⟨o, hcell'⟩ := hgood
    by_contra hnone
    have hended := hcarries.ended _ k i _ hown hcell (by simpa using hnone)
    exact (hinv'.store.sound.alive k i o hcell').2 hended
  · obtain ⟨q, hq⟩ := Option.isSome_iff_exists.mp hsome
    obtain ⟨-, v', hv'⟩ := hcarries.kept _ q k i _ hown hcell hq
    exact ⟨_, hv'⟩
  · obtain ⟨hq', v', hv'⟩ := hcarries.kept _ q k i _ hown hcell hq
    cases q with
    | tmp => simp [owner, hinv'.tmp] at hq'
    | of u =>
      have hu : Live W' u := fun hc => by simp [owner, (hinv'.made u).mpr hc] at hq'
      refine ⟨u, rfl, ?_⟩
      simp [target_eq hinv' hu, content, hq', Cells.get, hv']

/-- The table keeps its block in a swap, and the object in the buffer ends. -/
theorem target_good_iff_swap :
    (∃ i o, (sampleWorld 3).mem.cell (.block 1) = some (i, o) ∧
      (∃ o', (sampleWorld 4).mem.cell (.block 1) = some (i, o')) ∧
      target (sampleEnv .copyable) (sampleWorld 4) 1 .table = some (some (.block 1))) ∧
    ∃ i o, (sampleWorld 3).mem.cell (.sbo (.of 1)) = some (i, o) ∧
      ¬ ∃ o', (sampleWorld 4).mem.cell (.sbo (.of 1)) = some (i, o') := by
  have hpath : Runs.Path (system (sampleEnv .copyable)) [⟨.swap 0 1, ⟨false, false, 3⟩, false⟩]
      (sampleWorld 3) (sampleWorld 4) :=
    .single ⟨⟨Option.some_ne_none _, Option.some_ne_none _⟩, rfl, rfl⟩
  obtain ⟨i, v, hcell, hgood, hkeep⟩ :=
    target_good_iff sampleWorld_made hpath (T := .table) (k := .block 1) (w := 0) rfl
  obtain ⟨j, v', hcell', hgood', -⟩ :=
    target_good_iff sampleWorld_made hpath (T := .owner) (k := .sbo (.of 1)) (w := 1) rfl
  obtain ⟨u, hu, hfound⟩ := hkeep (.of 1) rfl
  obtain rfl : 1 = u := Place.of.inj hu
  exact ⟨⟨i, _, hcell, hgood.mpr rfl, hfound⟩, j, _, hcell', fun h => by cases hgood'.mp h⟩

end FunctionWrapper.TargetPointers
