import FunctionWrapper.Dispatch

/-!
What calls and introspection do in a world of a run, member by member.

The emptiness of the storage need not be asked for where the constant part is active, so that every
member is an equation about the constant part of a wrapper and the callable it holds.
-/

namespace FunctionWrapper.DispatchSpec

open FunctionWrapper.Types FunctionWrapper.Traits FunctionWrapper.Signatures
open FunctionWrapper.Callables FunctionWrapper.Storage FunctionWrapper.Lifecycle
open FunctionWrapper.CallAcceptance FunctionWrapper.StorageForms FunctionWrapper.WrapperSpec
open FunctionWrapper.RunInvariant FunctionWrapper.Dispatch
open OwnedCells

variable {τ Val Fn : Type} {E : Env τ Val Fn} {W : World τ Val Fn} {w : ℕ} {c : Constant Fn}

lemma storage_of_content (h : StoreInv E W) {p : Place} {s : WrapperStorage}
    (hs : W.storages p = some s) {o : Object τ Val} (ho : content W p = some o) :
    s.vtablePtr = E.vtables.address o.type ∧ s.isEmpty = false ∧
      ∃ k, s.obj = some k ∧ W.mem.get k = some o := by
  have hh := h.holds p s hs
  rw [ho] at hh
  generalize e : some o = c at hh
  cases hh with
  | empty => cases e
  | small o' _ _ hget =>
    obtain rfl := Option.some.inj e
    exact ⟨vtablePtr_small .., isEmpty_small .., _, rfl, hget⟩
  | heap o' n _ _ hget =>
    obtain rfl := Option.some.inj e
    exact ⟨vtablePtr_heap .., isEmpty_heap .., _, rfl, hget⟩

lemma vtablePtr_eq (h : StoreInv E W) {self : WrapperStorage}
    (hs : W.storages (.of w) = some self) :
    self.vtablePtr = ((content W (.of w)).map fun o => E.vtables.address o.type).getD 0 := by
  rcases ho : content W (.of w) with _ | o
  · obtain ⟨k, rfl⟩ := h.eq_empty hs ho
    simp
  · exact (storage_of_content h hs ho).1

lemma isEmpty_eq (h : StoreInv E W) {self : WrapperStorage}
    (hs : W.storages (.of w) = some self) : self.isEmpty = (content W (.of w)).isNone := by
  rcases ho : content W (.of w) with _ | o
  · obtain ⟨k, rfl⟩ := h.eq_empty hs ho
    simp
  · simpa using (storage_of_content h hs ho).2.1

lemma vtableHasBoundSignature_eq (h : StoreInv E W) {self : WrapperStorage}
    (hs : W.storages (.of w) = some self) (s : Sig) :
    vtableHasBoundSignature E self.vtablePtr s =
      some ((content W (.of w)).any fun o => E.supportsSignature o.type s) := by
  rcases ho : content W (.of w) with _ | o <;>
    simp [vtableHasBoundSignature, vtablePtr_eq h hs, ho, E.vtables.typeAt_address]

lemma useConstexprStorage_iff (h : Inv E W) (hc : W.constants w = some c) {self : WrapperStorage}
    (hs : W.storages (.of w) = some self) :
    useConstexprStorage W c self = true ↔ W.phase = .constant ∨ c.active = true := by
  simp only [useConstexprStorage, Bool.or_eq_true, decide_eq_true_eq, Bool.and_eq_true]
  refine or_congr_right (and_iff_left_of_imp fun hon => ?_)
  have hnone : content W (.of w) = none := (h.coherent w c _ (view_of_live hc)).alone hon
  obtain ⟨k, rfl⟩ := h.store.eq_empty hs hnone
  exact isEmpty_empty k

lemma not_useConstexprStorage (h : Inv E W) (hc : W.constants w = some c) (hrun : W.phase = .run)
    (hoff : c.active = false) {self : WrapperStorage} (hs : W.storages (.of w) = some self) :
    useConstexprStorage W c self = false := by
  rw [Bool.eq_false_iff]
  simp [useConstexprStorage_iff h hc hs, hrun, hoff]

lemma run_of_not_slots (h : ¬ (W.phase = .constant ∨ c.active = true)) :
    W.phase = .run ∧ c.active = false := by
  simp only [not_or, Bool.not_eq_true] at h
  cases hp : W.phase with
  | constant => exact absurd hp h.1
  | run => exact ⟨rfl, h.2⟩

lemma wrapperHasValue_eq (h : Inv E W) (hc : W.constants w = some c) (hrun : W.phase = .run) :
    wrapperHasValue E W w = some (c.active || (content W (.of w)).isSome) := by
  obtain ⟨self, hs⟩ := h.toWhole.storage (w := w) (by simp [Live, hc])
  simp [wrapperHasValue, hc, hs, hrun, isEmpty_eq h.store hs]

lemma boundSignatures_slots (h : Inv E W) (hc : W.constants w = some c)
    (huse : W.phase = .constant ∨ c.active = true) :
    boundSignatures E W w = some (E.sigs.map fun s => (c.slots s).isSome) := by
  obtain ⟨self, hs⟩ := h.toWhole.storage (w := w) (by simp [Live, hc])
  simp [boundSignatures, hc, hs, (useConstexprStorage_iff h hc hs).mpr huse]

lemma boundSignatures_content (h : Inv E W) (hc : W.constants w = some c) (hrun : W.phase = .run)
    (hoff : c.active = false) : boundSignatures E W w = some (E.sigs.map fun s =>
      (content W (.of w)).any fun o => E.supportsSignature o.type s) := by
  obtain ⟨self, hs⟩ := h.toWhole.storage (w := w) (by simp [Live, hc])
  simp only [boundSignatures, hc, hs, not_useConstexprStorage h hc hrun hoff hs,
    Option.bind_eq_bind, Option.bind_some, Bool.false_eq_true, if_false]
  induction E.sigs with
  | nil => rfl
  | cons s sigs ih => simp [vtableHasBoundSignature_eq h.store hs, ih]

lemma targetType_eq (h : Inv E W) (hw : Live W w) :
    targetType E W w = some ((content W (.of w)).map Object.type) := by
  obtain ⟨self, hs⟩ := h.toWhole.storage hw
  rcases ho : content W (.of w) with _ | o <;>
    simp [targetType, hs, vtablePtr_eq h.store hs, ho, E.vtables.typeAt_address]

variable [DecidableEq τ]

lemma target_eq (h : Inv E W) (hw : Live W w) (T : τ) : target E W w T =
    some ((content W (.of w)).bind fun o => if o.type = T then owner W (.of w) else none) := by
  obtain ⟨self, hs⟩ := h.toWhole.storage hw
  have howner : owner W (.of w) = self.obj := by simp [owner, hs]
  rcases ho : content W (.of w) with _ | o <;>
    simp [target, hs, vtablePtr_eq h.store hs, ho, E.vtables.typeAt_address, howner]

/-! ### Calls -/

variable {Raw Arg Ret Exc : Type} (C : Calls τ Val Fn Raw Arg Ret Exc)
variable {mode : Mode} {cat : Category} {s : Sig} {args : Raw}

lemma dispatchInterface_empty (h : StoreInv E W) {self : WrapperStorage}
    (hs : W.storages (.of w) = some self) (ho : content W (.of w) = none) (a : Arg) :
    dispatchInterface C E W w cat s a = some (.failed .empty) := by
  obtain ⟨k, rfl⟩ := h.eq_empty hs ho
  simp [dispatchInterface, hs]

lemma dispatchInterface_stored (h : StoreInv E W) {self : WrapperStorage}
    (hs : W.storages (.of w) = some self) {o : Object τ Val} (ho : content W (.of w) = some o)
    (a : Arg) : dispatchInterface C E W w cat s a =
      some (if E.exactInvocable o.type cat s then outcome s (C.invoke o.type cat s o.val a)
        else .failed .mismatch) := by
  obtain ⟨hvt, -, k, hobj, hget⟩ := storage_of_content h hs ho
  have hread : readAt o.type k W.mem = some o.val := by simp [readAt, hget]
  cases hx : E.exactInvocable o.type cat s <;>
    simp [dispatchInterface, hs, hobj, hvt, E.vtables.typeAt_address, hx, hread]

lemma dispatch_slots (h : Inv E W) (hc : W.constants w = some c)
    (huse : W.phase = .constant ∨ c.active = true) :
    dispatch C E W w mode cat s args = some (invokeSlot C c.slots s args) := by
  obtain ⟨self, hs⟩ := h.toWhole.storage (w := w) (by simp [Live, hc])
  simp [dispatch, hc, hs, (useConstexprStorage_iff h hc hs).mpr huse]

lemma dispatch_storage (h : Inv E W) (hc : W.constants w = some c) (hrun : W.phase = .run)
    (hoff : c.active = false) : dispatch C E W w mode cat s args =
      match convert C mode s args with
      | .error e => some (.propagated e)
      | .ok a => dispatchInterface C E W w cat s a := by
  obtain ⟨self, hs⟩ := h.toWhole.storage (w := w) (by simp [Live, hc])
  simp only [dispatch, hc, hs, not_useConstexprStorage h hc hrun hoff hs, Option.bind_eq_bind,
    Option.bind_some, Bool.false_eq_true, if_false]
  rfl

end FunctionWrapper.DispatchSpec
