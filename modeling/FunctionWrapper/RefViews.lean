import FunctionWrapper.FunctionRef
import Mathlib.Data.Option.Basic

/-!
A `function_ref` as a view of a target, and copies of views.

While every copy goes by the defaulted members, each `function_ref` of a run shows its target
directly. The template for callable lvalues makes a view of the `function_ref` that is copied
instead, which shows what that one shows only until it is bound to something else.
-/

namespace FunctionWrapper.RefViews

open FunctionWrapper.Types FunctionWrapper.Traits FunctionWrapper.Signatures
open FunctionWrapper.FunctionRef

variable {τ Obj Member Fn : Type} (E : RefEnv τ Obj Member Fn)

def viewOf : Option (Target Obj Member Fn) → Ref τ Obj Fn
  | none => .clear
  | some (.function f) => bindPointer (some f)
  | some (.callable o isConst) => bindCallable (.object o) (.other (E.typeOf o)) isConst
  | some (.member o m isConst) => bindMember E o m isConst

/-- A member pointer fits into the array of the view. -/
def Fits : Option (Target Obj Member Fn) → Prop
  | some (.member _ m _) => E.sizeOf (E.memberType m) ≤ kAuxStorageSize
  | _ => True

def AllViews (M : Refs τ Obj Fn) : Prop :=
  ∀ r f, M r = some f → ∃ t, Fits E t ∧ f = viewOf E t

variable {E} {M M' : Refs τ Obj Fn} {t : Option (Target Obj Member Fn)} {r w u : ℕ}

lemma hasValue_viewOf : (viewOf E t).hasValue = t.isSome := by
  rcases t with _ | _ | ⟨o, c⟩ | ⟨o, m, c⟩
  · rfl
  · rfl
  · cases c <;> rfl
  · cases c <;> rfl

lemma take_copyBytes {encoded aux : List UInt8} (h : encoded.length ≤ aux.length) :
    (copyBytes encoded aux).take encoded.length = encoded := by
  induction encoded generalizing aux with
  | nil => simp
  | cons b encoded ih =>
    cases aux with
    | nil => simp at h
    | cons a aux => simpa [copyBytes] using ih (by simpa using h)

lemma loadAux_storeAux {m : Member} (h : E.sizeOf (E.memberType m) ≤ kAuxStorageSize) :
    loadAux E (E.memberType m) (storeAux E m) = some m := by
  unfold loadAux storeAux
  rw [← E.length_encode, take_copyBytes (by simpa [E.length_encode] using h), E.decode_encode]

section Calls

variable [DecidableEq τ]

lemma hop_viewOf (ht : Fits E t) : hop E (viewOf E t) = some (t.elim .empty .target) := by
  rcases t with _ | _ | ⟨o, c⟩ | ⟨o, m, c⟩
  · rfl
  · rfl
  · cases c <;> simp [viewOf, bindCallable, hop, invoke, invokeCallable, Ref.clear]
  · have haux := loadAux_storeAux (E := E) (m := m) ht
    cases c <;> simp [viewOf, bindMember, hop, invoke, invokeMember, Ref.clear, haux]

lemma calls_view (hr : M r = some (viewOf E t)) (ht : Fits E t)
    {c : Option (Target Obj Member Fn)} : Calls E M r c ↔ c = t := by
  have hhop := hop_viewOf ht
  constructor
  · intro h
    cases h with
    | empty hr' hf =>
      obtain rfl := Option.some.inj (hr.symm.trans hr')
      rw [hhop] at hf
      cases t with
      | none => rfl
      | some x => cases hf
    | target hr' hf =>
      obtain rfl := Option.some.inj (hr.symm.trans hr')
      rw [hhop] at hf
      cases t with
      | none => cases hf
      | some x =>
        obtain rfl := Hop.target.inj (Option.some.inj hf)
        rfl
    | through hr' hf _ =>
      obtain rfl := Option.some.inj (hr.symm.trans hr')
      rw [hhop] at hf
      cases t <;> cases hf
  · rintro rfl
    cases c with
    | none => exact .empty hr hhop
    | some x => exact .target hr hhop

/-- A view of itself calls nothing: its call does not end. -/
lemma not_calls_self {f : Ref τ Obj Fn} (hr : M r = some f) (hf : hop E f = some (.through r))
    {c : Option (Target Obj Member Fn)} : ¬ Calls E M r c := by
  intro h
  induction h with
  | empty hr' hf' =>
    obtain rfl := Option.some.inj (hr.symm.trans hr')
    rw [hf] at hf'
    cases hf'
  | target hr' hf' =>
    obtain rfl := Option.some.inj (hr.symm.trans hr')
    rw [hf] at hf'
    cases hf'
  | through hr' hf' _ ih =>
    obtain rfl := Option.some.inj (hr.symm.trans hr')
    rw [hf] at hf'
    obtain rfl := Hop.through.inj (Option.some.inj hf')
    exact ih hr hf

end Calls

/-- A `function_ref` that is copied is a constant, or the template cannot bind it. -/
def Copied (E : RefEnv τ Obj Member Fn) : Source Obj Member Fn → Prop
  | .ref _ isConst => isConst = true ∨ selfBindable E = false
  | _ => True

/-- The sources of an operation are copied. -/
def Copying (E : RefEnv τ Obj Member Fn) (_ : Refs τ Obj Fn) : Op Obj Member Fn → Prop
  | .make _ src | .assign _ src => Copied E src
  | _ => True

/-- The `function_ref`s an operation binds or clears. -/
def written : Op Obj Member Fn → List ℕ
  | .make r _ | .assign r _ | .reset r => [r]
  | .swap r q => [r, q]

lemma allViews_update (h : AllViews E M) {f : Ref τ Obj Fn}
    (hf : ∃ t, Fits E t ∧ f = viewOf E t) : AllViews E (Function.update M r (some f)) := by
  intro q g hg
  by_cases e : q = r
  · subst e
    rw [Function.update_self] at hg
    exact Option.some.inj hg ▸ hf
  · rw [Function.update_of_ne e] at hg
    exact h q g hg

lemma fields_ref (r : ℕ) (isConst : Bool) : fields E M (.ref r isConst) =
    if !isConst && selfBindable E then some (bindCallable (.ref r) .self false) else M r := by
  rw [fields, Overload.resolve_self]
  split <;> rfl

/-- The target that a source other than a `function_ref` binds: a callable or an object is called
as a constant where it is one, or can only be called so. -/
def boundTarget (E : RefEnv τ Obj Member Fn) : Source Obj Member Fn → Option (Target Obj Member Fn)
  | .pointer p => p.map .function
  | .callable o isConst => some (.callable o (isConst || !E.bindable (E.typeOf o) false))
  | .member o isConst m => some (.member o m
      (isConst || !E.memberBindable (E.typeOf o) (E.memberType m) false))
  | _ => none

lemma resolve_callable : ∀ bindable constBindable isConst : Bool,
    Overload.resolve false bindable constBindable isConst =
      if !isConst && bindable then some .lvalue
      else if constBindable then some .constLvalue
      else if bindable then some .rvalue else none := by
  decide

lemma or_not_eq (b c : Bool) : (b || !c) = !(!b && c) := by
  rw [Bool.not_and, Bool.not_not]

lemma fields_bound {src : Source Obj Member Fn}
    (hsrc : ∀ q c, src ≠ .ref q c ∧ src ≠ .expiring q) {f : Ref τ Obj Fn}
    (hf : fields E M src = some f) : Fits E (boundTarget E src) ∧ f = viewOf E (boundTarget E src) := by
  cases src with
  | null => exact ⟨trivial, (Option.some.inj hf).symm⟩
  | pointer p =>
    obtain rfl := Option.some.inj hf
    cases p with
    | none => exact ⟨trivial, rfl⟩
    | some f => exact ⟨trivial, rfl⟩
  | callable o isConst =>
    refine ⟨trivial, ?_⟩
    simp only [fields, resolve_callable] at hf
    cases hlvalue : !isConst && E.bindable (E.typeOf o) false with
    | true =>
      simp only [hlvalue, if_true, chosen] at hf
      rw [boundTarget, or_not_eq, hlvalue]
      exact (Option.some.inj hf).symm
    | false =>
      simp only [hlvalue, Bool.false_eq_true, if_false] at hf
      rw [boundTarget, or_not_eq, hlvalue]
      split at hf
      · exact (Option.some.inj hf).symm
      · split at hf <;> cases hf
  | member o isConst m =>
    simp only [fields] at hf
    split at hf
    · cases hf
    · next hsize =>
      have hfits : E.sizeOf (E.memberType m) ≤ kAuxStorageSize := by omega
      refine ⟨hfits, ?_⟩
      cases hlvalue : !isConst && E.memberBindable (E.typeOf o) (E.memberType m) false with
      | true =>
        rw [hlvalue, if_pos rfl] at hf
        rw [boundTarget, or_not_eq, hlvalue]
        exact (Option.some.inj hf).symm
      | false =>
        rw [hlvalue, if_neg Bool.false_ne_true] at hf
        rw [boundTarget, or_not_eq, hlvalue]
        split at hf
        · exact (Option.some.inj hf).symm
        · cases hf
  | ref q isConst => exact absurd rfl (hsrc q isConst).1
  | expiring q => exact absurd rfl (hsrc q false).2

lemma fields_handed {src : Source Obj Member Fn} (hsrc : Copied E src) {q : ℕ} {c : Bool}
    (hq : src = .ref q c ∨ src = .expiring q) : fields E M src = M q := by
  rcases hq with rfl | rfl
  · have hcopy : (!c && selfBindable E) = false := by
      rcases hsrc with rfl | hb
      · rfl
      · rw [hb, Bool.and_false]
    rw [fields_ref, hcopy, if_neg Bool.false_ne_true]
  · rfl

lemma fields_view (h : AllViews E M) {src : Source Obj Member Fn} (hsrc : Copied E src)
    {f : Ref τ Obj Fn} (hf : fields E M src = some f) : ∃ t, Fits E t ∧ f = viewOf E t := by
  by_cases hq : ∃ q c, src = .ref q c ∨ src = .expiring q
  · obtain ⟨q, c, hq⟩ := hq
    rw [fields_handed hsrc hq] at hf
    exact h q f hf
  · push Not at hq
    exact ⟨_, fields_bound hq hf⟩

/-- What an operation does, where it runs. -/
lemma step_cases {op : Op Obj Member Fn} (h : step E M op = some M') :
    (∃ r src f, (op = .make r src ∨ op = .assign r src) ∧ sourceExists M src = true ∧
      fields E M src = some f ∧ M' = Function.update M r (some f)) ∨
    (∃ r, op = .reset r ∧ M' = Function.update M r (some .clear)) ∨
    ∃ r q f g, op = .swap r q ∧ M r = some f ∧ M q = some g ∧
      M' = Function.update (Function.update M r (some g)) q (some f) := by
  cases op with
  | make r src =>
    simp only [step, Option.bind_eq_bind, Option.bind_eq_some_iff] at h
    obtain ⟨_, hguard, f, hf, hM⟩ := h
    have hex := ((Option.guard_eq_some' _).mp hguard).2
    exact .inl ⟨r, src, f, .inl rfl, hex, hf, (Option.some.inj hM).symm⟩
  | assign r src =>
    simp only [step, Option.bind_eq_bind, Option.bind_eq_some_iff] at h
    obtain ⟨_, hguard, f, hf, hM⟩ := h
    have hex := ((Option.guard_eq_some' _).mp hguard).2.1
    exact .inl ⟨r, src, f, .inr rfl, hex, hf, (Option.some.inj hM).symm⟩
  | reset r =>
    simp only [step, Option.bind_eq_bind, Option.bind_eq_some_iff] at h
    obtain ⟨_, -, hM⟩ := h
    exact .inr (.inl ⟨r, rfl, (Option.some.inj hM).symm⟩)
  | swap r q =>
    simp only [step, Option.bind_eq_bind, Option.bind_eq_some_iff] at h
    obtain ⟨f, hf, g, hg, hM⟩ := h
    exact .inr (.inr ⟨r, q, f, g, rfl, hf, hg, (Option.some.inj hM).symm⟩)

/-- **Operations that copy keep all views direct.** -/
theorem allViews_step (h : AllViews E M) {op : Op Obj Member Fn} (hop : Copying E M op)
    (hs : step E M op = some M') : AllViews E M' := by
  obtain ⟨r, src, f, hcase, -, hf, rfl⟩ | ⟨r, rfl, rfl⟩ | ⟨r, q, f, g, rfl, hf, hg, rfl⟩ :=
    step_cases hs
  · have hsrc : Copied E src := by
      rcases hcase with rfl | rfl <;> exact hop
    exact allViews_update h (fields_view h hsrc hf)
  · exact allViews_update h ⟨none, trivial, rfl⟩
  · exact allViews_update (allViews_update h (h q g hg)) (h r f hf)

theorem allViews_reachable (h : Runs.Reachable ((system E).restrict (Copying E)) M) :
    AllViews E M :=
  h.invariant (fun _ h0 => by subst h0; nofun) fun _ _ _ hi hs => allViews_step hi hs.2 hs.1

lemma step_frame {op : Op Obj Member Fn} (hs : step E M op = some M') (hw : w ∉ written op) :
    M' w = M w := by
  obtain ⟨r, src, f, hcase, -, -, rfl⟩ | ⟨r, rfl, rfl⟩ | ⟨r, q, f, g, rfl, -, -, rfl⟩ :=
    step_cases hs
  · have hwr : w ≠ r := by
      rcases hcase with rfl | rfl <;> simpa [written] using hw
    rw [Function.update_of_ne hwr]
  · rw [Function.update_of_ne (by simpa [written] using hw)]
  · simp only [written, List.mem_cons, List.not_mem_nil, or_false, not_or] at hw
    rw [Function.update_of_ne hw.2, Function.update_of_ne hw.1]

lemma run_frame {ops : List (Op Obj Member Fn)} (hs : run E M ops = some M')
    (hw : ∀ op ∈ ops, w ∉ written op) : M' w = M w := by
  induction ops generalizing M with
  | nil =>
    obtain rfl : M = M' := by simpa [run] using hs
    rfl
  | cons op ops ih =>
    obtain ⟨M₁, h₁, hs⟩ : ∃ M₁, step E M op = some M₁ ∧ run E M₁ ops = some M' := by
      simpa [run, Option.bind_eq_some_iff] using hs
    rw [ih hs fun op' h => hw op' (by simp [h]), step_frame h₁ (hw op (by simp))]

/-! ### Copies -/

variable [DecidableEq τ]

/-- What a copy of a view promises: it shows what the source showed when it was copied, and nothing
that rebinds, resets or swaps the source, and not the copy, changes that. -/
structure CopiesView (E : RefEnv τ Obj Member Fn) (M M' : Refs τ Obj Fn) (w u : ℕ) : Prop where
  hasValue : (M' w).map Ref.hasValue = (M u).map Ref.hasValue
  calls : ∀ c, Calls E M' w c ↔ Calls E M u c
  lasting : w ≠ u → ∀ ops M'', run E M' ops = some M'' →
    (∀ op ∈ ops, u ∈ written op ∧ w ∉ written op) → ∀ c, Calls E M'' w c ↔ Calls E M u c

lemma copiesView_of_copy (hu : M u = some (viewOf E t)) (ht : Fits E t) :
    CopiesView E M (Function.update M w (M u)) w u := by
  have hw : Function.update M w (M u) w = some (viewOf E t) := by simp [hu]
  refine ⟨by simp, fun c => ?_, fun _ ops M'' hrun hops c => ?_⟩
  · rw [calls_view hw ht, calls_view hu ht]
  · have hw'' := (run_frame hrun fun op h => (hops op h).2).trans hw
    rw [calls_view hw'' ht, calls_view hu ht]

/-- A view of the source does not: the source may be empty, or itself, or reset later. -/
lemma not_copiesView_of_bind (hu : M u = some (viewOf E t)) (ht : Fits E t) :
    ¬ CopiesView E M (Function.update M w (some (bindCallable (.ref u) .self false))) w u := by
  intro h
  have hhop : hop E (bindCallable (.ref u) .self false) = some (.through u) := rfl
  rcases t with _ | x
  · have hvalue := h.hasValue
    rw [Function.update_self, hu, Option.map_some, Option.map_some, hasValue_viewOf] at hvalue
    exact absurd hvalue nofun
  · have hcalls : Calls E M u (some x) := (calls_view hu ht).mpr rfl
    by_cases hwu : w = u
    · subst hwu
      exact not_calls_self (Function.update_self ..) hhop ((h.calls _).mpr hcalls)
    · -- the source is reset, and the copy finds it empty
      have hu' : Function.update M w (some (bindCallable (.ref u) .self false)) u =
          some (viewOf E (some x)) := by rw [Function.update_of_ne (Ne.symm hwu), hu]
      have hrun : run E (Function.update M w (some (bindCallable (.ref u) .self false)))
          [.reset u] = some (Function.update (Function.update M w
            (some (bindCallable (.ref u) .self false))) u (some .clear)) := by
        simp [run, step, hu']
      have hempty := (h.lasting hwu _ _ hrun (by simp [written, hwu]) none).mp
        (.through (by rw [Function.update_of_ne hwu, Function.update_self]) hhop
          (.empty (Function.update_self ..) rfl))
      cases (calls_view hu ht).mp hempty

/-- **Copying a `function_ref` copies the view exactly when** the source is a constant, or a
`function_ref` of the class is no callable for itself. -/
theorem copiesView_iff (h : Runs.Reachable ((system E).restrict (Copying E)) M) {isConst : Bool}
    {op : Op Obj Member Fn} (hcopy : op = .make w (.ref u isConst) ∨ op = .assign w (.ref u isConst))
    (hs : step E M op = some M') :
    CopiesView E M M' w u ↔ isConst = true ∨ selfBindable E = false := by
  obtain ⟨w', src, f, hcase, hex, hf, rfl⟩ | ⟨r, rfl, -⟩ | ⟨r, q, f, g, rfl, -⟩ := step_cases hs
  · obtain ⟨rfl, rfl⟩ : w' = w ∧ src = .ref u isConst := by
      rcases hcopy with rfl | rfl <;> rcases hcase with e | e <;> cases e <;> exact ⟨rfl, rfl⟩
    obtain ⟨g, hu⟩ := Option.isSome_iff_exists.mp hex
    obtain ⟨t, ht, rfl⟩ := allViews_reachable h u g hu
    rw [fields_ref] at hf
    cases hb : (!isConst && selfBindable E) with
    | true =>
      rw [hb, if_pos rfl] at hf
      obtain rfl := Option.some.inj hf
      refine iff_of_false (not_copiesView_of_bind hu ht) ?_
      rintro (rfl | hb') <;> simp_all
    | false =>
      rw [hb, if_neg Bool.false_ne_true] at hf
      rw [← hf]
      refine iff_of_true (copiesView_of_copy hu ht) ?_
      cases isConst with
      | true => exact .inl rfl
      | false => exact .inr hb
  · rcases hcopy with e | e <;> cases e
  · rcases hcopy with e | e <;> cases e

def sampleRefs : RefEnv Unit Empty Empty ℕ where
  program := arithmeticOnly
  sig := ⟨.val (.arith .int), [.val (.arith .int)], false⟩
  typeOf := Empty.elim
  bindable _ _ := false
  memberBindable _ _ _ := false
  memberType := Empty.elim
  sizeOf _ := 0
  encode := Empty.elim
  decode _ _ := none
  length_encode m := m.elim
  decode_encode m := m.elim

def oneView (f : Option ℕ) : Refs Unit Empty ℕ :=
  Function.update (fun _ => none) 0 (some (bindPointer f))

lemma oneView_reachable (f : Option ℕ) :
    Runs.Reachable ((system sampleRefs).restrict (Copying sampleRefs)) (oneView f) :=
  (Runs.Reachable.init (s := fun _ => none) rfl).step (a := .make 0 (.pointer f)) ⟨rfl, trivial⟩

theorem copiesView_sample :
    CopiesView sampleRefs (oneView (some 5)) (Function.update (oneView (some 5)) 1
      (some (bindPointer (some 5)))) 1 0 ↔ true = true ∨ selfBindable sampleRefs = false :=
  copiesView_iff (oneView_reachable (some 5)) (.inl rfl) rfl

/-- A copy of an empty `function_ref` that is no constant has a value. -/
theorem empty_copied :
    ¬ ∀ M M' w u isConst op, Runs.Reachable ((system sampleRefs).restrict (Copying sampleRefs)) M →
      op = .make w (.ref u isConst) ∨ op = .assign w (.ref u isConst) →
      step sampleRefs M op = some M' → CopiesView sampleRefs M M' w u := by
  intro h
  have hvalue := (h _ _ 1 0 false _ (oneView_reachable none) (.inl rfl) rfl).hasValue
  exact absurd hvalue (by decide)

end FunctionWrapper.RefViews
