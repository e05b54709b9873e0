import FunctionWrapper.MemberAdapters
import FunctionWrapper.SharedObjects

/-!
Calls of a member, through a wrapper that stores its adapter and through a `function_ref`.

The thunks for adapters read the two pointers and call the member of the object, as the thunks of a
`function_ref` do. Neither holder owns the object. It makes no difference to the program which of
the two it calls.
-/

namespace FunctionWrapper.MemberCalls

open FunctionWrapper.Types FunctionWrapper.Traits FunctionWrapper.Signatures
open FunctionWrapper.Callables FunctionWrapper.Storage FunctionWrapper.Lifecycle
open FunctionWrapper.CallAcceptance FunctionWrapper.RunInvariant FunctionWrapper.Dispatch
open FunctionWrapper.CallResult FunctionWrapper.WrapperSpec FunctionWrapper.ValueSemantics
open FunctionWrapper.ValueMachine FunctionWrapper.Histories FunctionWrapper.MemberAdapters
open FunctionWrapper.SharedObjects
open FunctionWrapper.FunctionRef (RefEnv Target)
open FunctionWrapper.RefMachine
open Runs

variable {τ Val Fn σ Obj Member Raw Arg Ret Exc μ : Type}

section Thunks

variable {β : Type} (f : Target Obj Member Fn → Arg → β) (isConst : Bool)

/-- `std::invoke(adapter->member_ptr(), *adapter->object_ptr(), std::forward<Args>(args)...)`, for
`invoke_thunks` of `member_adapter<Object, Member>`. -/
def invokeAdapter (adapter : MemberAdapter Obj Member) (a : Arg) : β :=
  f (.member adapter.object adapter.member isConst) a

def l : MemberAdapter Obj Member → Arg → β := invokeAdapter f isConst
def cl : MemberAdapter Obj Member → Arg → β := invokeAdapter f isConst
/-- The adapter is not moved from. -/
def r : MemberAdapter Obj Member → Arg → β := invokeAdapter f isConst

def thunk : Category → MemberAdapter Obj Member → Arg → β
  | .l => l f isConst
  | .cl => cl f isConst
  | .r => r f isConst

@[simp] lemma thunk_eq (cat : Category) (adapter : MemberAdapter Obj Member) (a : Arg) :
    thunk f isConst cat adapter a = f (.member adapter.object adapter.member isConst) a := by
  cases cat <;> rfl

end Thunks

variable {P : Members} {E : Env τ Val Fn} {R : RefEnv σ Obj Member Fn}
variable {L : SharedLanguage τ Val Fn Raw Arg Ret Exc μ} {X : Execution Obj Member Fn Arg Ret Exc μ}
variable {A : Adapters P E R}

/-- Stored adapters run in their thunks. -/
structure RunsAdapters (L : SharedLanguage τ Val Fn Raw Arg Ret Exc μ)
    (X : Execution Obj Member Fn Arg Ret Exc μ) (A : Adapters P E R) : Prop where
  invoke : ∀ m o isConst n cat a, L.invoke m (A.memberRef o isConst n).type cat R.sig
    (A.memberRef o isConst n).val a = thunk (X.exec m) isConst cat ⟨o, n⟩ a
  invoked : ∀ m o isConst n cat a, L.invoked m (A.memberRef o isConst n).type cat R.sig
    (A.memberRef o isConst n).val a = thunk (X.leaves m) isConst cat ⟨o, n⟩ a
  after : ∀ m o isConst n cat a, L.after m (A.memberRef o isConst n).type cat R.sig
    (A.memberRef o isConst n).val a = (A.memberRef o isConst n).val

variable [DecidableEq τ] {m m' : μ} {q q' : Phase × Values τ Val} {w : ℕ} {o : Obj} {n : Member}
variable {isConst : Bool} {mode : Mode} {cat : Category} {args : Raw} {a : Arg}
variable {seen : Outcome Ret Exc}

lemma call_of_stored (hL : RunsAdapters L X A) (hrun : q.1 = .run)
    (hq : q.2 w = some (some (.stored (A.memberRef o isConst n))))
    (hbind : R.memberBindable (R.typeOf o) (R.memberType n) isConst = true)
    (hacc : acceptedSignature L.program .wrapper mode E.sigs (L.types args) = some R.sig)
    (hargs : convert (L.given m).toCalls mode R.sig args = .ok a) :
    (openMachine L E).step m q (.call w mode cat args seen) m' q' ↔
      seen = outcome R.sig (X.exec m (.member o n isConst) a) ∧ seen ≠ .terminated ∧ q' = q ∧
        m' = X.leaves m (.member o n isConst) a := by
  obtain ⟨ph, B⟩ := q
  obtain rfl : ph = .run := hrun
  replace hq : B w = some (some (.stored (A.memberRef o isConst n))) := hq
  have hx : E.exactInvocable (A.memberRef o isConst n).type cat R.sig = true := by
    rw [Adapters.exactInvocable_eq, hbind]
  have hcall : valueCall E (L.given m) .run (some (.stored (A.memberRef o isConst n))) mode cat
      R.sig args = outcome R.sig (X.exec m (.member o n isConst) a) := by
    simp only [valueCall, valueOutcome, hargs, hx, if_true, reduceCtorEq, if_false]
    rw [show (L.given m).invoke = L.invoke m from rfl, hL.invoke, thunk_eq]
  have hafter : objectAfter E (L.given m) mode cat R.sig args (A.memberRef o isConst n) =
      A.memberRef o isConst n := by
    simp only [objectAfter, hargs, hx, if_true]
    rw [show (L.given m).after = L.after m from rfl, hL.after]
  have hleaves : machineLeaves L E m (.run, B)
      (.call w mode cat args seen : Event τ Val Raw Ret Exc) =
        X.leaves m (.member o n isConst) a := by
    simp only [machineLeaves, hq, hacc, valueTarget, hargs, hx, if_true, SharedLanguage.left]
    rw [hL.invoked, thunk_eq]
  have hsame : Function.update B w (some (some (.stored (A.memberRef o isConst n)))) = B := by
    rw [← hq, Function.update_eq_self]
  constructor
  · rintro ⟨⟨b, s, hb, hs, rfl, hend, rfl⟩, rfl⟩
    obtain rfl := Option.some.inj (hb.symm.trans hq)
    obtain rfl := Option.some.inj (hs.symm.trans hacc)
    refine ⟨hcall, hend, ?_, hleaves⟩
    rw [Option.map_some, Callable.mapStored, hafter, hsame]
  · rintro ⟨rfl, hend, rfl, rfl⟩
    refine ⟨⟨_, R.sig, hq, hacc, hcall.symm, hend, ?_⟩, hleaves.symm⟩
    rw [Option.map_some, Callable.mapStored, hafter, hsame]

/-! ### Interchange -/

variable {m₀ : μ} {r : ℕ}
variable {pre post : List (Event τ Val Raw Ret Exc ⊕ RefEvent Obj Member Fn Arg Ret Exc)}

/-- After these events the wrapper stores an adapter, and the `function_ref` leads to the member of
the adapter. -/
def HoldSame (L : SharedLanguage τ Val Fn Raw Arg Ret Exc μ)
    (X : Execution Obj Member Fn Arg Ret Exc μ) (A : Adapters P E R) (m₀ : μ)
    (pre : List (Event τ Val Raw Ret Exc ⊕ RefEvent Obj Member Fn Arg Ret Exc)) (w r : ℕ) (o : Obj)
    (isConst : Bool) (n : Member) : Prop :=
  ∀ m q V, Path (sharedMachine L E R X m₀) pre (start m₀) (m, q, V) →
    q.2 w = some (some (.stored (A.memberRef o isConst n))) ∧ Leads V r (.member o n isConst)

lemma run_of_step {K : Language τ Val Fn Raw Arg Ret Exc} {e : Event τ Val Raw Ret Exc}
    (hs : (machine E K).step q e q') (hrun : q.1 = .run) : q'.1 = .run := by
  by_cases he : e.named = []
  · cases e with
    | op op threw =>
      rw [phase_of_op hs]
      cases op <;> first | rfl | exact hrun
    | call w mode cat args seen => cases he
    | ask w hasValue bound => cases he
  · rw [step_phase hs he, hrun]

lemma run_of_path {t : List (Event τ Val Raw Ret Exc ⊕ RefEvent Obj Member Fn Arg Ret Exc)}
    {p p' : μ × (Phase × Values τ Val) × Views Obj Member Fn}
    (h : Path (sharedMachine L E R X m₀) t p p')
    (hrun : p.2.1.1 = .run ∨ .inl (.op .start false) ∈ t) : p'.2.1.1 = .run := by
  induction h with
  | nil => exact hrun.resolve_right List.not_mem_nil
  | @cons p p₁ _ a t hs _ ih =>
    refine ih ?_
    rcases hrun with hrun | hmem
    · left
      cases a with
      | inl e => exact run_of_step hs.1.1 hrun
      | inr e => rw [hs.2, hrun]
    · rcases List.mem_cons.mp hmem with rfl | hmem
      · left
        rw [hs.1.1.2.2]
        rfl
      · exact .inr hmem

/-- The wrapper has been given the adapter at run time, and then the `function_ref` the object and
the member. -/
lemma holdSame_of_made
    (before : List (Event τ Val Raw Ret Exc ⊕ RefEvent Obj Member Fn Arg Ret Exc))
    (hstart : .inl (.op .start false) ∈ before)
    (h : E.supportsSignature (A.memberRef o isConst n).type R.sig = true) :
    HoldSame L X A m₀ (before ++
      [.inl (.op (.construct w (.object (A.memberRef o isConst n))) false),
        .inr (.op (.make r (.member o isConst n)))]) w r o isConst n := by
  intro m q V hpath
  obtain ⟨⟨m₁, ⟨ph, B⟩, V₁⟩, hbefore, hmade⟩ := hpath.split
  obtain rfl : ph = .run := run_of_path hbefore (.inr hstart)
  simp only [Path.cons_iff, Path.nil_iff] at hmade
  obtain ⟨⟨m₂, q₂, V₂⟩, ⟨⟨⟨-, -, hq₂⟩, -⟩, hV₂⟩, _, ⟨⟨-, hV, -⟩, hq⟩, rfl⟩ := hmade
  obtain rfl : q₂ = _ := hq₂
  obtain rfl : q = _ := hq
  obtain rfl : V = _ := hV
  refine ⟨by simp [valueStep, give, sourceObject, leave], r, .refl, ?_⟩
  rw [RefMachine.viewStep, Function.update_self]
  exact congrArg (fun t => some (View.shows t)) (Adapters.boundTarget_eq h)

lemma run_of_stored {W : World τ Val Fn} (h : Agrees E W q) {o : Object τ Val}
    (ho : q.2 w = some (some (.stored o))) : q.1 = .run := by
  obtain ⟨c, hv, -⟩ := idle_of_stored h.values ho
  rw [← h.phase]
  exact run_of_content h.inv (view_eq_some hv).2

omit [DecidableEq τ] in
lemma refOutcome_eq_terminated {s : Sig} :
    refOutcome s seen = .terminated ↔ seen = .terminated := by
  cases seen <;> simp [refOutcome]

variable [DecidableEq σ]

lemma step_interchange (hL : RunsAdapters L X A)
    (hacc : acceptedSignature L.program .wrapper mode E.sigs (L.types args) = some R.sig)
    (hargs : ∀ m mode, convert (L.given m).toCalls mode R.sig args = .ok a) {mode' : Mode}
    (hmoves : mode' = .tryCall → X.moves.Keeps R.sig)
    (hpre : HoldSame L X A m₀ pre w r o isConst n) {seen' : Outcome (Option Ret) (Thrown Exc)}
    {p p' : μ × (Phase × Values τ Val) × Views Obj Member Fn}
    (hpath : Path (sharedMachine L E R X m₀) pre (start m₀) p) :
    (∃ seen, refOutcome R.sig seen = seen' ∧
        (sharedMachine L E R X m₀).step p (.inl (.call w mode cat args seen)) p') ↔
      (sharedMachine L E R X m₀).step p (.inr (.call r mode' a seen')) p' := by
  obtain ⟨m, q, V⟩ := p
  obtain ⟨m', q', V'⟩ := p'
  obtain ⟨hq, hleads⟩ := hpre m q V hpath
  obtain ⟨⟨W, hW⟩, hV⟩ := path_spec hpath
  have hbind : R.memberBindable (R.typeOf o) (R.memberType n) isConst = true := by
    obtain ⟨p, -, hp⟩ := hleads
    exact (hV p _ hp).2
  have hrun : q.1 = .run := run_of_stored hW hq
  have hcall : (views R X).step m V (.call r mode' a seen') m' V' ↔ _ := call_of_leads hleads
  rw [handOver_of_keeps hmoves] at hcall
  constructor
  · rintro ⟨seen, rfl, hstep, hsame⟩
    obtain ⟨rfl, hend, rfl, rfl⟩ := (call_of_stored hL hrun hq hbind hacc (hargs m mode)).mp hstep
    exact ⟨hcall.mpr ⟨rfl, by rwa [Ne, refOutcome_eq_terminated], hsame, rfl⟩, rfl⟩
  · rintro ⟨hstep, hsame⟩
    obtain ⟨rfl, hend, hV', rfl⟩ := hcall.mp hstep
    rw [Ne, refOutcome_eq_terminated] at hend
    exact ⟨_, rfl, (call_of_stored hL hrun hq hbind hacc (hargs m mode)).mpr ⟨rfl, hend, hsame, rfl⟩,
      hV'⟩

/-- **A member is called alike by both holders.** Where a wrapper stores the adapter of the member
that a `function_ref` leads to, the program can call either with arguments that arrive as the same
values by cast as by initialization: the calls return or throw the same, and nothing that it sees
afterwards tells it which one it called. For `try_call` the moves of the result must keep it. -/
theorem member_calls_interchange (hL : RunsAdapters L X A)
    (hacc : acceptedSignature L.program .wrapper mode E.sigs (L.types args) = some R.sig)
    (hargs : ∀ m mode, convert (L.given m).toCalls mode R.sig args = .ok a) {mode' : Mode}
    (hmoves : mode = .tryCall ∨ mode' = .tryCall → X.moves.Keeps R.sig)
    (hpre : HoldSame L X A m₀ pre w r o isConst n) {seen' : Outcome (Option Ret) (Thrown Exc)} :
    (∃ seen, refOutcome R.sig seen = seen' ∧
        pre ++ .inl (.call w mode cat args seen) :: post ∈ sharedHistories L E R X m₀) ↔
      pre ++ .inr (.call r mode' a seen') :: post ∈ sharedHistories L E R X m₀ := by
  simp only [mem_sharedHistories_iff]
  exact Path.congr_some (p := fun seen : Outcome Ret Exc => refOutcome R.sig seen = seen')
    fun p p' hpath => step_interchange hL hacc hargs (fun e => hmoves (.inr e)) hpre hpath

/-- A class with a member `int add(int)`. -/
def counterType : ObjectType := ⟨⟨false, false⟩, .cls 0⟩
def addMember : MemberType := .function (.cls 0) ⟨false, false, .none⟩ intToInt

def counterMembers : Members :=
  { arithmeticOnly with
    nothrowConverts := fun _ _ => true
    refersTo := fun _ => none }

def counterRefs : RefEnv Unit Unit Unit Empty where
  program := arithmeticOnly
  sig := intToInt
  typeOf _ := ()
  bindable _ _ := false
  memberBindable _ _ isConst := MemberAdapters.memberBindable counterMembers addMember
    (if isConst then counterType.const else counterType) intToInt
  memberType _ := ()
  sizeOf _ := 16
  encode _ := List.replicate 16 0
  decode _ _ := some ()
  length_encode _ := rfl
  decode_encode _ := rfl

/-- The stored types are the adapters for the counter, which `some true` calls as a constant, and
the `static_function` of the class. -/
def counterEnv : Env (Option Bool) (MemberAdapter Unit Unit) Empty where
  kind := .copyable
  sigs := [intToInt]
  storageSize := 32
  maxAlign := 16
  layout :=
    { size := fun _ => 24
      align := fun _ => 8
      nothrowMoveConstructible := fun _ => true
      triviallyDestructible := fun _ => true
      triviallyCopyable := fun _ => true
      copyConstructible := fun _ => true
      moveConstructible := fun _ => true
      destructible_of_copyable := fun _ h => h }
  vtables :=
    { address := fun T => T.elim 8 fun isConst => if isConst then 16 else 24
      typeAt := fun a => if a = 8 then some none else some (some (a == 16))
      typeAt_address := by decide
      aligned := by rintro (_ | _ | _) <;> rfl
      ne_zero := by decide }
  exactInvocable T _ s := T.elim false fun isConst => adapterInvocable counterMembers addMember
    (if isConst then counterType.const else counterType) s
  toPointer _ _ := none
  staticFunction := none
  slotsOf _ _ := none
  movedFrom _ v := v
  brokenFrom _ v := v

def counterAdapters : Adapters counterMembers counterEnv counterRefs where
  objectType _ := counterType
  memberType _ := addMember
  type _ isConst _ := some isConst
  value adapter := adapter
  invocable _ _ _ _ _ := rfl
  bindable _ _ _ := rfl

/-- The member adds its argument to the counter and returns the sum. -/
def counterRuns : Execution Unit Unit Empty ℕ ℕ Unit ℕ where
  moves := .keeping
  exec m _ a := .ok (m + a)
  leaves m _ a := m + a

def counterCalls : SharedLanguage (Option Bool) (MemberAdapter Unit Unit) Empty ℕ ℕ ℕ Unit ℕ where
  program := arithmeticOnly
  types _ := [.val (.arith .int)]
  cast _ a := .ok a
  init _ a := .ok a
  invoke m T cat _ adapter a := thunk (counterRuns.exec m) (T == some true) cat adapter a
  after _ _ _ _ adapter _ := adapter
  invoked m T cat _ adapter a := thunk (counterRuns.leaves m) (T == some true) cat adapter a
  apply _ _ f _ := f.elim
  applied m _ _ _ := m

/-- A wrapper and a `function_ref` are given the member of the counter. -/
def counterHeld : List (Event (Option Bool) (MemberAdapter Unit Unit) ℕ ℕ Unit ⊕
    RefEvent Unit Unit Empty ℕ ℕ Unit) :=
  [.inl (.op .start false),
    .inl (.op (.construct 0 (.object (counterAdapters.memberRef () false ()))) false),
    .inr (.op (.make 0 (.member () false ())))]

lemma counterHeld_same :
    HoldSame counterCalls counterRuns counterAdapters 0 counterHeld 0 0 () false () :=
  holdSame_of_made [.inl (.op .start false)] (List.mem_singleton.mpr rfl) rfl

lemma counter_runs : RunsAdapters counterCalls counterRuns counterAdapters where
  invoke _ _ isConst _ _ _ := by cases isConst <;> rfl
  invoked _ _ isConst _ _ _ := by cases isConst <;> rfl
  after _ _ _ _ _ _ := rfl

/-- The `function_ref` is called, and then the wrapper. -/
theorem member_calls_interchange_counter :
    counterHeld ++ .inr (.call 0 .tryCall 5 (.value (some 5))) ::
        [.inl (.call 0 .call .r 2 (.value 7))] ∈
      sharedHistories counterCalls counterEnv counterRefs counterRuns 0 := by
  have hacc : acceptedSignature arithmeticOnly .wrapper .call [intToInt] [.val (.arith .int)] =
      some intToInt := by decide
  have hargs : ∀ m mode, convert (counterCalls.given m).toCalls mode counterRefs.sig 5 = .ok 5 :=
    fun _ mode => by cases mode <;> rfl
  refine (member_calls_interchange counter_runs hacc hargs (fun _ => Moves.keeping_keeps)
    counterHeld_same).mp
    ⟨.value 5, rfl, (?_ : _ ++ Sum.inl (Event.call 0 .call .l 5 (.value 5)) :: [_] ∈ _)⟩
  rw [mem_sharedHistories_iff]
  exact ⟨(_, _, _), Path.cons_iff.mpr ⟨(_, _, _), ⟨⟨⟨rfl, nofun, rfl⟩, rfl⟩, rfl⟩,
    Path.cons_iff.mpr ⟨(_, _, _), ⟨⟨⟨⟨rfl, rfl, nofun⟩, nofun, rfl⟩, rfl⟩, rfl⟩,
    Path.cons_iff.mpr ⟨(_, _, _), ⟨⟨⟨rfl, nofun, le_rfl, .inl ⟨rfl, rfl⟩⟩, rfl, rfl⟩, rfl⟩,
    Path.cons_iff.mpr ⟨(_, _, _), ⟨⟨⟨_, _, rfl, hacc, rfl, nofun, rfl⟩, rfl⟩, rfl⟩,
    Path.cons_iff.mpr ⟨(_, _, _), ⟨⟨⟨_, _, rfl, hacc, rfl, nofun, rfl⟩, rfl⟩, rfl⟩, .nil _⟩⟩⟩⟩⟩⟩

end FunctionWrapper.MemberCalls
