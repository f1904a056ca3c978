import OpenAgents.Lib.JsText

/- The queue of forced tool choices. A generator is the sequence of its results,
   and a callback is known by its identity. Directives remember the push they come from,
   which the code does not: what is done with the queue never depends on it. -/
namespace ToolChoiceQueue
open JsText

variable {C K : Type}

inductive RejectReason where
  | aborted
  | error
  | cleared
  | removed
  deriving DecidableEq, Repr

inductive RejectOutcome where
  | requeue
  | drop
  deriving DecidableEq, Repr

structure DirectiveCallbacks (K : Type) where
  onResolved : Option K
  onRejected : Option K
  onInvoked : Option K
  deriving DecidableEq

/-- A directive as it was pushed. -/
structure Pushed (K : Type) where
  number : Nat
  label : JsString
  callbacks : DirectiveCallbacks K
  deriving DecidableEq

/- `results` gives what the generator yields next, and none once it is done. -/
structure ToolChoiceDirective (C K : Type) where
  results : Nat → Option C
  position : Nat
  label : JsString
  callbacks : DirectiveCallbacks K
  origin : Pushed K
  replays : Nat

structure InFlight (C K : Type) where
  directive : ToolChoiceDirective C K
  yielded : C

structure State (C K : Type) where
  queue : List (ToolChoiceDirective C K)
  inFlight : Option (InFlight C K)
  lastResolvedLabel : Option JsString
  pushes : Nat

def State.initial : State C K := ⟨[],none,none,0⟩

/-- What the queue hands out and which callback it fires, for the choice of which push. -/
inductive Notice (C K : Type) where
  | handedOut (choice : C) (origin : Pushed K)
  | resolved (choice : C) (origin : Pushed K) (onResolved : Option K)
  | rejected (choice : C) (origin : Pushed K) (reason : RejectReason) (onRejected : Option K)
  deriving DecidableEq

structure PushOptions (K : Type) where
  now : Bool
  label : Option JsString
  callbacks : DirectiveCallbacks K

def onceGen (choice : C) : Nat → Option C
  | 0 => some choice
  | _ + 1 => none

def State.push (st : State C K) (generator : Nat → Option C) (options : PushOptions K) : State C K :=
  let label := options.label.getD (js "anonymous")
  let directive : ToolChoiceDirective C K :=
    { results := generator
      position := 0
      label := label
      callbacks := options.callbacks
      origin := ⟨st.pushes,label,options.callbacks⟩
      replays := 0 }
  { st with
    queue := if options.now then directive :: st.queue else st.queue ++ [directive]
    pushes := st.pushes + 1 }

/- Directives that are done are dropped from the head. -/
def advanceHead : List (ToolChoiceDirective C K) → List (ToolChoiceDirective C K) × Option (InFlight C K)
  | [] => ([], none)
  | head :: rest =>
      match head.results head.position with
      | none => advanceHead rest
      | some choice =>
          let advanced := { head with position := head.position + 1 }
          (advanced :: rest, some ⟨advanced,choice⟩)

def State.nextToolChoice (st : State C K) : State C K × List (Notice C K) :=
  match advanceHead st.queue with
  | (queue, none) => ({ st with queue := queue }, [])
  | (queue, some f) =>
      ({ st with queue := queue, inFlight := some f }, [.handedOut f.yielded f.directive.origin])

def State.resolve (st : State C K) : State C K × List (Notice C K) :=
  match st.inFlight with
  | none => (st, [])
  | some f =>
      ({ st with inFlight := none, lastResolvedLabel := some f.directive.label },
        [.resolved f.yielded f.directive.origin f.directive.callbacks.onResolved])

/- Only the lost yield is queued again, with the callbacks for running and rejecting it. -/
def requeued (f : InFlight C K) : ToolChoiceDirective C K :=
  { results := onceGen f.yielded
    position := 0
    label := f.directive.label ++ js "-requeued"
    callbacks :=
      { onResolved := none
        onRejected := f.directive.callbacks.onRejected
        onInvoked := f.directive.callbacks.onInvoked }
    origin := f.directive.origin
    replays := f.directive.replays + 1 }

/-- `outcome` is what the callback returns, if there is one. -/
def State.reject (st : State C K) (reason : RejectReason) (outcome : RejectOutcome) :
    State C K × List (Notice C K) :=
  match st.inFlight with
  | none => (st, [])
  | some f =>
      let onRejected := f.directive.callbacks.onRejected
      let queue := if onRejected.isSome && outcome = .requeue then requeued f :: st.queue else st.queue
      ({ st with inFlight := none, queue := queue }, [.rejected f.yielded f.directive.origin reason onRejected])

def State.removeByLabel (st : State C K) (label : JsString) (outcome : RejectOutcome) :
    State C K × List (Notice C K) :=
  let matching := st.inFlight.any fun f => f.directive.label = label
  let (st, notices) := if matching then st.reject .removed outcome else (st, [])
  ({ st with queue := st.queue.filter fun d => d.label ≠ label }, notices)

def State.clear (st : State C K) (outcome : RejectOutcome) : State C K × List (Notice C K) :=
  let (st, notices) := st.reject .cleared outcome
  ({ st with queue := [], lastResolvedLabel := none }, notices)

inductive Op (C K : Type) where
  | push (generator : Nat → Option C) (options : PushOptions K)
  | nextToolChoice
  | resolve
  | reject (reason : RejectReason) (outcome : RejectOutcome)
  | removeByLabel (label : JsString) (outcome : RejectOutcome)
  | clear (outcome : RejectOutcome)

def step (st : State C K) : Op C K → State C K × List (Notice C K)
  | .push generator options => (st.push generator options, [])
  | .nextToolChoice => st.nextToolChoice
  | .resolve => st.resolve
  | .reject reason outcome => st.reject reason outcome
  | .removeByLabel label outcome => st.removeByLabel label outcome
  | .clear outcome => st.clear outcome

def run (st : State C K) : List (Op C K) → State C K × List (Notice C K)
  | [] => (st, [])
  | op :: rest =>
      let first := step st op
      let after := run first.1 rest
      (after.1, first.2 ++ after.2)

/- Directives -/

/- A directive is as it was pushed, or replays one yield of a directive without `onResolved`. -/
def Faithful (d : ToolChoiceDirective C K) : Prop :=
  if d.replays = 0 then d.label = d.origin.label ∧ d.callbacks = d.origin.callbacks
  else d.callbacks.onResolved = none ∧ d.callbacks.onRejected = d.origin.callbacks.onRejected ∧
    d.callbacks.onInvoked = d.origin.callbacks.onInvoked

structure Inv (st : State C K) : Prop where
  queued : ∀ d ∈ st.queue, Faithful d ∧ d.origin.number < st.pushes
  flying : ∀ f ∈ st.inFlight, Faithful f.directive ∧ f.directive.origin.number < st.pushes

theorem faithful_requeued {f : InFlight C K} (faithful : Faithful f.directive) : Faithful (requeued f) := by
  have replayed : (requeued f).replays ≠ 0 := Nat.succ_ne_zero f.directive.replays
  unfold Faithful at faithful ⊢
  rw [if_neg replayed]
  refine ⟨rfl,?_⟩
  split at faithful
  · have same := faithful.2
    have rejected : f.directive.callbacks.onRejected = f.directive.origin.callbacks.onRejected := by rw [same]
    have invoked : f.directive.callbacks.onInvoked = f.directive.origin.callbacks.onInvoked := by rw [same]
    exact ⟨rejected,invoked⟩
  · exact faithful.2

theorem faithful_onResolved {d : ToolChoiceDirective C K} (faithful : Faithful d) :
    d.callbacks.onResolved = d.origin.callbacks.onResolved ↔
      d.replays = 0 ∨ d.origin.callbacks.onResolved = none := by
  unfold Faithful at faithful
  split at faithful
  · rename_i first
    simp [first, faithful.2]
  · rename_i replayed
    simp only [faithful.1, replayed, false_or]
    exact eq_comm

/-- What is left after advancing, and what is handed out, was in the queue up to its position. -/
theorem advanceHead_spec (queue : List (ToolChoiceDirective C K)) :
    (∀ d ∈ (advanceHead queue).1, ∃ e ∈ queue, ∃ position, d = { e with position := position }) ∧
    ∀ f ∈ (advanceHead queue).2, ∃ e ∈ queue, e.results e.position = some f.yielded ∧
      f.directive = { e with position := e.position + 1 } := by
  induction queue with
  | nil => simp [advanceHead]
  | cons head rest ih =>
    unfold advanceHead
    cases result : head.results head.position with
    | none =>
      obtain ⟨left,handed⟩ := ih
      constructor
      · intro d mem
        obtain ⟨e,inside,position,same⟩ := left d mem
        exact ⟨e,List.mem_cons_of_mem head inside,position,same⟩
      · intro f mem
        obtain ⟨e,inside,yields,same⟩ := handed f mem
        exact ⟨e,List.mem_cons_of_mem head inside,yields,same⟩
    | some choice =>
      constructor
      · intro d mem
        rcases List.mem_cons.mp mem with rfl | later
        · exact ⟨head,List.mem_cons_self,head.position + 1,rfl⟩
        · exact ⟨d,List.mem_cons_of_mem head later,d.position,rfl⟩
      · intro f mem
        cases mem
        exact ⟨head,List.mem_cons_self,result,rfl⟩

theorem initial_inv : Inv (State.initial : State C K) := ⟨by simp [State.initial],by simp [State.initial]⟩

variable {st : State C K}

theorem push_inv (inv : Inv st) (generator : Nat → Option C) (options : PushOptions K) :
    Inv (st.push generator options) := by
  have known : ∀ d ∈ st.queue, Faithful d ∧ d.origin.number < st.pushes + 1 :=
    fun d mem => ⟨(inv.queued d mem).1,Nat.lt_succ_of_lt (inv.queued d mem).2⟩
  constructor
  · intro d mem
    have new_or_known : d ∈ st.queue ∨ Faithful d ∧ d.origin.number < st.pushes + 1 := by
      unfold State.push at mem
      dsimp only at mem
      split at mem
      · rcases List.mem_cons.mp mem with rfl | later
        · exact .inr ⟨⟨rfl,rfl⟩,Nat.lt_succ_self _⟩
        · exact .inl later
      · rcases List.mem_append.mp mem with early | last
        · exact .inl early
        · rw [List.mem_singleton] at last
          subst last
          exact .inr ⟨⟨rfl,rfl⟩,Nat.lt_succ_self _⟩
    exact new_or_known.elim (known d) id
  · intro f flying
    exact ⟨(inv.flying f flying).1,Nat.lt_succ_of_lt (inv.flying f flying).2⟩

theorem nextToolChoice_inv (inv : Inv st) : Inv st.nextToolChoice.1 := by
  obtain ⟨left,handed⟩ := advanceHead_spec st.queue
  have queued : ∀ d ∈ (advanceHead st.queue).1, Faithful d ∧ d.origin.number < st.pushes := by
    intro d mem
    obtain ⟨e,inside,position,rfl⟩ := left d mem
    exact inv.queued e inside
  unfold State.nextToolChoice
  cases advanced : advanceHead st.queue with
  | mk queue served =>
    rw [advanced] at queued handed
    cases served with
    | none => exact ⟨queued,inv.flying⟩
    | some f =>
      refine ⟨queued,?_⟩
      intro g flying
      cases flying
      obtain ⟨e,inside,-,same⟩ := handed f rfl
      rw [same]
      exact inv.queued e inside

theorem resolve_inv (inv : Inv st) : Inv st.resolve.1 := by
  unfold State.resolve
  cases st.inFlight with
  | none => exact inv
  | some f => exact ⟨inv.queued,fun g flying => by cases flying⟩

theorem reject_inv (inv : Inv st) (reason : RejectReason) (outcome : RejectOutcome) : Inv (st.reject reason outcome).1 := by
  unfold State.reject
  cases flying : st.inFlight with
  | none => exact inv
  | some f =>
    refine ⟨?_,fun g none_flying => by cases none_flying⟩
    intro d mem
    dsimp only at mem
    split at mem
    · rcases List.mem_cons.mp mem with rfl | later
      · exact ⟨faithful_requeued (inv.flying f flying).1,(inv.flying f flying).2⟩
      · exact inv.queued d later
    · exact inv.queued d mem

theorem filter_inv (inv : Inv st) (keep : ToolChoiceDirective C K → Bool) (label : Option JsString) : Inv { st with queue := st.queue.filter keep, lastResolvedLabel := label } :=
  ⟨fun d mem => inv.queued d (List.mem_filter.mp mem).1,inv.flying⟩

theorem step_inv (inv : Inv st) (op : Op C K) : Inv (step st op).1 := by
  cases op with
  | push generator options => exact push_inv inv generator options
  | nextToolChoice => exact nextToolChoice_inv inv
  | resolve => exact resolve_inv inv
  | reject reason outcome => exact reject_inv inv reason outcome
  | removeByLabel label outcome =>
    simp only [step, State.removeByLabel]
    split
    · exact filter_inv (reject_inv inv .removed outcome) _ _
    · exact filter_inv inv _ _
  | clear outcome => exact ⟨by simp [step, State.clear],(reject_inv inv .cleared outcome).flying⟩

end ToolChoiceQueue
