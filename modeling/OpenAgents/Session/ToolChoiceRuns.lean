import OpenAgents.Session.ToolChoiceQueue
import Mathlib.Tactic.FinCases

/- Runs of the tool-choice queue: when every choice is settled once before the next is
   handed out, and when a removal is final. -/
namespace ToolChoiceQueue
open JsText

variable {C K : Type}

/- Settling -/

/- Between two choices that are handed out there is one callback, and it is about the first. -/
def Alternates : Option (C × Pushed K) → List (Notice C K) → Prop
  | _, [] => True
  | pending, .handedOut choice origin :: rest => pending = none ∧ Alternates (some (choice, origin)) rest
  | pending, .resolved choice origin _ :: rest => pending = some (choice, origin) ∧ Alternates none rest
  | pending, .rejected choice origin _ _ :: rest => pending = some (choice, origin) ∧ Alternates none rest

/- A resolved choice fires the callback its directive was pushed with. -/
def FiresOriginal (notices : List (Notice C K)) : Prop :=
  ∀ choice origin fired, .resolved choice origin fired ∈ notices → fired = origin.callbacks.onResolved

def Settled (notices : List (Notice C K)) : Prop := Alternates none notices ∧ FiresOriginal notices

/-- Nothing is handed out over a choice in flight, and no replay is resolved whose
    directive was pushed with an `onResolved`. -/
def SettlesFirst (st : State C K) : Op C K → Prop
  | .nextToolChoice => st.inFlight.isSome = true → (advanceHead st.queue).2 = none
  | .resolve =>
      ∀ f ∈ st.inFlight, f.directive.replays = 0 ∨ f.directive.origin.callbacks.onResolved = none
  | _ => True

def SettlesFirstRun (st : State C K) : List (Op C K) → Prop
  | [] => True
  | op :: rest => SettlesFirst st op ∧ SettlesFirstRun (step st op).1 rest

def State.pending (st : State C K) : Option (C × Pushed K) :=
  st.inFlight.map fun f => (f.yielded, f.directive.origin)

theorem reject_settles (st : State C K) (reason : RejectReason) (outcome : RejectOutcome)
    (rest : List (Notice C K)) :
    Alternates st.pending ((st.reject reason outcome).2 ++ rest) ↔
      Alternates (st.reject reason outcome).1.pending rest := by
  unfold State.reject State.pending
  cases flying : st.inFlight with
  | none => simp [flying]
  | some f => simp [Alternates]

/-- What one operation tells leaves the rest with the choice then in flight. -/
theorem step_alternates (st : State C K) (op : Op C K) (rest : List (Notice C K)) :
    Alternates st.pending ((step st op).2 ++ rest) ↔
      (op = .nextToolChoice → st.inFlight.isSome = true → (advanceHead st.queue).2 = none) ∧
        Alternates (step st op).1.pending rest := by
  cases op with
  | push generator options => simp [step, State.push, State.pending]
  | nextToolChoice =>
    simp only [step, State.nextToolChoice, forall_const]
    cases advanced : advanceHead st.queue with
    | mk queue served =>
      cases served with
      | none => simp [State.pending]
      | some f =>
        cases flying : st.inFlight with
        | none => simp [State.pending, Alternates, flying]
        | some g => simp [State.pending, Alternates, flying]
  | resolve =>
    simp only [step, State.resolve, State.pending]
    cases flying : st.inFlight with
    | none => simp [flying]
    | some f => simp [Alternates]
  | reject reason outcome => simpa [step] using reject_settles st reason outcome rest
  | removeByLabel label outcome =>
    simp only [step, State.removeByLabel]
    split
    · simpa [State.pending] using reject_settles st .removed outcome rest
    · simp [State.pending]
  | clear outcome => simpa [step, State.clear, State.pending] using reject_settles st .cleared outcome rest

theorem reject_fires_none (st : State C K) (reason : RejectReason) (outcome : RejectOutcome) (choice : C)
    (origin : Pushed K) (fired : Option K) :
    .resolved choice origin fired ∉ (st.reject reason outcome).2 := by
  unfold State.reject
  cases st.inFlight with
  | none => simp
  | some f => simp

variable {st : State C K} {ops : List (Op C K)} {label : JsString} {pushes : Nat}

theorem step_fires (inv : Inv st) (op : Op C K) :
    FiresOriginal (step st op).2 ↔
      (op = .resolve → ∀ f ∈ st.inFlight, f.directive.replays = 0 ∨ f.directive.origin.callbacks.onResolved = none) := by
  cases op with
  | push generator options => simp [step, FiresOriginal]
  | nextToolChoice =>
    simp only [step, State.nextToolChoice]
    cases advanced : advanceHead st.queue with
    | mk queue served =>
      cases served with
      | none => simp [FiresOriginal]
      | some f => simp [FiresOriginal]
  | resolve =>
    simp only [step, State.resolve]
    cases flying : st.inFlight with
    | none => simp [FiresOriginal]
    | some f =>
      have fires := faithful_onResolved (inv.flying f flying).1
      simp only [FiresOriginal, List.mem_singleton, Notice.resolved.injEq, forall_const, Option.mem_def,
        Option.some.injEq, forall_eq']
      rw [← fires]
      constructor
      · intro all
        exact all f.yielded f.directive.origin f.directive.callbacks.onResolved ⟨rfl,rfl,rfl⟩
      · rintro same _ _ _ ⟨rfl,rfl,rfl⟩
        exact same
  | reject reason outcome =>
    simp only [step, FiresOriginal, reject_fires_none]
    simp
  | removeByLabel label outcome =>
    simp only [step, State.removeByLabel, FiresOriginal]
    split
    · simp [reject_fires_none]
    · simp
  | clear outcome => simp [step, State.clear, FiresOriginal, reject_fires_none]

theorem settlesFirst_iff {op : Op C K} : SettlesFirst st op ↔
    (op = .nextToolChoice → st.inFlight.isSome = true → (advanceHead st.queue).2 = none) ∧
    (op = .resolve → ∀ f ∈ st.inFlight, f.directive.replays = 0 ∨ f.directive.origin.callbacks.onResolved = none) := by
  cases op with
  | nextToolChoice => simp [SettlesFirst]
  | resolve => simp [SettlesFirst]
  | push => simp [SettlesFirst]
  | reject => simp [SettlesFirst]
  | removeByLabel => simp [SettlesFirst]
  | clear => simp [SettlesFirst]

theorem firesOriginal_append (one two : List (Notice C K)) :
    FiresOriginal (one ++ two) ↔ FiresOriginal one ∧ FiresOriginal two := by
  simp only [FiresOriginal, List.mem_append, or_imp, forall_and]

theorem run_settles : ∀ {st : State C K}, Inv st →
    (Alternates st.pending (run st ops).2 ∧ FiresOriginal (run st ops).2 ↔ SettlesFirstRun st ops) := by
  induction ops with
  | nil =>
    intro st _
    simp [run, Alternates, FiresOriginal, SettlesFirstRun]
  | cons op rest ih =>
    intro st inv
    have later := ih (step_inv inv op)
    rw [run, SettlesFirstRun, settlesFirst_iff, ← later, ← step_fires inv op]
    simp only [step_alternates, firesOriginal_append]
    tauto

/-- For every sequence of operations on a new queue. -/
theorem choices_settled_iff (ops : List (Op C K)) :
    Settled (run State.initial ops).2 ↔ SettlesFirstRun State.initial ops :=
  run_settles initial_inv

def twoChoices : Nat → Option Nat
  | 0 => some 0
  | 1 => some 1
  | _ + 2 => none

/- The second choice is handed out over the first; and a replayed choice resolves silently. -/
def overwriting : List (Op Nat Nat) :=
  [.push twoChoices ⟨false,none,⟨some 7,none,none⟩⟩, .nextToolChoice, .nextToolChoice, .resolve]

def replaying : List (Op Nat Nat) :=
  [.push (onceGen 0) ⟨false,none,⟨some 7,some 8,none⟩⟩, .nextToolChoice, .reject .aborted .requeue,
    .nextToolChoice, .resolve]

theorem choices_lose_callbacks :
    ¬Settled (run State.initial overwriting).2 ∧ ¬Settled (run State.initial replaying).2 := by
  constructor
  · rintro ⟨alternates,-⟩
    have first : (run State.initial overwriting).2 =
        [.handedOut 0 ⟨0,js "anonymous",⟨some 7,none,none⟩⟩,
          .handedOut 1 ⟨0,js "anonymous",⟨some 7,none,none⟩⟩,
          .resolved 1 ⟨0,js "anonymous",⟨some 7,none,none⟩⟩ (some 7)] := by rfl
    rw [first] at alternates
    simp [Alternates] at alternates
  · rintro ⟨-,fires⟩
    have silent := fires 0 ⟨0,js "anonymous",⟨some 7,some 8,none⟩⟩ none (by decide)
    cases silent

/- Removing -/

/- A choice of a directive that was pushed with the label before the removal. -/
def FromRemoved (label : JsString) (pushes : Nat) (origin : Pushed K) : Prop :=
  origin.label = label ∧ origin.number < pushes

/-- No replay of a removed directive waits in the queue or is in flight, and the one in flight
    is not requeued when it is removed. -/
def RemovesAll (st : State C K) (label : JsString) (outcome : RejectOutcome) : Prop :=
  (∀ d ∈ st.queue, d.origin.label = label → d.label = label ∨ d.results d.position = none) ∧
  ∀ f ∈ st.inFlight, f.directive.origin.label = label →
    f.directive.label = label ∧ (f.directive.callbacks.onRejected.isSome = true → outcome = .drop)

/-- No choice from a removed directive is left. -/
structure Gone (label : JsString) (pushes : Nat) (st : State C K) : Prop where
  queued : ∀ d ∈ st.queue, FromRemoved label pushes d.origin → d.results d.position = none
  flying : ∀ f ∈ st.inFlight, ¬FromRemoved label pushes f.directive.origin
  later : pushes ≤ st.pushes

theorem reject_gone (gone : Gone label pushes st) (reason : RejectReason) (outcome : RejectOutcome) : Gone label pushes (st.reject reason outcome).1 := by
  unfold State.reject
  cases flying : st.inFlight with
  | none => exact gone
  | some f =>
    refine ⟨?_,(fun g none_flying => by cases none_flying),gone.later⟩
    intro d mem
    dsimp only at mem
    split at mem
    · rcases List.mem_cons.mp mem with rfl | later
      · exact fun removed => absurd removed (gone.flying f flying)
      · exact gone.queued d later
    · exact gone.queued d mem

/-- Advancing leaves directives of the queue, the one that was handed out at its head. -/
theorem advanceHead_gone {queue : List (ToolChoiceDirective C K)}
    (gone : ∀ d ∈ queue, FromRemoved label pushes d.origin → d.results d.position = none) :
    (∀ d ∈ (advanceHead queue).1, FromRemoved label pushes d.origin → d.results d.position = none) ∧
      ∀ f ∈ (advanceHead queue).2, ¬FromRemoved label pushes f.directive.origin := by
  induction queue with
  | nil => simp [advanceHead]
  | cons head rest ih =>
    unfold advanceHead
    cases result : head.results head.position with
    | none => exact ih fun d mem => gone d (List.mem_cons_of_mem head mem)
    | some choice =>
      have kept : ¬FromRemoved label pushes head.origin := by
        intro removed
        rw [gone head List.mem_cons_self removed] at result
        cases result
      constructor
      · intro d mem
        rcases List.mem_cons.mp mem with rfl | later
        · exact fun removed => absurd removed kept
        · exact gone d (List.mem_cons_of_mem head later)
      · intro f mem
        cases mem
        exact kept

theorem filter_gone (gone : Gone label pushes st) (keep : ToolChoiceDirective C K → Bool) (last : Option JsString) :
    Gone label pushes { st with queue := st.queue.filter keep, lastResolvedLabel := last } :=
  ⟨fun d mem => gone.queued d (List.mem_filter.mp mem).1,gone.flying,gone.later⟩

theorem push_gone (gone : Gone label pushes st) (generator : Nat → Option C) (options : PushOptions K) :
    Gone label pushes (st.push generator options) := by
  refine ⟨?_,gone.flying,Nat.le_succ_of_le gone.later⟩
  intro d mem removed
  have known : d ∈ st.queue := by
    unfold State.push at mem
    dsimp only at mem
    split at mem
    · rcases List.mem_cons.mp mem with rfl | later
      · exact absurd removed.2 (Nat.not_lt.mpr gone.later)
      · exact later
    · rcases List.mem_append.mp mem with early | last
      · exact early
      · rw [List.mem_singleton] at last
        subst last
        exact absurd removed.2 (Nat.not_lt.mpr gone.later)
  exact gone.queued d known removed

theorem step_gone (gone : Gone label pushes st) (op : Op C K) :
    Gone label pushes (step st op).1 ∧
      ∀ choice origin, .handedOut choice origin ∈ (step st op).2 → ¬FromRemoved label pushes origin := by
  have rejects (reason : RejectReason) (outcome : RejectOutcome) (choice : C) (origin : Pushed K) :
      .handedOut choice origin ∉ (st.reject reason outcome).2 := by
    unfold State.reject
    cases st.inFlight with
    | none => simp
    | some f => simp
  cases op with
  | push generator options => exact ⟨push_gone gone generator options,by simp [step]⟩
  | nextToolChoice =>
    obtain ⟨queued,handed⟩ := advanceHead_gone gone.queued
    simp only [step, State.nextToolChoice]
    cases advanced : advanceHead st.queue with
    | mk queue served =>
      rw [advanced] at queued handed
      cases served with
      | none => exact ⟨⟨queued,gone.flying,gone.later⟩,by simp⟩
      | some f =>
        refine ⟨⟨queued,handed,gone.later⟩,?_⟩
        intro choice origin mem
        cases List.mem_singleton.mp mem
        exact handed f rfl
  | resolve =>
    simp only [step, State.resolve]
    cases flying : st.inFlight with
    | none => exact ⟨gone,by simp⟩
    | some f => exact ⟨⟨gone.queued,(fun g none_flying => by cases none_flying),gone.later⟩,by simp⟩
  | reject reason outcome =>
    exact ⟨reject_gone gone reason outcome,fun choice origin mem => absurd mem (rejects _ _ _ _)⟩
  | removeByLabel other outcome =>
    simp only [step, State.removeByLabel]
    split
    · exact ⟨filter_gone (reject_gone gone .removed outcome) _ _,
        fun choice origin mem => absurd mem (rejects _ _ _ _)⟩
    · exact ⟨filter_gone gone _ _,by simp⟩
  | clear outcome =>
    refine ⟨⟨by simp [step, State.clear],(reject_gone gone .cleared outcome).flying,?_⟩,
      fun choice origin mem => absurd mem (rejects _ _ _ _)⟩
    exact (reject_gone gone .cleared outcome).later

theorem run_gone : ∀ {st : State C K},
    Gone label pushes st → ∀ choice origin, .handedOut choice origin ∈ (run st ops).2 →
      ¬FromRemoved label pushes origin := by
  induction ops with
  | nil =>
    intro st _ choice origin mem
    cases mem
  | cons op rest ih =>
    intro st gone choice origin mem
    obtain ⟨gone_after,handed⟩ := step_gone gone op
    rcases List.mem_append.mp mem with first | later
    · exact handed choice origin first
    · exact ih gone_after choice origin later

theorem removeByLabel_gone {outcome : RejectOutcome} (removes : RemovesAll st label outcome) : Gone label st.pushes (st.removeByLabel label outcome).1 := by
  have filtered (queue : List (ToolChoiceDirective C K))
      (queued : ∀ d ∈ queue, d.origin.label = label → d.label = label ∨ d.results d.position = none) :
      ∀ d ∈ queue.filter (fun d => d.label ≠ label), FromRemoved label st.pushes d.origin →
        d.results d.position = none := by
    intro d mem removed
    obtain ⟨inside,other⟩ := List.mem_filter.mp mem
    exact (queued d inside removed.1).resolve_left (by simpa using other)
  unfold State.removeByLabel
  cases flying : st.inFlight with
  | none =>
    simp only [Option.any_none, Bool.false_eq_true, if_false]
    exact ⟨filtered st.queue removes.1,by simp [flying],Nat.le_refl _⟩
  | some f =>
    by_cases matching : f.directive.label = label
    · simp only [Option.any_some, matching, decide_true, if_true, State.reject, flying]
      refine ⟨filtered _ ?_,by simp,Nat.le_refl _⟩
      intro d mem same
      split at mem
      · rename_i again
        simp only [Bool.and_eq_true, decide_eq_true_eq] at again
        rcases List.mem_cons.mp mem with rfl | later
        · have dropped := (removes.2 f flying same).2 again.1
          rw [again.2] at dropped
          cases dropped
        · exact removes.1 d later same
      · exact removes.1 d mem same
    · simp only [Option.any_some, matching, decide_false, Bool.false_eq_true, if_false]
      refine ⟨filtered st.queue removes.1,?_,Nat.le_refl _⟩
      intro g same_flying removed
      rw [flying] at same_flying
      cases same_flying
      exact matching (removes.2 f flying removed.1).1

/-- For every run up to the removal and every run from there. -/
theorem removal_is_final (ops : List (Op C K)) (label : JsString) (outcome : RejectOutcome)
    (removes : RemovesAll (run State.initial ops).1 label outcome) (later : List (Op C K)) (choice : C)
    (origin : Pushed K)
    (handed : .handedOut choice origin ∈
      (run ((run State.initial ops).1.removeByLabel label outcome).1 later).2) :
    ¬FromRemoved label (run (State.initial : State C K) ops).1.pushes origin :=
  run_gone (removeByLabel_gone removes) choice origin handed

def forced : PushOptions Nat := ⟨false,some (js "force"),⟨none,some 8,none⟩⟩

def forcedOrigin : Pushed Nat := ⟨0,js "force",⟨none,some 8,none⟩⟩

def forcedInFlight : List (Op Nat Nat) :=
  [.push twoChoices forced, .push (onceGen 5) ⟨false,none,⟨none,none,none⟩⟩, .nextToolChoice]

theorem removal_is_final_forced :
    ¬FromRemoved (js "force") (run State.initial forcedInFlight).1.pushes
      (⟨1,js "anonymous",⟨none,none,none⟩⟩ : Pushed Nat) := by
  refine removal_is_final forcedInFlight (js "force") .drop ⟨?_,?_⟩ [.nextToolChoice] 5 _ ?_
  · intro d mem _
    left
    fin_cases mem
    · rfl
    · rename_i other
      revert other
      decide
  · intro f flying _
    cases flying
    exact ⟨rfl,fun _ => rfl⟩
  · decide

/-- A yield that was requeued before, and one that is requeued by the removal itself. -/
theorem removed_choice_handed_out :
    (.handedOut 0 forcedOrigin ∈
      (run ((run State.initial (forcedInFlight ++ [.reject .aborted .requeue])).1.removeByLabel
        (js "force") .drop).1 [.nextToolChoice]).2) ∧
    (.handedOut 0 forcedOrigin ∈
      (run ((run State.initial forcedInFlight).1.removeByLabel (js "force") .requeue).1 [.nextToolChoice]).2) ∧
    FromRemoved (js "force") (run State.initial forcedInFlight).1.pushes forcedOrigin :=
  ⟨by decide,by decide,rfl,by decide⟩

end ToolChoiceQueue
