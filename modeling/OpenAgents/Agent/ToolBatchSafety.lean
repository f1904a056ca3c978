import OpenAgents.Agent.ToolBatch
import OpenAgents.Lib.LineSplice
import Mathlib.Data.Nat.Find
import Mathlib.Data.List.Forall2

/- What holds after any events of a batch: exclusive calls run alone and in their place, and
   every call gets one result. -/
namespace ToolBatch
open JsText Conversation ExclusiveBatch LineSplice

variable {M : Type}

def Begun (record : Record) : Prop := record.started = true ∨ record.skipped = true

structure RecordOk (record : Record) : Prop where
  untouched : record.task = .waiting → ¬ Begun record ∧ record.toolResultMessage = none
  runs : record.task = .running → record.started = true ∧ record.toolResultMessage = none
  checks : record.task = .steering → record.started = true
  fulfills : record.task = .fulfilled → Begun record
  own : ∀ message, record.toolResultMessage = some message → message.toolCallId = record.toolCall.id

structure Invariant (concurrencyOf : ToolCall → Concurrency) (toolCalls : List ToolCall) (batch : Batch M) : Prop where
  calls : batch.records.map Record.toolCall = toolCalls
  kinds : batch.kinds = toolCalls.map fun toolCall => concurrencyOf toolCall == .exclusive
  each : ∀ record ∈ batch.records, RecordOk record
  waits : ∀ i record, batch.records[i]? = some record → Begun record →
    ∀ d ∈ waitsFor batch.kinds i, batch.taskIs .fulfilled d = true
  emitted : (batch.records.filterMap Record.toolResultMessage).Perm batch.emittedToolResults
  checking : batch.steeringCheck = true ↔ ∃ record ∈ batch.records, record.task = .steering
  quiet : batch.steeringCheck = true → batch.triggered = false
  told : batch.triggered = batch.steeringMessages.isSome
  kept : batch.obtained = batch.steeringMessages.getD []

section run
variable {concurrencyOf : ToolCall → Concurrency} {toolCalls : List ToolCall}

theorem initial_invariant : Invariant (M := M) concurrencyOf toolCalls (initial concurrencyOf toolCalls) := by
  have fresh : ∀ record ∈ toolCalls.map (newRecord concurrencyOf), ∃ toolCall, record = newRecord concurrencyOf toolCall := by
    intro record mem
    obtain ⟨toolCall,_,rfl⟩ := List.mem_map.mp mem
    exact ⟨toolCall,rfl⟩
  constructor
  · simp [initial, newRecord, Function.comp_def]
  · simp [initial, Batch.kinds, isExclusive, newRecord, Function.comp_def]
  · intro record mem
    obtain ⟨toolCall,rfl⟩ := fresh record mem
    constructor <;> simp [newRecord, Begun]
  · intro i record here begun
    obtain ⟨toolCall,rfl⟩ := fresh record (List.mem_of_getElem? here)
    simp [Begun, newRecord] at begun
  · simp [initial, newRecord, List.filterMap_map, Function.comp_def]
  · constructor
    · intro check
      contradiction
    · rintro ⟨record,mem,task⟩
      obtain ⟨toolCall,rfl⟩ := fresh record mem
      contradiction
  · intro check
    contradiction
  · rfl
  · rfl

/-- A record may take another's place when it is of the same call and keeps what was reached. -/
structure Replaces (batch : Batch M) (index : Nat) (old new : Record) : Prop where
  call : new.toolCall = old.toolCall
  kind : new.concurrency = old.concurrency
  keeps : old.task = .fulfilled → new.task = .fulfilled
  ok : RecordOk new
  ready : Begun new → Begun old ∨ ∀ d ∈ waitsFor batch.kinds index, batch.taskIs .fulfilled d = true

variable {α β : Type} {i : Nat} {batch : Batch M} {settings : Settings} {state : TaskState} {now : Int}

theorem map_set_same (f : α → β) {xs : List α} {x y : α} (here : xs[i]? = some x) (same : f y = f x) : (xs.set i y).map f = xs.map f := by
  refine List.ext_getElem? fun j => ?_
  rw [List.getElem?_map, List.getElem?_map, List.getElem?_set]
  split
  · rename_i position
    rw [← position]
    obtain ⟨inside,found⟩ := List.getElem?_eq_some_iff.mp here
    simp [inside, found, same]
  · rfl

theorem mem_set_cases {xs : List α} {x y : α} (mem : x ∈ xs.set i y) : x ∈ xs ∨ x = y :=
  List.mem_or_eq_of_mem_set mem

theorem taskIs_set (batch : Batch M) {index : Nat} {old new : Record} (here : batch.records[index]? = some old)
    (state : TaskState) (keeps : old.task = state → new.task = state) {d : Nat} (reached : batch.taskIs state d = true) :
    (batch.setRecord index new).taskIs state d = true := by
  simp only [Batch.taskIs, Batch.setRecord, beq_iff_eq] at reached ⊢
  rw [List.getElem?_set]
  split
  · rename_i position
    rw [← position, here, Option.map_some, Option.some.injEq] at reached
    obtain ⟨inside,_⟩ := List.getElem?_eq_some_iff.mp here
    simp [inside, keeps reached]
  · exact reached

theorem kinds_set (batch : Batch M) {index : Nat} {old new : Record} (here : batch.records[index]? = some old)
    (kind : new.concurrency = old.concurrency) : (batch.setRecord index new).kinds = batch.kinds :=
  map_set_same isExclusive here (by rw [isExclusive, isExclusive, kind])

/-- The part of the invariant that a single record's change keeps. -/
theorem replace_keeps (inv : Invariant concurrencyOf toolCalls batch) {index : Nat} {old new : Record}
    (here : batch.records[index]? = some old) (fits : Replaces batch index old new) :
    (batch.setRecord index new).records.map Record.toolCall = toolCalls ∧
      (batch.setRecord index new).kinds = toolCalls.map (fun toolCall => concurrencyOf toolCall == .exclusive) ∧
      (∀ record ∈ (batch.setRecord index new).records, RecordOk record) ∧
      ∀ i record, (batch.setRecord index new).records[i]? = some record → Begun record →
        ∀ d ∈ waitsFor (batch.setRecord index new).kinds i, (batch.setRecord index new).taskIs .fulfilled d = true := by
  have sameKinds := kinds_set batch here fits.kind
  refine ⟨?_,?_,?_,?_⟩
  · rw [← inv.calls]
    exact map_set_same Record.toolCall here fits.call
  · rw [sameKinds, inv.kinds]
  · intro record mem
    rcases mem_set_cases mem with old' | rfl
    · exact inv.each record old'
    · exact fits.ok
  · intro i record found begun d awaited
    rw [sameKinds] at awaited
    refine taskIs_set batch here .fulfilled fits.keeps ?_
    simp only [Batch.setRecord, List.getElem?_set] at found
    split at found
    · rename_i position
      split at found
      · cases found
        rw [← position] at awaited
        rcases fits.ready begun with before | ready
        · exact inv.waits index old here before d awaited
        · exact ready d awaited
      · contradiction
    · exact inv.waits i record found begun d awaited

theorem filterMap_set_none {f : α → Option β} {xs : List α} {x y : α} (here : xs[i]? = some x) (same : f y = f x) : (xs.set i y).filterMap f = xs.filterMap f := by
  obtain ⟨front,back,split,replaced⟩ := set_split here
  rw [replaced, split]
  simp [List.filterMap_append, List.filterMap_cons, same]

theorem filterMap_set_some {f : α → Option β} {xs : List α} {x y : α} {z : β} (here : xs[i]? = some x) (missing : f x = none)
    (given : f y = some z) : ((xs.set i y).filterMap f).Perm (xs.filterMap f ++ [z]) := by
  obtain ⟨front,back,split,replaced⟩ := set_split here
  rw [replaced, split]
  simp only [List.filterMap_append, List.filterMap_cons, missing, given, List.append_assoc]
  exact List.Perm.append_left _ (List.perm_append_singleton _ _).symm

/-- A change of a task that is not checking to another such task leaves the checks alone. -/
theorem checking_set (inv : Invariant concurrencyOf toolCalls batch) {index : Nat} {old new : Record}
    (here : batch.records[index]? = some old) (before : old.task ≠ .steering) (after : new.task ≠ .steering) :
    batch.steeringCheck = true ↔ ∃ record ∈ (batch.setRecord index new).records, record.task = .steering := by
  rw [inv.checking]
  obtain ⟨front,back,split,replaced⟩ := set_split here
  have records : (batch.setRecord index new).records = front ++ new :: back := replaced new
  rw [records, split]
  simp only [List.mem_append, List.mem_cons]
  constructor
  · intro found
    obtain ⟨record,mem,task⟩ := found
    refine ⟨record,?_,task⟩
    rcases mem with early | same | late
    · exact .inl early
    · rw [same] at task
      exact absurd task before
    · exact .inr (.inr late)
  · intro found
    obtain ⟨record,mem,task⟩ := found
    refine ⟨record,?_,task⟩
    rcases mem with early | same | late
    · exact .inl early
    · rw [same] at task
      exact absurd task after
    · exact .inr (.inr late)

theorem silent_set (inv : Invariant concurrencyOf toolCalls batch) {index : Nat} {old new : Record}
    (here : batch.records[index]? = some old) (fits : Replaces batch index old new) (before : old.task ≠ .steering)
    (after : new.task ≠ .steering) (same : new.toolResultMessage = old.toolResultMessage) :
    Invariant concurrencyOf toolCalls (batch.setRecord index new) := by
  obtain ⟨calls,kinds,each,waits⟩ := replace_keeps inv here fits
  refine ⟨calls,kinds,each,waits,?_,checking_set inv here before after,inv.quiet,inv.told,inv.kept⟩
  simp only [Batch.setRecord]
  rw [filterMap_set_none here same]
  exact inv.emitted

theorem finish_keeps (inv : Invariant concurrencyOf toolCalls batch) {index : Nat} {record : Record}
    (here : batch.records[index]? = some record) (running : record.task = .running) (outcome : Outcome) (now : Int) : Invariant concurrencyOf toolCalls (finishTask settings batch index record outcome now) := by
  obtain ⟨started,silent⟩ := (inv.each record (List.mem_of_getElem? here)).runs running
  have begun : Begun record := .inl started
  have ready := inv.waits index record here begun
  have checks : ∀ check : Bool, check = (settings.shouldInterruptImmediately && settings.hasSteeringCallback &&
      !batch.triggered) → (batch.steeringCheck || check) = true → batch.triggered = false := by
    intro check made asked
    rcases Bool.or_eq_true_iff.mp asked with old | new
    · exact inv.quiet old
    · rw [made] at new
      simpa using (Bool.and_eq_true_iff.mp new).2
  rw [finishTask]
  generalize wanted : (settings.shouldInterruptImmediately && settings.hasSteeringCallback && !batch.triggered) = check
  generalize resolved : (if batch.triggered then createSkippedToolResult else outcome) = given
  have fits : Replaces batch index record { record with
      skipped := record.skipped || batch.triggered
      toolResultMessage := some (toolResultMessage record given now)
      task := if check then .steering else .fulfilled } := by
    refine ⟨rfl,rfl,fun was => absurd (was.symm.trans running) (by simp),?_,fun _ => .inl begun⟩
    constructor
    · intro task
      cases check <;> contradiction
    · intro task
      cases check <;> contradiction
    · intro _
      exact started
    · intro _
      exact .inl started
    · intro message same
      cases same
      rfl
  obtain ⟨calls,kinds,each,waits⟩ := replace_keeps inv here fits
  refine ⟨calls,kinds,each,waits,?_,?_,checks check wanted.symm,inv.told,inv.kept⟩
  · refine (filterMap_set_some here silent rfl).trans ?_
    exact List.Perm.append_right _ inv.emitted
  · cases check with
    | true =>
      have inside := (List.getElem?_eq_some_iff.mp here).1
      simp only [Bool.or_true, if_true, true_iff]
      exact ⟨_,List.mem_set inside _,rfl⟩
    | false =>
      rw [Bool.or_false]
      exact checking_set inv here (by rw [running]; simp) (by simp)

theorem settled_record (state : TaskState) (record : Record) :
    (settleSteering state record).toolCall = record.toolCall ∧
      (settleSteering state record).concurrency = record.concurrency ∧
      (settleSteering state record).toolResultMessage = record.toolResultMessage ∧
      (Begun (settleSteering state record) ↔ Begun record) ∧
      (record.task = .fulfilled → (settleSteering state record).task = .fulfilled) := by
  rw [settleSteering]
  split
  · rename_i checking
    exact ⟨rfl,rfl,rfl,Iff.rfl,fun done => absurd (checking.symm.trans done) (by simp)⟩
  · exact ⟨rfl,rfl,rfl,Iff.rfl,fun done => done⟩

theorem settled_ok (settled : state.isSettled = true) {record : Record} (ok : RecordOk record) :
    RecordOk (settleSteering state record) ∧ (settleSteering state record).task ≠ .steering := by
  rw [settleSteering]
  split
  · rename_i checking
    have started := ok.checks checking
    refine ⟨⟨?_,?_,?_,fun _ => .inl started,ok.own⟩,?_⟩
    · intro task
      obtain rfl : state = .waiting := task
      contradiction
    · intro task
      obtain rfl : state = .running := task
      contradiction
    · intro _
      exact started
    · intro task
      obtain rfl : state = .steering := task
      contradiction
  · rename_i other
    exact ⟨ok,other⟩

/-- The part of the invariant that the end of a steering check keeps. -/
theorem settle_keeps (inv : Invariant concurrencyOf toolCalls batch) (settled : state.isSettled = true) {next : Batch M}
    (records : next.records = batch.records.map (settleSteering state)) (checked : next.steeringCheck = false)
    (emitted : next.emittedToolResults = batch.emittedToolResults) (told : next.triggered = next.steeringMessages.isSome)
    (kept : next.obtained = next.steeringMessages.getD []) : Invariant concurrencyOf toolCalls next := by
  have same := settled_record state
  have sameKinds : next.kinds = batch.kinds := by
    rw [Batch.kinds, records, List.map_map, Batch.kinds]
    refine List.map_congr_left fun record _ => ?_
    rw [Function.comp_apply, isExclusive, (same record).2.1, isExclusive]
  have stays : ∀ d, batch.taskIs .fulfilled d = true → next.taskIs .fulfilled d = true := by
    intro d reached
    simp only [Batch.taskIs, beq_iff_eq] at reached ⊢
    obtain ⟨record,there,task⟩ := Option.map_eq_some_iff.mp reached
    rw [records, List.getElem?_map, there]
    exact congrArg some ((same record).2.2.2.2 task)
  constructor
  · rw [records, List.map_map, ← inv.calls]
    exact List.map_congr_left fun record _ => (same record).1
  · rw [sameKinds, inv.kinds]
  · intro record mem
    rw [records] at mem
    obtain ⟨old,among,rfl⟩ := List.mem_map.mp mem
    exact (settled_ok settled (inv.each old among)).1
  · intro i record here begun d awaited
    rw [records, List.getElem?_map] at here
    obtain ⟨old,there,rfl⟩ := Option.map_eq_some_iff.mp here
    rw [sameKinds] at awaited
    exact stays d (inv.waits i old there ((same old).2.2.2.1.mp begun) d awaited)
  · rw [records, List.filterMap_map, emitted]
    have messages : Record.toolResultMessage ∘ settleSteering state = Record.toolResultMessage := by
      funext record
      exact (same record).2.2.1
    rw [messages]
    exact inv.emitted
  · rw [checked, records]
    constructor
    · intro check
      contradiction
    · intro found
      obtain ⟨record,mem,task⟩ := found
      obtain ⟨old,among,rfl⟩ := List.mem_map.mp mem
      exact absurd task (settled_ok settled (inv.each old among)).2
  · intro check
    rw [checked] at check
    contradiction
  · exact told
  · exact kept

theorem step_keeps {batch next : Batch M} (inv : Invariant concurrencyOf toolCalls batch) {event : Event M}
    (taken : step settings batch event = some next) : Invariant concurrencyOf toolCalls next := by
  cases event with
  | start index =>
    obtain ⟨record,here,rest⟩ := Option.bind_eq_some_iff.mp taken
    split at rest
    · rename_i enabled
      obtain ⟨waiting,ready⟩ := enabled
      have awaited : ∀ d ∈ waitsFor batch.kinds index, batch.taskIs .fulfilled d = true := List.all_eq_true.mp ready
      have silent := ((inv.each record (List.mem_of_getElem? here)).untouched waiting).2
      split at rest
      · cases rest
        refine silent_set inv here ⟨rfl,rfl,fun _ => rfl,?_,fun _ => .inr awaited⟩ (by simp [waiting]) (by simp) rfl
        constructor <;> simp [Begun, silent]
      · cases rest
        refine silent_set inv here ⟨rfl,rfl,?_,?_,fun _ => .inr awaited⟩ (by simp [waiting]) (by simp) rfl
        · intro done
          exact absurd (waiting.symm.trans done) (by simp)
        · constructor <;> simp [Begun, silent]
    · contradiction
  | refuse index =>
    obtain ⟨record,here,rest⟩ := Option.bind_eq_some_iff.mp taken
    split at rest
    · rename_i enabled
      cases rest
      have ok := inv.each record (List.mem_of_getElem? here)
      refine silent_set inv here ⟨rfl,rfl,?_,?_,fun begun => .inl begun⟩ (by simp [enabled.1]) (by simp) rfl
      · intro done
        exact absurd (enabled.1.symm.trans done) (by simp)
      · exact ⟨by simp,by simp,by simp,by simp,ok.own⟩
    · contradiction
  | finish index outcome now =>
    obtain ⟨record,here,rest⟩ := Option.bind_eq_some_iff.mp taken
    split at rest
    · rename_i running
      cases rest
      exact finish_keeps inv here running outcome now
    · contradiction
  | crash index =>
    obtain ⟨record,here,rest⟩ := Option.bind_eq_some_iff.mp taken
    split at rest
    · rename_i running
      cases rest
      have ok := inv.each record (List.mem_of_getElem? here)
      refine silent_set inv here ⟨rfl,rfl,?_,?_,fun begun => .inl begun⟩ (by simp [running]) (by simp) rfl
      · intro done
        exact absurd (running.symm.trans done) (by simp)
      · exact ⟨by simp,by simp,by simp,by simp,ok.own⟩
    · contradiction
  | steering messages =>
    rw [step] at taken
    split at taken
    · rename_i checking
      have untold : batch.steeringMessages = none := by
        have quiet := inv.quiet checking
        rw [inv.told] at quiet
        simpa using quiet
      cases taken
      refine settle_keeps inv (rfl : TaskState.fulfilled.isSettled = true) rfl rfl rfl ?_ ?_
      · have quiet := inv.quiet checking
        cases messages <;> simp [quiet, untold]
      · have kept := inv.kept
        rw [untold] at kept
        cases messages <;> simp [kept, untold]
    · contradiction
  | steeringFails =>
    rw [step] at taken
    split at taken
    · cases taken
      exact settle_keeps inv (rfl : TaskState.rejected.isSettled = true) rfl rfl rfl inv.told inv.kept
    · contradiction

theorem run_keeps {batch next : Batch M} (inv : Invariant concurrencyOf toolCalls batch) {events : List (Event M)}
    (ran : runBatch settings batch events = some next) : Invariant concurrencyOf toolCalls next := by
  induction events generalizing batch with
  | nil =>
    cases ran
    exact inv
  | cons event events ih =>
    obtain ⟨middle,taken,rest⟩ := Option.bind_eq_some_iff.mp ran
    exact ih (step_keeps inv taken) rest

/- Order -/

def Executing (record : Record) : Prop := record.task = .running ∨ record.task = .steering

theorem executing_begun {record : Record} (ok : RecordOk record) (executing : Executing record) : Begun record := by
  rcases executing with running | checking
  · exact .inl (ok.runs running).1
  · exact .inl (ok.checks checking)

theorem kind_at (batch : Batch M) {record : Record} (here : batch.records[i]? = some record) :
    batch.kinds.getD i false = isExclusive record := by
  simp [Batch.kinds, List.getD_eq_getElem?_getD, here]

theorem fulfilled_begun (inv : Invariant concurrencyOf toolCalls batch) (i : Nat)
    (fulfilled : batch.taskIs .fulfilled i = true) : ∃ record, batch.records[i]? = some record ∧ Begun record := by
  simp only [Batch.taskIs, beq_iff_eq] at fulfilled
  obtain ⟨record,here,task⟩ := Option.map_eq_some_iff.mp fulfilled
  exact ⟨record,here,(inv.each record (List.mem_of_getElem? here)).fulfills task⟩

theorem begun_waits (inv : Invariant concurrencyOf toolCalls batch) (i : Nat)
    (begun : ∃ record, batch.records[i]? = some record ∧ Begun record) :
    ∀ d ∈ waitsFor batch.kinds i, batch.taskIs .fulfilled d = true := by
  obtain ⟨record,here,begun⟩ := begun
  exact inv.waits i record here begun

theorem place_kept (inv : Invariant concurrencyOf toolCalls batch) {i j : Nat} {record other : Record}
    (here : batch.records[i]? = some record) (there : batch.records[j]? = some other) (begun : Begun record) (before : j < i)
    (either : record.concurrency = .exclusive ∨ other.concurrency = .exclusive) : other.task = .fulfilled := by
  have done := @exclusive_keeps_place batch.kinds (fun i => ∃ record, batch.records[i]? = some record ∧ Begun record)
    (fun i => batch.taskIs .fulfilled i = true) (fulfilled_begun inv) (begun_waits inv) i ⟨record,here,begun⟩ j before ?_
  · simpa [Batch.taskIs, there] using done
  · rw [kind_at batch here, kind_at batch there]
    simpa [isExclusive] using either

/- Progress -/

/-- The first task that is not settled can be settled, or refused, or started. -/
theorem batch_goes_on (settings : Settings) (inv : Invariant concurrencyOf toolCalls batch)
    (unsettled : batch.allSettled = false) : ∃ event, (step settings batch event).isSome = true := by
  classical
  have pending : ∃ i : Nat, ∃ record : Record, batch.records[i]? = some record ∧ record.task.isSettled = false := by
    obtain ⟨record,mem,task⟩ := List.all_eq_false.mp unsettled
    obtain ⟨i,here⟩ := List.mem_iff_getElem?.mp mem
    exact ⟨i,record,here,by simpa using task⟩
  obtain ⟨record,here,task⟩ := Nat.find_spec pending
  have inside := (List.getElem?_eq_some_iff.mp here).1
  have mem := List.mem_of_getElem? here
  cases state : record.task with
  | fulfilled =>
    rw [state] at task
    contradiction
  | rejected =>
    rw [state] at task
    contradiction
  | running => exact ⟨.crash (Nat.find pending),by simp [step, here, state]⟩
  | steering =>
    have checking := inv.checking.mpr ⟨record,mem,state⟩
    exact ⟨.steering [],by simp [step, checking]⟩
  | waiting =>
    by_cases refused : (waitsFor batch.kinds (Nat.find pending)).any (batch.taskIs .rejected) = true
    · exact ⟨.refuse (Nat.find pending),by simp [step, here, state, refused]⟩
    · have ready : (waitsFor batch.kinds (Nat.find pending)).all (batch.taskIs .fulfilled) = true := by
        refine List.all_eq_true.mpr ?_
        intro d awaited
        have before := waitsFor_earlier awaited
        have reached : d < batch.records.length := by omega
        have there := List.getElem?_eq_getElem reached
        have settled : batch.records[d].task.isSettled = true := by
          by_contra open'
          exact Nat.find_min pending before ⟨_,there,by simpa using open'⟩
        have kept : batch.records[d].task ≠ .rejected := by
          intro rejected
          exact refused (List.any_eq_true.mpr ⟨d,awaited,by simp [Batch.taskIs, there, rejected]⟩)
        have done : batch.records[d].task = .fulfilled := by
          cases reachedState : batch.records[d].task with
          | fulfilled => rfl
          | rejected => exact absurd reachedState kept
          | waiting | running | steering =>
            rw [reachedState] at settled
            contradiction
        simp [Batch.taskIs, there, done]
      refine ⟨.start (Nat.find pending),?_⟩
      cases interrupted : batch.triggered <;> simp [step, here, state, ready, interrupted]

/- Results -/

theorem sweep_perm (f : α → Option β) (fallback : α → β) (xs : List α) :
    (xs.filterMap f ++ (xs.filter fun x => (f x).isNone).map fallback).Perm (xs.map fun x => (f x).getD (fallback x)) := by
  induction xs with
  | nil => exact List.Perm.refl _
  | cons x xs ih =>
    cases given : f x with
    | some y => simpa [given] using ih
    | none =>
      simp only [List.filterMap_cons, given, List.filter_cons, Option.isNone_none, if_true, List.map_cons,
        Option.getD_none]
      exact List.perm_middle.trans (List.Perm.cons _ ih)

theorem result_per_call (inv : Invariant concurrencyOf toolCalls batch) (now : Int) :
    ∃ given, List.Forall₂ (fun toolCall message => message.toolCallId = toolCall.id) toolCalls given ∧
      (batch.result now).toolResults.Perm given := by
  refine ⟨batch.records.map fun record =>
    record.toolResultMessage.getD (toolResultMessage record createSkippedToolResult now),?_,?_⟩
  · rw [← inv.calls, List.forall₂_map_left_iff, List.forall₂_map_right_iff, List.forall₂_same]
    intro record mem
    cases given : record.toolResultMessage with
    | none => rfl
    | some message => exact (inv.each record mem).own message given
  · have swept := sweep_perm Record.toolResultMessage (toolResultMessage · createSkippedToolResult now) batch.records
    exact (List.Perm.append_right _ inv.emitted.symm).trans swept

theorem executed_invariant {events : List (Event M)} {executed : ExecutionResult M}
    (ran : executeToolCalls settings concurrencyOf toolCalls events now = some executed) :
    ∃ batch, Invariant concurrencyOf toolCalls batch ∧ executed = batch.result now := by
  rw [executeToolCalls] at ran
  split at ran
  · contradiction
  · rename_i batch run
    split at ran
    · cases ran
      exact ⟨batch,run_keeps initial_invariant run,rfl⟩
    · contradiction

/-- What a batch hands over is what it obtained. -/
theorem executed_obtained {events : List (Event M)} {executed : ExecutionResult M}
    (ran : executeToolCalls settings concurrencyOf toolCalls events now = some executed) :
    executed.obtained = executed.steeringMessages.getD [] := by
  obtain ⟨batch,inv,rfl⟩ := executed_invariant ran
  exact inv.kept

theorem own_ids {given : List ToolResultMessage}
    (own : List.Forall₂ (fun (toolCall : ToolCall) (message : ToolResultMessage) => message.toolCallId = toolCall.id)
      toolCalls given) : given.map ToolResultMessage.toolCallId = toolCalls.map ToolCall.id := by
  induction own with
  | nil => rfl
  | cons here _ ih => rw [List.map_cons, List.map_cons, here, ih]

theorem executed_ids {events : List (Event M)} {executed : ExecutionResult M}
    (ran : executeToolCalls settings concurrencyOf toolCalls events now = some executed) :
    (executed.toolResults.map ToolResultMessage.toolCallId).Perm (toolCalls.map ToolCall.id) := by
  obtain ⟨batch,inv,rfl⟩ := executed_invariant ran
  obtain ⟨given,own,same⟩ := result_per_call inv now
  rw [← own_ids own]
  exact same.map _

end run

section claims
variable {settings : Settings} {concurrencyOf : ToolCall → Concurrency} {toolCalls : List ToolCall}
  {events : List (Event M)} {batch : Batch M}

/-- Whatever the tools and the steering callback do: an exclusive call runs alone, no call starts
before the exclusive calls in front of it are done, the batch can always go on until every task
is settled, and then there is one result for each call. -/
theorem batch_keeps_order (ran : runBatch settings (initial concurrencyOf toolCalls) events = some batch) :
    (∀ (i j : Nat) (record other : Record), batch.records[i]? = some record → batch.records[j]? = some other → i ≠ j →
      record.concurrency = .exclusive → Executing record → ¬ Executing other) ∧
    (∀ (i j : Nat) (record other : Record), batch.records[i]? = some record → batch.records[j]? = some other → j < i →
      other.concurrency = .exclusive → record.started = true → other.task = .fulfilled) ∧
    (batch.allSettled = false → ∃ event, (step settings batch event).isSome = true) ∧
    (batch.allSettled = true → ∀ now,
      executeToolCalls settings concurrencyOf toolCalls events now = some (batch.result now) ∧
      ∃ given, List.Forall₂ (fun toolCall message => message.toolCallId = toolCall.id) toolCalls given ∧
        (batch.result now).toolResults.Perm given) := by
  have inv : Invariant concurrencyOf toolCalls batch := run_keeps initial_invariant ran
  refine ⟨?_,?_,batch_goes_on settings inv,?_⟩
  · intro i j record other here there apart exclusive executing together
    have begun := executing_begun (inv.each record (List.mem_of_getElem? here)) executing
    have begunOther := executing_begun (inv.each other (List.mem_of_getElem? there)) together
    rcases Nat.lt_or_gt_of_ne apart with before | after
    · have done := place_kept inv there here begunOther before (.inr exclusive)
      rcases executing with state | state <;> rw [state] at done <;> contradiction
    · have done := place_kept inv here there begun after (.inl exclusive)
      rcases together with state | state <;> rw [state] at done <;> contradiction
  · intro i j record other here there before exclusive started
    exact place_kept inv here there (.inl started) before (.inr exclusive)
  · intro settled now
    exact ⟨by simp [executeToolCalls, ran, settled],result_per_call inv now⟩

end claims

def plainCall (id : String) : ToolCall := ⟨js id,js "bash",.obj [],none,none,none⟩
def soleOutcome : Outcome := ⟨[textContent (js "done")],false⟩
def interruptedCalls : List ToolCall := [plainCall "a", plainCall "b", plainCall "c"]

/- `b` is exclusive; a message that comes after `a` leaves `b` and `c` without a run. -/
def interruptedKinds (call : ToolCall) : Concurrency := if call.id = js "b" then .exclusive else .shared
def interruptedEvents : List (Event Nat) :=
  [.start 0, .finish 0 soleOutcome 1, .steering [7], .start 1, .start 2]

theorem batch_keeps_order_interrupted : ∃ batch : Batch Nat,
    runBatch ⟨true,true⟩ (initial interruptedKinds interruptedCalls) interruptedEvents = some batch ∧
      ∃ given, List.Forall₂ (fun (toolCall : ToolCall) (message : ToolResultMessage) =>
        message.toolCallId = toolCall.id) interruptedCalls given ∧ (batch.result 2).toolResults.Perm given := by
  have ran : ∃ batch : Batch Nat,
      runBatch ⟨true,true⟩ (initial interruptedKinds interruptedCalls) interruptedEvents = some batch ∧
        batch.allSettled = true := ⟨_,rfl,by decide⟩
  obtain ⟨batch,ran,settled⟩ := ran
  exact ⟨batch,ran,((batch_keeps_order ran).2.2.2 settled 2).2⟩

end ToolBatch
