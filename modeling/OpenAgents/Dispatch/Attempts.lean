import OpenAgents.Dispatch.WorkerPool
import OpenAgents.Lib.Runs

/- Which event the dispatcher picks, and what the attempts counter counts. The counter goes up
   with the claim in the table, so a claim that is put back stays counted. -/
namespace Dispatch
open CheckedRuns

def claimNextUnique (db : Database) (inflight : List PyString) : Option EventRow × Database :=
  match claimNextEvent db with
  | (none, db) => (none, db)
  | (some row, db) =>
      if row.key ∈ inflight then (none, requeueEvent db row.deliveryId [.running])
      else (some row, db)

def claimedRow (row : EventRow) : EventRow := { row with state := .running, attempts := row.attempts + 1 }

def freeRows (db : Database) (inflight : List PyString) : List EventRow :=
  (queuedRows db).filter fun row => row.key ∉ inflight

/-- When some queued event's issue is free, the oldest such event is claimed. -/
def WorkConserving (db : Database) (inflight : List PyString) : Prop :=
  ∀ free, oldest (freeRows db inflight) = some free → (claimNextUnique db inflight).1 = some (claimedRow free)

/-- The claim and the look at the keys, one after the other, are `_claim_next_unique`. -/
theorem claim_unique_steps (s : WorkerPool) (idle : s.dispatcher = .idle) :
    (step (step s .claim) .launch).db = (claimNextUnique s.db s.inflight).2 ∧
      (step (step s .claim) .launch).handlers = s.handlers ++
        (claimNextUnique s.db s.inflight).1.toList.map fun row => ⟨row.deliveryId,row.key,none,.waiting,0⟩ := by
  unfold claimNextUnique
  simp only [step, if_pos idle, WorkerPool.claim, claimNextEvent]
  cases found : oldest (queuedRows s.db) with
  | none =>
    simp [idle]
  | some row =>
    simp only [WorkerPool.launch]
    split
    · simp
    · simp

theorem oldest_none {rows : List EventRow} (none' : oldest rows = none) : rows = [] := by
  cases rows with
  | nil => rfl
  | cons row rest =>
    unfold oldest at none'
    cases later : oldest rest with
    | none =>
      rw [later] at none'
      contradiction
    | some other =>
      rw [later] at none'
      dsimp only at none'
      split at none'
      · contradiction
      · contradiction

theorem oldest_least {rows : List EventRow} {head : EventRow} (found : oldest rows = some head) :
    ∀ row ∈ rows, head.receivedAt ≤ row.receivedAt := by
  induction rows generalizing head with
  | nil => contradiction
  | cons first rows ih =>
    intro row mem
    unfold oldest at found
    cases later : oldest rows with
    | none =>
      rw [later] at found
      cases found
      rw [oldest_none later] at mem
      exact Nat.le_of_eq (congrArg EventRow.receivedAt (List.mem_singleton.mp mem).symm)
    | some other =>
      rw [later] at found
      dsimp only at found
      have least := ih later
      split at found
      · rename_i earlier
        cases found
        rcases List.mem_cons.mp mem with rfl | mem
        · omega
        · exact least row mem
      · rename_i earlier
        cases found
        rcases List.mem_cons.mp mem with rfl | mem
        · omega
        · have bound := least row mem
          omega

/-- Leaving out other rows keeps the oldest one in its place. -/
theorem oldest_filter {rows : List EventRow} {head : EventRow} (keep : EventRow → Bool) (found : oldest rows = some head)
    (kept : keep head = true) : oldest (rows.filter keep) = some head := by
  induction rows generalizing head with
  | nil => contradiction
  | cons first rows ih =>
    unfold oldest at found
    cases later : oldest rows with
    | none =>
      rw [later] at found
      cases found
      rw [List.filter_cons, if_pos kept, oldest_none later]
      rfl
    | some other =>
      rw [later] at found
      dsimp only at found
      split at found
      · rename_i earlier
        cases found
        rw [List.filter_cons]
        split
        · rw [oldest, ih later kept]
          dsimp only
          rw [if_pos earlier]
        · exact ih later kept
      · rename_i earlier
        cases found
        rw [List.filter_cons, if_pos kept, oldest]
        cases rest : oldest (rows.filter keep) with
        | none => rfl
        | some next =>
          have least := oldest_least later next (List.mem_of_mem_filter (oldest_mem rest))
          dsimp only
          rw [if_neg (by omega)]

/-- The head of the queue blocks what is behind it. -/
theorem work_conserving_iff (db : Database) (inflight : List PyString) : WorkConserving db inflight ↔
    ∀ head, oldest (queuedRows db) = some head → head.key ∈ inflight → ∀ row ∈ queuedRows db, row.key ∈ inflight := by
  constructor
  · intro conserving head found busy row mem
    by_contra free
    have here : row ∈ freeRows db inflight := List.mem_filter.mpr ⟨mem,decide_eq_true free⟩
    cases first : oldest (freeRows db inflight) with
    | none =>
      rw [oldest_none first] at here
      exact List.not_mem_nil here
    | some other =>
      have claimed := conserving other first
      have same : EventRow.key { head with state := .running, attempts := head.attempts + 1 } = head.key := rfl
      simp only [claimNextUnique, claimNextEvent, found, same, if_pos busy] at claimed
      contradiction
  · intro unblocked free first
    have queued := List.mem_filter.mp (oldest_mem first)
    cases found : oldest (queuedRows db) with
    | none =>
      rw [oldest_none found] at queued
      exact absurd queued.1 List.not_mem_nil
    | some head =>
      have open' : head.key ∉ inflight := fun busy =>
        of_decide_eq_true queued.2 (unblocked head found busy free queued.1)
      have same : EventRow.key { head with state := .running, attempts := head.attempts + 1 } = head.key := rfl
      have kept := oldest_filter (fun row => decide (row.key ∉ inflight)) found (decide_eq_true open')
      rw [freeRows, kept] at first
      cases first
      simp only [claimNextUnique, claimNextEvent, found, same, if_neg open']
      rfl

def attemptsOf (db : Database) (deliveryId : PyString) : Nat := ((rowOf db deliveryId).map EventRow.attempts).getD 0

def underWay (s : WorkerPool) (deliveryId : PyString) : Nat :=
  match s.dispatcher with
  | .claimed row => if row.deliveryId = deliveryId then 1 else 0
  | _ => 0

/- The handlers started for an event, and the one about to start. -/
def handled (s : WorkerPool) (deliveryId : PyString) : Nat := s.started.count deliveryId + underWay s deliveryId

/-- The delivery whose claim a step gives up: put back because its issue is busy, or lost with the process. -/
def wasted (s : WorkerPool) : Step → Option PyString
  | .launch =>
      match s.dispatcher with
      | .claimed row => if row.key ∈ s.inflight then some row.deliveryId else none
      | _ => none
  | .restart =>
      match s.dispatcher with
      | .claimed row => some row.deliveryId
      | _ => none
  | _ => none

def wastedIn (deliveryId : PyString) : WorkerPool → List Step → Nat
  | _, [] => 0
  | s, c :: rest => (if wasted s c = some deliveryId then 1 else 0) + wastedIn deliveryId (step s c) rest

theorem attempts_update (db : Database) (deliveryId other : PyString) {change : EventRow → EventRow} (keeps : KeepsKey change)
    (same : ∀ row, (change row).attempts = row.attempts) : attemptsOf (updateRow db deliveryId change) other = attemptsOf db other := by
  unfold attemptsOf
  rw [rowOf_update db deliveryId other keeps]
  split
  · cases rowOf db other with
    | none => rfl
    | some row => exact same row
  · rfl

theorem attempts_mark (db : Database) (deliveryId other : PyString) (state : EventState) (error : Option PyString) :
    attemptsOf (markEvent db deliveryId state error) other = attemptsOf db other :=
  attempts_update db deliveryId other (mark_keeps state error) fun _ => rfl

theorem attempts_requeue (db : Database) (deliveryId other : PyString) (fromStates : List EventState) :
    attemptsOf (requeueEvent db deliveryId fromStates) other = attemptsOf db other := by
  refine attempts_update db deliveryId other (requeue_keeps fromStates) fun row => ?_
  split <;> rfl

theorem attempts_record (db : Database) (deliveryId other : PyString) (issueKey : Option PyString) (now : Nat)
    (state : EventState) (lastError : Option PyString) :
    attemptsOf (recordEvent db deliveryId issueKey now state lastError) other = attemptsOf db other := by
  unfold attemptsOf
  rw [rowOf_record]
  split
  · rename_i new
    rw [new.2]
    rfl
  · rfl

theorem attempts_reset (db : Database) (deliveryId : PyString) : attemptsOf (resetStuckRunning db) deliveryId = attemptsOf db deliveryId := by
  unfold attemptsOf
  induction db with
  | nil => rfl
  | cons row db ih =>
    have first : resetStuckRunning (row :: db) =
        (if row.state = .running then { row with state := .queued } else row) :: resetStuckRunning db := rfl
    rw [first, rowOf_cons, rowOf_cons]
    have id : (if row.state = .running then { row with state := .queued } else row).deliveryId = row.deliveryId := by
      split <;> rfl
    have attempts : (if row.state = .running then { row with state := .queued } else row).attempts = row.attempts := by
      split <;> rfl
    rw [id]
    by_cases here : row.deliveryId = deliveryId
    · rw [if_pos here, if_pos here]
      exact attempts
    · rw [if_neg here, if_neg here]
      exact ih

theorem handled_same {s next : WorkerPool} (started : next.started = s.started) (dispatcher : next.dispatcher = s.dispatcher)
    (deliveryId : PyString) : handled next deliveryId = handled s deliveryId := by
  unfold handled underWay
  rw [started, dispatcher]

theorem finish_frame (s : WorkerPool) (i : Nat) (h : Handler) (outcome : Outcome) (reapFails : Bool) :
    (s.finish i h outcome reapFails).db = s.marked h.deliveryId outcome ∧
      (s.finish i h outcome reapFails).started = s.started ∧ (s.finish i h outcome reapFails).dispatcher = s.dispatcher := by
  unfold WorkerPool.finish
  dsimp only
  split
  · exact ⟨rfl,rfl,rfl⟩
  · exact ⟨rfl,rfl,rfl⟩

theorem ids_step (s : WorkerPool) (c : Step) (ids : (s.db.map EventRow.deliveryId).Nodup) :
    ((step s c).db.map EventRow.deliveryId).Nodup := by
  cases c with
  | record id issueKey now state lastError => exact ids_record ids id issueKey now state lastError
  | claim =>
    rcases claim_cases s with same | ⟨row,-,-,claim⟩
    · rwa [same]
    · rw [claim]
      dsimp only
      rwa [ids_update s.db row.deliveryId claim_keeps]
  | launch =>
    rcases launch_cases s with same | ⟨row,-,⟨-,launch⟩ | ⟨-,launch⟩⟩
    · rwa [same]
    · rw [launch]
      dsimp only [requeueEvent]
      rwa [ids_update s.db row.deliveryId (requeue_keeps _)]
    · rwa [launch]
  | resume =>
    rcases resume_cases s with same | ⟨-,resumed⟩
    · rwa [same]
    · rwa [resumed]
  | acquire i =>
    rcases acquire_cases s i with same | ⟨h,slotUid,limiter,-,-,-,acquired⟩
    · rwa [same]
    · rwa [acquired]
  | arm i =>
    obtain ⟨cancelHooks,armed⟩ := arm_cases s i
    rwa [armed]
  | disarm i =>
    obtain ⟨cancelHooks,disarmed⟩ := disarm_cases s i
    rwa [disarmed]
  | finish i outcome reapFails =>
    rcases finish_cases s i outcome reapFails with same | ⟨h,-,-,finished⟩
    · rwa [same]
    · obtain ⟨state,error,update⟩ := marked_update s h.deliveryId outcome
      rw [finished, (finish_frame s i h outcome reapFails).1, update, markEvent,
        ids_update s.db h.deliveryId (mark_keeps state error)]
      exact ids
  | release i =>
    rcases release_cases s i with same | ⟨h,-,-,released⟩
    · rwa [same]
    · rwa [released]
  | cancel id => exact ids
  | retry id =>
    dsimp only [step, requeueEvent]
    rwa [ids_update s.db id (requeue_keeps _)]
  | restart =>
    dsimp only [step, WorkerPool.start]
    rwa [ids_reset]

/-- What one step adds to a counter is a handler, or a claim given up. -/
theorem attempts_step (s : WorkerPool) (c : Step) (ids : (s.db.map EventRow.deliveryId).Nodup) (deliveryId : PyString) :
    attemptsOf (step s c).db deliveryId + handled s deliveryId = attemptsOf s.db deliveryId + handled (step s c) deliveryId +
      if wasted s c = some deliveryId then 1 else 0 := by
  cases c with
  | record id issueKey now state lastError =>
    have same := attempts_record s.db id deliveryId issueKey now state lastError
    simp only [step, wasted, same, handled, underWay]
    simp
  | claim =>
    rcases claim_cases s with same | ⟨row,idle,found,claim⟩
    · simp [same, wasted]
    · have known := rowOf_mem ids (List.mem_of_mem_filter (oldest_mem found))
      rw [claim]
      simp only [wasted, handled, underWay, idle, attemptsOf]
      rw [rowOf_update s.db _ _ claim_keeps]
      by_cases here : deliveryId = row.deliveryId
      · subst here
        rw [if_pos rfl, known]
        simp
        omega
      · have apart : ¬ row.deliveryId = deliveryId := fun back => here back.symm
        simp [here, apart]
  | launch =>
    cases at' : s.dispatcher with
    | idle => simp [step, wasted, at']
    | pausing => simp [step, wasted, at']
    | claimed row =>
      by_cases busy : row.key ∈ s.inflight
      · have same := attempts_requeue s.db row.deliveryId deliveryId [.running]
        simp only [step, wasted, at', WorkerPool.launch, if_pos busy, same, handled, underWay, Option.some.injEq]
        omega
      · simp only [step, wasted, at', WorkerPool.launch, if_neg busy, handled, underWay, List.count_cons, beq_iff_eq]
        simp
  | resume =>
    rcases resume_cases s with same | ⟨pausing,resumed⟩
    · simp [same, wasted]
    · simp [resumed, wasted, handled, underWay, pausing]
  | acquire i =>
    rcases acquire_cases s i with same | ⟨h,slotUid,limiter,-,-,-,acquired⟩
    · simp [same, wasted]
    · rw [acquired]
      simp [wasted, handled, underWay, WorkerPool.setHandler]
  | arm i =>
    obtain ⟨cancelHooks,armed⟩ := arm_cases s i
    simp [armed, wasted, handled, underWay]
  | disarm i =>
    obtain ⟨cancelHooks,disarmed⟩ := disarm_cases s i
    simp [disarmed, wasted, handled, underWay]
  | finish i outcome reapFails =>
    rcases finish_cases s i outcome reapFails with same | ⟨h,-,-,finished⟩
    · simp [same, wasted]
    · have kept := finish_frame s i h outcome reapFails
      have same : attemptsOf (s.marked h.deliveryId outcome) deliveryId = attemptsOf s.db deliveryId := by
        obtain ⟨state,error,update⟩ := marked_update s h.deliveryId outcome
        rw [update]
        exact attempts_mark s.db h.deliveryId deliveryId state error
      rw [finished, kept.1, same, handled_same kept.2.1 kept.2.2]
      simp [wasted]
  | release i =>
    rcases release_cases s i with same | ⟨h,-,-,released⟩
    · simp [same, wasted]
    · rw [released]
      simp [wasted, handled, underWay, WorkerPool.setHandler]
  | cancel id => simp [step, WorkerPool.cancel, wasted, handled, underWay]
  | retry id =>
    have same := attempts_requeue s.db id deliveryId inactiveEventStates
    simp only [step, wasted, same, handled, underWay]
    simp
  | restart =>
    have same := attempts_reset s.db deliveryId
    cases at' : s.dispatcher with
    | idle => simp [step, WorkerPool.start, wasted, at', same, handled, underWay]
    | pausing => simp [step, WorkerPool.start, wasted, at', same, handled, underWay]
    | claimed row =>
      simp only [step, WorkerPool.start, wasted, at', same, handled, underWay, Option.some.injEq]
      omega

theorem attempts_run (steps : List Step) (deliveryId : PyString) : ∀ {s : WorkerPool}, (s.db.map EventRow.deliveryId).Nodup →
    attemptsOf (run s steps).db deliveryId + handled s deliveryId =
      attemptsOf s.db deliveryId + handled (run s steps) deliveryId + wastedIn deliveryId s steps := by
  induction steps with
  | nil => exact fun _ => rfl
  | cons c rest ih =>
    intro s ids
    have first := attempts_step s c ids deliveryId
    have later := ih (ids_step s c ids)
    unfold wastedIn
    unfold run at later ⊢
    rw [List.foldl_cons]
    omega

theorem wastedIn_zero (steps : List Step) : ∀ {s : WorkerPool},
    (∀ deliveryId, wastedIn deliveryId s steps = 0) ↔ Every step (fun s c => wasted s c = none) s steps := by
  induction steps with
  | nil => exact fun {s} => ⟨fun _ => trivial,fun _ _ => rfl⟩
  | cons c rest ih =>
    intro s
    unfold Every
    rw [← ih]
    constructor
    · intro zero
      refine ⟨?_,fun deliveryId => ?_⟩
      · cases lost : wasted s c with
        | none => rfl
        | some deliveryId =>
          have here := zero deliveryId
          rw [wastedIn, if_pos lost] at here
          omega
      · have here := zero deliveryId
        rw [wastedIn] at here
        omega
    · rintro ⟨none',later⟩ deliveryId
      rw [wastedIn, later deliveryId, none', if_neg (by simp)]

/-- The dispatcher picks the oldest event of a free issue exactly when the head of the queue is free or
nothing is, and the counters tell the handlers started exactly in the runs that give up no claim. -/
theorem dispatcher_truthful_iff (db : Database) (inflight : List PyString) (limiter : Limiter) (steps : List Step) :
    (WorkConserving db inflight ↔
      ∀ head, oldest (queuedRows db) = some head → head.key ∈ inflight → ∀ row ∈ queuedRows db, row.key ∈ inflight) ∧
    ((db.map EventRow.deliveryId).Nodup →
      ((∀ deliveryId, attemptsOf (run (.start db limiter) steps).db deliveryId =
          attemptsOf db deliveryId + handled (run (.start db limiter) steps) deliveryId) ↔
        Every step (fun s c => wasted s c = none) (.start db limiter) steps)) := by
  refine ⟨work_conserving_iff db inflight,?_⟩
  intro ids
  have started : ((WorkerPool.start db limiter).db.map EventRow.deliveryId).Nodup := by
    dsimp only [WorkerPool.start]
    rwa [ids_reset]
  have accounted : ∀ deliveryId, attemptsOf (run (.start db limiter) steps).db deliveryId =
      attemptsOf db deliveryId + handled (run (.start db limiter) steps) deliveryId +
        wastedIn deliveryId (.start db limiter) steps := by
    intro deliveryId
    have total := attempts_run steps deliveryId started
    have none' : handled (WorkerPool.start db limiter) deliveryId = 0 := rfl
    have base : attemptsOf (WorkerPool.start db limiter).db deliveryId = attemptsOf db deliveryId :=
      attempts_reset db deliveryId
    omega
  rw [← wastedIn_zero]
  constructor
  · intro truthful deliveryId
    have total := accounted deliveryId
    have exact' := truthful deliveryId
    omega
  · intro zero deliveryId
    have total := accounted deliveryId
    have none' := zero deliveryId
    omega

def twoIssues : List Step :=
  [.record "a".toList (some "r#1".toList) 0 .queued none, .record "b".toList (some "r#1".toList) 1 .queued none,
    .record "c".toList (some "r#2".toList) 2 .queued none, .claim, .launch]

theorem dispatcher_truthful_once :
    attemptsOf (run (.start [] (.semaphore 2 2)) twoIssues).db "a".toList = 0 + 1 ∧ WorkConserving [] [] :=
  have exact' := dispatcher_truthful_iff [] [] (.semaphore 2 2) twoIssues
  ⟨(exact'.2 (by decide)).mpr (by decide) "a".toList,exact'.1.mpr (by decide)⟩

/-- While `a` runs, `b` of the same issue keeps `c` waiting and is counted for a handler it never had. -/
theorem head_blocks_free_issue : (¬ ∀ db inflight, WorkConserving db inflight) ∧
    ¬ ∀ (db : Database) (limiter : Limiter) (steps : List Step), (db.map EventRow.deliveryId).Nodup → ∀ deliveryId,
      attemptsOf (run (.start db limiter) steps).db deliveryId =
        attemptsOf db deliveryId + handled (run (.start db limiter) steps) deliveryId := by
  constructor
  · intro claim
    have found := claim (run (.start [] (.semaphore 2 2)) twoIssues).db ["r#1".toList]
      ⟨"c".toList,some "r#2".toList,2,.queued,0,none⟩ (by decide)
    exact absurd found (by decide)
  · intro claim
    have counted := claim [] (.semaphore 2 2) (twoIssues ++ [.claim, .launch]) (by decide) "b".toList
    exact absurd counted (by decide)

end Dispatch
