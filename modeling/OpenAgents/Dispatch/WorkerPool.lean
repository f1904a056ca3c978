import OpenAgents.Dispatch.Events

/- The dispatcher and its handlers as one machine. A step is what runs between two awaits;
   which coroutine goes on, when a handler returns or raises, and whether reaping its slot
   raises are choices of the run. A graceful `stop()` is not modelled; `restart` is the
   process gone and started again. -/
namespace Dispatch

structure SlotPool where
  slotUids : List Nat
  available : List Nat
  checkedOut : List Nat
  deriving DecidableEq, Repr

def SlotPool.new (slotUids : List Nat) : SlotPool := ⟨slotUids,slotUids,[]⟩

/- `none` waits; a pool without slots hands out no slot at once. -/
def SlotPool.acquire (pool : SlotPool) : Option (Option Nat × SlotPool) :=
  if pool.slotUids.isEmpty then some (none, pool)
  else
    match pool.available with
    | [] => none
    | slotUid :: rest => some (some slotUid, { pool with available := rest, checkedOut := slotUid :: pool.checkedOut })

def SlotPool.release (pool : SlotPool) (slotUid : Option Nat) : Except PyString SlotPool :=
  match slotUid with
  | none => if pool.slotUids.isEmpty then .ok pool else .error "slot UID was not acquired".toList
  | some slotUid =>
      if slotUid ∈ pool.checkedOut then
        .ok { pool with checkedOut := pool.checkedOut.erase slotUid, available := pool.available ++ [slotUid] }
      else .error "slot UID was not acquired".toList

/-- Running as root the handlers share slots, otherwise a semaphore of `max_concurrency`. -/
inductive Limiter where
  | slotPool (pool : SlotPool)
  | semaphore (maxConcurrency value : Nat)
  deriving DecidableEq, Repr

def Limiter.fresh : Limiter → Limiter
  | .slotPool pool => .slotPool (.new pool.slotUids)
  | .semaphore maxConcurrency _ => .semaphore maxConcurrency maxConcurrency

def Limiter.acquire : Limiter → Option (Option Nat × Limiter)
  | .slotPool pool => (pool.acquire).map fun (slotUid, pool) => (slotUid, .slotPool pool)
  | .semaphore maxConcurrency value => if value = 0 then none else some (none, .semaphore maxConcurrency (value - 1))

def Limiter.release (limiter : Limiter) (slotUid : Option Nat) : Except PyString Limiter :=
  match limiter with
  | .slotPool pool => (pool.release slotUid).map .slotPool
  | .semaphore maxConcurrency value => .ok (.semaphore maxConcurrency (value + 1))

/-- Where `_run_event` is: before its slot, in the handler, in `_release`, over. -/
inductive Phase where
  | waiting
  | dispatching
  | releasing
  | ended
  deriving DecidableEq, Repr

/- `slotReturns` counts the returns of the slot, which the program does not. -/
structure Handler where
  deliveryId : PyString
  key : PyString
  slotUid : Option Nat
  phase : Phase
  slotReturns : Nat
  deriving DecidableEq, Repr

/-- The in-flight lock is held from `claimed` to the end of the pause. -/
inductive Dispatcher where
  | idle
  | claimed (row : EventRow)
  | pausing
  deriving DecidableEq, Repr

/-- The last three fields are kept for the reader of a run: the deliveries a handler was
    started for, those an operator put back, and those whose cancellation was requested while
    no handler of theirs had ended. -/
structure WorkerPool where
  db : Database
  limiter : Limiter
  inflight : List PyString
  dispatcher : Dispatcher
  handlers : List Handler
  cancelHooks : List PyString
  cancelled : List PyString
  started : List PyString
  retried : List PyString
  asked : List PyString
  deriving DecidableEq, Repr

def WorkerPool.start (db : Database) (limiter : Limiter) : WorkerPool :=
  ⟨resetStuckRunning db,limiter.fresh,[],.idle,[],[],[],[],[],[]⟩

inductive Outcome where
  | returned
  | raised (error : PyString)
  deriving DecidableEq, Repr

inductive Step where
  | record (deliveryId : PyString) (issueKey : Option PyString) (now : Nat) (state : EventState) (lastError : Option PyString)
  | claim
  | launch
  | resume
  | acquire (i : Nat)
  | arm (i : Nat)
  | disarm (i : Nat)
  | finish (i : Nat) (outcome : Outcome) (reapFails : Bool)
  | release (i : Nat)
  | cancel (deliveryId : PyString)
  | retry (deliveryId : PyString)
  | restart
  deriving DecidableEq, Repr

def discard (key : PyString) (keys : List PyString) : List PyString := keys.filter (· ≠ key)

def WorkerPool.setHandler (s : WorkerPool) (i : Nat) (h : Handler) : WorkerPool :=
  { s with handlers := s.handlers.set i h }

/- The two halves of `_claim_next_unique`: the claim in the table, then the look at the keys. -/
def WorkerPool.claim (s : WorkerPool) : WorkerPool :=
  match claimNextEvent s.db with
  | (none, _) => s
  | (some row, db) => { s with db, dispatcher := .claimed row }

def WorkerPool.launch (s : WorkerPool) (row : EventRow) : WorkerPool :=
  if row.key ∈ s.inflight then
    { s with db := requeueEvent s.db row.deliveryId [.running], dispatcher := .pausing }
  else
    { s with
      inflight := row.key :: s.inflight
      dispatcher := .idle
      handlers := s.handlers ++ [⟨row.deliveryId,row.key,none,.waiting,0⟩]
      started := row.deliveryId :: s.started }

def cancelledByOperator : PyString := "cancelled by operator".toList

/- `_dispatch_and_mark` and the exception branch of `_run_event`. -/
def WorkerPool.marked (s : WorkerPool) (deliveryId : PyString) (outcome : Outcome) : Database :=
  if deliveryId ∈ s.cancelled then markEvent s.db deliveryId .failed (some cancelledByOperator)
  else
    match outcome with
    | .returned => markEvent s.db deliveryId .done none
    | .raised error => markEvent s.db deliveryId .failed (some error)

/-- A slot that cannot be reaped is released all the same, and the exception then leaves the
    `finally` block before `_release`. Without a slot there is nothing to reap. -/
def WorkerPool.finish (s : WorkerPool) (i : Nat) (h : Handler) (outcome : Outcome) (reapFails : Bool) : WorkerPool :=
  let s := { s with
    db := s.marked h.deliveryId outcome
    cancelled := discard h.deliveryId s.cancelled
    cancelHooks := discard h.deliveryId s.cancelHooks }
  match s.limiter.release h.slotUid with
  | .error _ => s.setHandler i { h with phase := .ended }
  | .ok limiter =>
      let phase := if reapFails && h.slotUid.isSome then Phase.ended else Phase.releasing
      { s with limiter }.setHandler i { h with phase, slotReturns := h.slotReturns + 1 }

def WorkerPool.cancel (s : WorkerPool) (deliveryId : PyString) : WorkerPool :=
  { s with
    cancelled := deliveryId :: s.cancelled
    cancelHooks := discard deliveryId s.cancelHooks
    asked := if s.handlers.any fun h => h.deliveryId = deliveryId && h.phase = .ended then s.asked
      else deliveryId :: s.asked }

/- A hook that comes after the request is fired and not kept. -/
def WorkerPool.arm (s : WorkerPool) (deliveryId : PyString) : WorkerPool :=
  if deliveryId ∈ s.cancelled then s else { s with cancelHooks := deliveryId :: discard deliveryId s.cancelHooks }

/- A step that cannot be taken leaves the pool as it is. -/
def step (s : WorkerPool) : Step → WorkerPool
  | .record deliveryId issueKey now state lastError =>
      { s with db := recordEvent s.db deliveryId issueKey now state lastError }
  | .claim => if s.dispatcher = .idle then s.claim else s
  | .launch =>
      match s.dispatcher with
      | .claimed row => s.launch row
      | _ => s
  | .resume => if s.dispatcher = .pausing then { s with dispatcher := .idle } else s
  | .acquire i =>
      match s.handlers[i]? with
      | some h =>
          if h.phase = .waiting then
            match s.limiter.acquire with
            | some (slotUid, limiter) => { s with limiter }.setHandler i { h with phase := .dispatching, slotUid }
            | none => s
          else s
      | none => s
  | .arm i =>
      match s.handlers[i]? with
      | some h => if h.phase = .dispatching then s.arm h.deliveryId else s
      | none => s
  | .disarm i =>
      match s.handlers[i]? with
      | some h =>
          if h.phase = .dispatching then { s with cancelHooks := discard h.deliveryId s.cancelHooks } else s
      | none => s
  | .finish i outcome reapFails =>
      match s.handlers[i]? with
      | some h => if h.phase = .dispatching then s.finish i h outcome reapFails else s
      | none => s
  | .release i =>
      match s.handlers[i]? with
      | some h =>
          -- the key goes under the lock the dispatcher may be holding
          if h.phase = .releasing ∧ s.dispatcher = .idle then
            { s with inflight := discard h.key s.inflight }.setHandler i { h with phase := .ended }
          else s
      | none => s
  | .cancel deliveryId => s.cancel deliveryId
  | .retry deliveryId =>
      { s with
        db := requeueEvent s.db deliveryId inactiveEventStates
        retried := deliveryId :: s.retried }
  | .restart => { WorkerPool.start s.db s.limiter with started := s.started }

/- What each step does when it can be taken. -/

theorem claim_cases (s : WorkerPool) : step s .claim = s ∨ ∃ row, s.dispatcher = .idle ∧ oldest (queuedRows s.db) = some row ∧
    step s .claim = { s with
      db := updateRow s.db row.deliveryId fun row => { row with state := .running, attempts := row.attempts + 1 }
      dispatcher := .claimed { row with state := .running, attempts := row.attempts + 1 } } := by
  simp only [step]
  by_cases idle : s.dispatcher = .idle
  · rw [if_pos idle, WorkerPool.claim, claimNextEvent]
    cases found : oldest (queuedRows s.db) with
    | none => exact .inl rfl
    | some row => exact .inr ⟨row,idle,rfl,rfl⟩
  · rw [if_neg idle]
    exact .inl rfl

theorem launch_cases (s : WorkerPool) : step s .launch = s ∨ ∃ row, s.dispatcher = .claimed row ∧
    (row.key ∈ s.inflight ∧
        step s .launch = { s with db := requeueEvent s.db row.deliveryId [.running], dispatcher := .pausing } ∨
      row.key ∉ s.inflight ∧ step s .launch = { s with
        inflight := row.key :: s.inflight
        dispatcher := .idle
        handlers := s.handlers ++ [⟨row.deliveryId,row.key,none,.waiting,0⟩]
        started := row.deliveryId :: s.started }) := by
  simp only [step]
  cases at' : s.dispatcher with
  | idle => exact .inl rfl
  | pausing => exact .inl rfl
  | claimed row =>
    refine .inr ⟨row,rfl,?_⟩
    simp only [WorkerPool.launch]
    by_cases busy : row.key ∈ s.inflight
    · rw [if_pos busy]
      exact .inl ⟨busy,rfl⟩
    · rw [if_neg busy]
      exact .inr ⟨busy,rfl⟩

theorem resume_cases (s : WorkerPool) : step s .resume = s ∨ s.dispatcher = .pausing ∧ step s .resume = { s with dispatcher := .idle } := by
  simp only [step]
  by_cases pausing : s.dispatcher = .pausing
  · rw [if_pos pausing]
    exact .inr ⟨pausing,rfl⟩
  · rw [if_neg pausing]
    exact .inl rfl

theorem acquire_cases (s : WorkerPool) (i : Nat) : step s (.acquire i) = s ∨ ∃ h slotUid limiter,
    s.handlers[i]? = some h ∧ h.phase = .waiting ∧ s.limiter.acquire = some (slotUid, limiter) ∧
      step s (.acquire i) = { s with limiter }.setHandler i { h with phase := .dispatching, slotUid } := by
  simp only [step]
  cases at' : s.handlers[i]? with
  | none => exact .inl rfl
  | some h =>
    dsimp only
    by_cases waiting : h.phase = .waiting
    · rw [if_pos waiting]
      cases free : s.limiter.acquire with
      | none => exact .inl rfl
      | some got => exact .inr ⟨h,got.1,got.2,rfl,waiting,rfl,rfl⟩
    · rw [if_neg waiting]
      exact .inl rfl

theorem finish_cases (s : WorkerPool) (i : Nat) (outcome : Outcome) (reapFails : Bool) :
    step s (.finish i outcome reapFails) = s ∨ ∃ h, s.handlers[i]? = some h ∧ h.phase = .dispatching ∧
      step s (.finish i outcome reapFails) = s.finish i h outcome reapFails := by
  simp only [step]
  cases at' : s.handlers[i]? with
  | none => exact .inl rfl
  | some h =>
    dsimp only
    by_cases dispatching : h.phase = .dispatching
    · rw [if_pos dispatching]
      exact .inr ⟨h,rfl,dispatching,rfl⟩
    · rw [if_neg dispatching]
      exact .inl rfl

theorem release_cases (s : WorkerPool) (i : Nat) : step s (.release i) = s ∨ ∃ h, s.handlers[i]? = some h ∧
    h.phase = .releasing ∧
      step s (.release i) = { s with inflight := discard h.key s.inflight }.setHandler i { h with phase := .ended } := by
  simp only [step]
  cases at' : s.handlers[i]? with
  | none => exact .inl rfl
  | some h =>
    dsimp only
    by_cases free : h.phase = .releasing ∧ s.dispatcher = .idle
    · rw [if_pos free]
      exact .inr ⟨h,rfl,free.1,rfl⟩
    · rw [if_neg free]
      exact .inl rfl

/-- Arming and disarming only move hooks. -/
theorem arm_cases (s : WorkerPool) (i : Nat) : ∃ cancelHooks, step s (.arm i) = { s with cancelHooks } := by
  simp only [step, WorkerPool.arm]
  cases s.handlers[i]? with
  | none => exact ⟨s.cancelHooks,rfl⟩
  | some h =>
    dsimp only
    split
    · split
      · exact ⟨s.cancelHooks,rfl⟩
      · exact ⟨_,rfl⟩
    · exact ⟨s.cancelHooks,rfl⟩

theorem disarm_cases (s : WorkerPool) (i : Nat) : ∃ cancelHooks, step s (.disarm i) = { s with cancelHooks } := by
  simp only [step]
  cases s.handlers[i]? with
  | none => exact ⟨s.cancelHooks,rfl⟩
  | some h =>
    dsimp only
    split
    · exact ⟨_,rfl⟩
    · exact ⟨s.cancelHooks,rfl⟩

theorem marked_update (s : WorkerPool) (deliveryId : PyString) (outcome : Outcome) :
    ∃ state error, s.marked deliveryId outcome = markEvent s.db deliveryId state error := by
  unfold WorkerPool.marked
  split
  · exact ⟨_,_,rfl⟩
  · cases outcome with
    | returned => exact ⟨_,_,rfl⟩
    | raised error => exact ⟨_,_,rfl⟩

def run (s : WorkerPool) (steps : List Step) : WorkerPool := steps.foldl step s

end Dispatch
