import Mathlib.Data.List.Induction
import Mathlib.Logic.Function.Basic

/- The stream of events between a producer and one consumer. The consumer's side is an async generator: its calls of
   `next` are queued, and it runs from one `await` to the next. A promise is what it is settled with, if it is. -/
namespace EventStreams

inductive IteratorResult (T : Type) where
  | value (event : T)
  | done
  deriving DecidableEq, Repr

/- Waiters are the numbers of their promises, which are kept beside the fields of the class. -/
structure EventStream (T R E : Type) where
  queue : List T
  waiting : List Nat
  done : Bool
  failed : Bool
  error : E
  finalResultPromise : Option (Except E R)
  promises : Nat → Option (Except E (IteratorResult T))

/-- Where the generator stands: before the loop or at a `yield`, at the promise of a waiter, at the event it is to
    yield, which is awaited too, or at its end. -/
inductive Generator (T : Type) where
  | suspended
  | awaiting (waiter : Nat)
  | yielding (event : T)
  | finished

/-- The stream and its consumer: `made` promises of waiters, the calls of `next` without an answer, and the answers. -/
structure World (T R E : Type) where
  stream : EventStream T R E
  made : Nat
  generator : Generator T
  requests : Nat
  answers : List (Except E (IteratorResult T))

/-- What can happen next: a call by the producer, a call by the consumer, or the generator goes on after an `await`. -/
inductive Action (T R E : Type) where
  | push (event : T)
  | ends (result : Option R)
  | fail (error : E)
  | next
  | microtask

section
variable {T R E : Type}

namespace EventStream

def settleFinal (stream : EventStream T R E) (outcome : Except E R) : EventStream T R E :=
  { stream with finalResultPromise := stream.finalResultPromise.or (some outcome) }

def settleWaiter (stream : EventStream T R E) (waiter : Nat) (outcome : Except E (IteratorResult T)) : EventStream T R E :=
  { stream with promises := Function.update stream.promises waiter ((stream.promises waiter).or (some outcome)) }

def deliver (stream : EventStream T R E) (event : T) : EventStream T R E :=
  match stream.waiting with
  | waiter :: rest => settleWaiter { stream with waiting := rest } waiter (.ok (.value event))
  | [] => { stream with queue := stream.queue ++ [event] }

def push (isComplete : T → Bool) (extractResult : T → R) (stream : EventStream T R E) (event : T) : EventStream T R E :=
  if stream.done then stream
  else if isComplete event then deliver (settleFinal { stream with done := true } (.ok (extractResult event))) event
  else deliver stream event

/- The loop that takes the waiters one by one. -/
def settleWaiting (outcome : Except E (IteratorResult T)) : List Nat → EventStream T R E → EventStream T R E
  | [], stream => stream
  | waiter :: rest, stream => settleWaiting outcome rest (settleWaiter { stream with waiting := rest } waiter outcome)

def endWaiting (stream : EventStream T R E) : EventStream T R E := settleWaiting (.ok .done) stream.waiting stream

def ends (stream : EventStream T R E) (result : Option R) : EventStream T R E :=
  let closed := { stream with done := true }
  endWaiting (match result with
    | some value => settleFinal closed (.ok value)
    | none => closed)

def fail (stream : EventStream T R E) (error : E) : EventStream T R E :=
  if stream.done then stream
  else
    let closed := settleFinal { stream with done := true, failed := true, error } (.error error)
    settleWaiting (.error error) closed.waiting closed

end EventStream

namespace World

/- The generator returns or throws: the first call gets the answer, the others hear of the end. -/
def finish (world : World T R E) (answer : Except E (IteratorResult T)) : World T R E :=
  { world with
    generator := .finished
    requests := 0
    answers := world.answers ++ answer :: List.replicate (world.requests - 1) (.ok .done) }

/- A turn of the loop, up to its first `await` or its end. -/
def turn (world : World T R E) : World T R E :=
  match world.stream.queue with
  | event :: rest => { world with stream := { world.stream with queue := rest }, generator := .yielding event }
  | [] =>
      if world.stream.failed then world.finish (.error world.stream.error)
      else if world.stream.done then world.finish (.ok .done)
      else
        { world with
          stream := { world.stream with waiting := world.stream.waiting ++ [world.made] }
          made := world.made + 1
          generator := .awaiting world.made }

def next (world : World T R E) : World T R E :=
  match world.generator with
  | .finished => { world with answers := world.answers ++ [.ok .done] }
  | .suspended => turn { world with requests := world.requests + 1 }
  | _ => { world with requests := world.requests + 1 }

/- At a `yield`, the generator goes on at once if there is another call. -/
def microtask (world : World T R E) : World T R E :=
  match world.generator with
  | .awaiting waiter =>
      match world.stream.promises waiter with
      | none => world
      | some (.ok (.value event)) => { world with generator := .yielding event }
      | some (.ok .done) => world.finish (.ok .done)
      | some (.error error) => world.finish (.error error)
  | .yielding event =>
      let answered := { world with requests := world.requests - 1, answers := world.answers ++ [.ok (.value event)] }
      if answered.requests > 0 then turn answered else { answered with generator := .suspended }
  | _ => world

end World

variable (isComplete : T → Bool) (extractResult : T → R) (undefined : E)

def start : World T R E := ⟨⟨[],[],false,false,undefined,none,fun _ => none⟩,0,.suspended,0,[]⟩

def step (world : World T R E) : Action T R E → World T R E
  | .push event => { world with stream := world.stream.push isComplete extractResult event }
  | .ends result => { world with stream := world.stream.ends result }
  | .fail error => { world with stream := world.stream.fail error }
  | .next => world.next
  | .microtask => world.microtask

def run (actions : List (Action T R E)) : World T R E := actions.foldl (step isComplete extractResult) (start undefined)

/-- The call that completes a stream. -/
inductive Closing (T E : Type) where
  | completed (event : T)
  | ended
  | failed (error : E)
  deriving DecidableEq

/-- What the producer has done: the events pushed up to the completion, the completing one included, and the call that
    completed. -/
structure History (T E : Type) where
  accepted : List T
  closing : Option (Closing T E)

def record (history : History T E) (action : Action T R E) : History T E :=
  if history.closing.isSome then history
  else
    match action with
    | .push event => ⟨history.accepted ++ [event],if isComplete event then some (.completed event) else none⟩
    | .ends _ => ⟨history.accepted,some .ended⟩
    | .fail error => ⟨history.accepted,some (.failed error)⟩
    | _ => history

def history (actions : List (Action T R E)) : History T E := actions.foldl (record isComplete) ⟨[],none⟩

/-- How the iteration ends. -/
def Closing.answer : Closing T E → Except E (IteratorResult T)
  | .failed error => .error error
  | _ => .ok .done

/-- The answer of the n-th call of `next`, if the producer has decided it: the accepted events in order, then the failure
    once or the end, then the end for ever. -/
def History.script (history : History T E) (n : Nat) : Option (Except E (IteratorResult T)) :=
  if h : n < history.accepted.length then some (.ok (.value history.accepted[n]))
  else history.closing.map fun closing => if n = history.accepted.length then closing.answer else .ok .done

/- The calls of `next`. -/
def calls : List (Action T R E) → Nat
  | [] => 0
  | .next :: rest => calls rest + 1
  | _ :: rest => calls rest

def values (events : List T) : List (Except E (IteratorResult T)) := events.map fun event => .ok (.value event)

/-- What the fields say of the past: the flags are those of the completion, promises not made yet are pending, and every
    call has an answer or waits. -/
structure Kept (history : History T E) (called : Nat) (world : World T R E) : Prop where
  done : world.stream.done = history.closing.isSome
  failed : ∀ error, history.closing = some (.failed error) ↔ world.stream.failed = true ∧ world.stream.error = error
  fresh : ∀ waiter, world.made ≤ waiter → world.stream.promises waiter = none
  answered : world.answers.length + world.requests = called

/-- What the generator waits for: an event still to be pushed, one that was handed to it, or the end it was told of. -/
inductive Held (history : History T E) (received : List T) (waiter : Nat) (stream : EventStream T R E) : Prop
  | pending (unsettled : stream.promises waiter = none) (one : stream.waiting = [waiter]) (empty : stream.queue = [])
      (all : received = history.accepted) (going : history.closing = none)
  | handed (event : T) (settled : stream.promises waiter = some (.ok (.value event))) (nobody : stream.waiting = [])
      (whole : received ++ event :: stream.queue = history.accepted)
  | told (closing : Closing T E) (settled : stream.promises waiter = some closing.answer) (nobody : stream.waiting = [])
      (empty : stream.queue = []) (all : received = history.accepted) (closed : history.closing = some closing)

/-- The events received, the one under way and the queue are the accepted events, wherever the generator stands; it
    waits on a pending promise only with nothing left to take and the stream open. -/
def Phase (history : History T E) (world : World T R E) : Prop :=
  match world.generator with
  | .suspended => world.requests = 0 ∧ world.stream.waiting = [] ∧
      ∃ received, world.answers = values received ∧ received ++ world.stream.queue = history.accepted
  | .yielding event => 0 < world.requests ∧ world.stream.waiting = [] ∧
      ∃ received, world.answers = values received ∧ received ++ event :: world.stream.queue = history.accepted
  | .awaiting waiter => 0 < world.requests ∧ waiter < world.made ∧
      ∃ received, world.answers = values received ∧ Held history received waiter world.stream
  | .finished => world.requests = 0 ∧ world.stream.waiting = [] ∧ world.stream.queue = [] ∧
      ∃ closing later, history.closing = some closing ∧
        world.answers = values history.accepted ++ closing.answer :: List.replicate later (.ok .done)

structure Sound (history : History T E) (called : Nat) (world : World T R E) : Prop extends Kept history called world where
  phase : Phase history world

variable {called waiter n : Nat} {world : World T R E}

theorem finish_sound {history : History T E} {closing : Closing T E} (kept : Kept history called world)
    (asked : 0 < world.requests) (nobody : world.stream.waiting = []) (nothing : world.stream.queue = [])
    (answers : world.answers = values history.accepted) (closed : history.closing = some closing) :
    Sound history called (world.finish closing.answer) where
  done := kept.done
  failed := kept.failed
  fresh := kept.fresh
  answered := by
    have before := kept.answered
    simp only [World.finish, List.length_append, List.length_cons, List.length_replicate]
    omega
  phase := ⟨rfl,nobody,nothing,closing,world.requests - 1,closed,by rw [World.finish, answers]⟩

/-- A turn of the loop takes the next event, ends the iteration of a completed stream, or waits. -/
theorem turn_sound {history : History T E} {received : List T} (kept : Kept history called world)
    (asked : 0 < world.requests) (nobody : world.stream.waiting = []) (answers : world.answers = values received)
    (whole : received ++ world.stream.queue = history.accepted) : Sound history called world.turn := by
  rw [World.turn]
  split
  next event rest taken =>
    refine ⟨⟨kept.done,kept.failed,kept.fresh,kept.answered⟩,asked,nobody,received,answers,?_⟩
    rw [← whole, taken]
  next empty =>
    rw [empty, List.append_nil] at whole
    subst whole
    split
    next failed =>
      have closed : history.closing = some (.failed world.stream.error) := (kept.failed world.stream.error).mpr ⟨failed,rfl⟩
      exact finish_sound kept asked nobody empty answers closed
    next unfailed =>
      split
      next done =>
        obtain ⟨closing,closed⟩ := Option.isSome_iff_exists.mp (kept.done ▸ done)
        have peaceful : closing.answer = .ok .done := by
          cases closing with
          | completed event => rfl
          | ended => rfl
          | failed error => exact absurd ((kept.failed error).mp closed).1 unfailed
        rw [← peaceful]
        exact finish_sound kept asked nobody empty answers closed
      next going =>
        refine ⟨⟨kept.done,kept.failed,fun waiter le => kept.fresh waiter (by simp only at le; omega),kept.answered⟩,asked,
          Nat.lt_succ_self _,_,answers,?_⟩
        have pending : world.stream.promises world.made = none := kept.fresh _ (Nat.le_refl _)
        have open' : history.closing = none := by
          rw [kept.done] at going
          simpa using going
        exact .pending pending (by rw [nobody, List.nil_append]) empty rfl open'

theorem next_sound {history : History T E} (sound : Sound history called world) : Sound history (called + 1) world.next := by
  obtain ⟨⟨done,failed,fresh,answered⟩,phase⟩ := sound
  obtain ⟨stream,made,generator,requests,answers⟩ := world
  cases generator with
  | suspended =>
    obtain ⟨none_asked,nobody,received,told,whole⟩ := phase
    exact turn_sound ⟨done,failed,fresh,by simp only at answered ⊢; omega⟩ (Nat.succ_pos _) nobody told whole
  | awaiting waiter =>
    obtain ⟨asked,later⟩ := phase
    exact ⟨⟨done,failed,fresh,by simp only [World.next] at answered ⊢; omega⟩,Nat.succ_pos _,later⟩
  | yielding event =>
    obtain ⟨asked,later⟩ := phase
    exact ⟨⟨done,failed,fresh,by simp only [World.next] at answered ⊢; omega⟩,Nat.succ_pos _,later⟩
  | finished =>
    obtain ⟨none_asked,nobody,nothing,closing,later,closed,told⟩ := phase
    refine ⟨⟨done,failed,fresh,?_⟩,none_asked,nobody,nothing,closing,later + 1,closed,?_⟩
    · simp only [World.next, List.length_append, List.length_singleton] at answered ⊢
      omega
    · simp only [World.next] at told ⊢
      rw [told, List.replicate_succ', List.append_assoc, List.cons_append]

theorem microtask_sound {history : History T E} (sound : Sound history called world) :
    Sound history called world.microtask := by
  have kept := sound.toKept
  have phase := sound.phase
  simp only [Phase] at phase
  rw [World.microtask]
  split
  next waiter stands =>
    rw [stands] at phase
    obtain ⟨asked,below,received,answers,held⟩ := phase
    cases held with
    | pending unsettled => rwa [unsettled]
    | handed event settled nobody whole =>
      rw [settled]
      exact ⟨⟨kept.done,kept.failed,kept.fresh,kept.answered⟩,asked,nobody,received,answers,whole⟩
    | told closing settled nobody empty all closed =>
      rw [settled]
      have ended := finish_sound kept asked nobody empty (all ▸ answers) closed
      cases closing <;> exact ended
  next event stands =>
    rw [stands] at phase
    obtain ⟨asked,nobody,received,told,whole⟩ := phase
    have one_more : world.answers ++ [.ok (.value event)] = values (received ++ [event]) := by
      rw [told, values, values, List.map_append, List.map_singleton]
    have still : (received ++ [event]) ++ world.stream.queue = history.accepted := by
      rw [← whole, List.append_assoc, List.singleton_append]
    have answered : (world.answers ++ [(.ok (.value event) : Except E (IteratorResult T))]).length + (world.requests - 1) = called := by
      have before := kept.answered
      rw [List.length_append, List.length_singleton]
      omega
    simp only
    split
    next more => exact turn_sound ⟨kept.done,kept.failed,kept.fresh,answered⟩ more nobody one_more still
    next last => exact ⟨⟨kept.done,kept.failed,kept.fresh,answered⟩,by simp only at last ⊢; omega,nobody,_,one_more,still⟩
  · exact sound

theorem settle_pending {stream : EventStream T R E} (outcome : Except E (IteratorResult T))
    (pending : stream.promises waiter = none) : (stream.settleWaiter waiter outcome).promises waiter = some outcome := by
  simp only [EventStream.settleWaiter, Function.update_self, pending, Option.none_or]

theorem settle_fresh {stream : EventStream T R E} {made waiter : Nat} (outcome : Except E (IteratorResult T)) (below : waiter < made)
    (fresh : ∀ other, made ≤ other → stream.promises other = none) :
    ∀ other, made ≤ other → (stream.settleWaiter waiter outcome).promises other = none := by
  intro other le
  have apart : other ≠ waiter := by omega
  simp only [EventStream.settleWaiter, Function.update_of_ne apart, fresh other le]

theorem deliver_queue {stream : EventStream T R E} (event : T) (nobody : stream.waiting = []) :
    stream.deliver event = { stream with queue := stream.queue ++ [event] } := by
  rw [EventStream.deliver, nobody]

theorem deliver_waiter {stream : EventStream T R E} (event : T) (one : stream.waiting = [waiter]) :
    stream.deliver event = EventStream.settleWaiter { stream with waiting := [] } waiter (.ok (.value event)) := by
  rw [EventStream.deliver, one]

/-- An event delivered while the stream is open reaches the waiter or the queue. -/
theorem deliver_phase {history : History T E} (world : World T R E)
    (fresh : ∀ waiter, world.made ≤ waiter → world.stream.promises waiter = none)
    (phase : Phase history world) (going : history.closing = none) (event : T) (closing : Option (Closing T E)) :
    (∀ waiter, world.made ≤ waiter → (world.stream.deliver event).promises waiter = none) ∧
      Phase ⟨history.accepted ++ [event],closing⟩ { world with stream := world.stream.deliver event } := by
  obtain ⟨stream,made,generator,requests,answers⟩ := world
  simp only at fresh
  cases generator with
  | suspended =>
    obtain ⟨none_asked,nobody,received,told,whole⟩ := phase
    simp only [deliver_queue event nobody]
    exact ⟨fresh,none_asked,nobody,received,told,by rw [← whole, List.append_assoc]⟩
  | yielding current =>
    obtain ⟨asked,nobody,received,told,whole⟩ := phase
    simp only [deliver_queue event nobody]
    exact ⟨fresh,asked,nobody,received,told,by rw [← whole, List.append_assoc, List.cons_append]⟩
  | finished =>
    obtain ⟨_,_,_,closing',_,closed,_⟩ := phase
    rw [going] at closed
    cases closed
  | awaiting waiter =>
    obtain ⟨asked,below,received,answered,held⟩ := phase
    simp only at held below
    cases held with
    | pending unsettled one empty all _ =>
      simp only [deliver_waiter event one]
      exact ⟨settle_fresh _ below fresh,asked,below,received,answered,.handed event (settle_pending _ unsettled) rfl
        (by rw [EventStream.settleWaiter, empty, all])⟩
    | handed earlier settled nobody whole =>
      simp only [deliver_queue event nobody]
      exact ⟨fresh,asked,below,received,answered,.handed earlier settled nobody
        (by rw [← whole, List.append_assoc, List.cons_append])⟩
    | told closing' _ _ _ _ closed =>
      rw [going] at closed
      cases closed

/-- A completion without an event reaches the waiter, if there is one. -/
theorem settleWaiting_phase {history : History T E} (world : World T R E)
    (fresh : ∀ waiter, world.made ≤ waiter → world.stream.promises waiter = none)
    (phase : Phase history world) (going : history.closing = none) (closing : Closing T E) :
    (∀ waiter, world.made ≤ waiter →
        (EventStream.settleWaiting closing.answer world.stream.waiting world.stream).promises waiter = none) ∧
      Phase ⟨history.accepted,some closing⟩
        { world with stream := EventStream.settleWaiting closing.answer world.stream.waiting world.stream } := by
  obtain ⟨stream,made,generator,requests,answers⟩ := world
  simp only at fresh
  cases generator with
  | suspended =>
    obtain ⟨none_asked,nobody,received⟩ := phase
    simp only at nobody
    simp only [nobody, EventStream.settleWaiting]
    exact ⟨fresh,none_asked,nobody,received⟩
  | yielding current =>
    obtain ⟨asked,nobody,received⟩ := phase
    simp only at nobody
    simp only [nobody, EventStream.settleWaiting]
    exact ⟨fresh,asked,nobody,received⟩
  | finished =>
    obtain ⟨_,_,_,closing',_,closed,_⟩ := phase
    rw [going] at closed
    cases closed
  | awaiting waiter =>
    obtain ⟨asked,below,received,answered,held⟩ := phase
    simp only at held below
    cases held with
    | pending unsettled one empty all _ =>
      simp only [one, EventStream.settleWaiting]
      exact ⟨settle_fresh _ below fresh,asked,below,received,answered,
        .told closing (settle_pending _ unsettled) rfl empty all rfl⟩
    | handed earlier settled nobody whole =>
      simp only [nobody, EventStream.settleWaiting]
      exact ⟨fresh,asked,below,received,answered,.handed earlier settled nobody whole⟩
    | told closing' _ _ _ _ closed =>
      rw [going] at closed
      cases closed

/-- Whoever waits, waits on an open stream with nothing in its queue. -/
theorem waiting_open {history : History T E} (phase : Phase history world) (someone : world.stream.waiting ≠ []) :
    world.stream.queue = [] ∧ history.closing = none := by
  obtain ⟨stream,made,generator,requests,answers⟩ := world
  cases generator with
  | suspended => exact absurd phase.2.1 someone
  | yielding event => exact absurd phase.2.1 someone
  | finished => exact absurd phase.2.1 someone
  | awaiting waiter =>
    obtain ⟨_,_,_,_,held⟩ := phase
    cases held with
    | pending _ _ empty _ going => exact ⟨empty,going⟩
    | handed _ _ nobody _ => exact absurd nobody someone
    | told _ _ nobody _ _ _ => exact absurd nobody someone

@[simp] theorem deliver_done (stream : EventStream T R E) (event : T) : (stream.deliver event).done = stream.done := by
  rw [EventStream.deliver]
  split <;> rfl

@[simp] theorem deliver_failed (stream : EventStream T R E) (event : T) : (stream.deliver event).failed = stream.failed := by
  rw [EventStream.deliver]
  split <;> rfl

@[simp] theorem deliver_result (stream : EventStream T R E) (event : T) :
    (stream.deliver event).finalResultPromise = stream.finalResultPromise := by
  rw [EventStream.deliver]
  split <;> rfl

/-- Settling the waiters changes nothing but them and their promises. -/
theorem settleWaiting_keeps (outcome : Except E (IteratorResult T)) (waiters : List Nat) (stream : EventStream T R E) :
    (EventStream.settleWaiting outcome waiters stream).done = stream.done ∧
      (EventStream.settleWaiting outcome waiters stream).failed = stream.failed ∧
      (EventStream.settleWaiting outcome waiters stream).error = stream.error ∧
      (EventStream.settleWaiting outcome waiters stream).finalResultPromise = stream.finalResultPromise := by
  induction waiters generalizing stream with
  | nil => exact ⟨rfl,rfl,rfl,rfl⟩
  | cons waiter rest ih => exact ih _

theorem record_closed {history : History T E} (action : Action T R E) (closed : history.closing.isSome = true) :
    record isComplete history action = history := by
  unfold record
  rw [if_pos closed]

/-- Where the generator stands depends on no flag of the stream. -/
theorem phase_same {history : History T E} {stream : EventStream T R E} (phase : Phase history world)
    (same : stream.queue = world.stream.queue ∧ stream.waiting = world.stream.waiting ∧ stream.promises = world.stream.promises) :
    Phase history { world with stream := stream } := by
  obtain ⟨before,made,generator,requests,answers⟩ := world
  obtain ⟨queue,waiting,promises⟩ := same
  cases generator with
  | suspended => simpa only [Phase, queue, waiting] using phase
  | yielding event => simpa only [Phase, queue, waiting] using phase
  | finished => simpa only [Phase, queue, waiting] using phase
  | awaiting waiter =>
    obtain ⟨asked,below,received,answered,held⟩ := phase
    refine ⟨asked,below,received,answered,?_⟩
    simp only at queue waiting promises held ⊢
    cases held with
    | pending unsettled one empty all going =>
      exact .pending (by rw [promises, unsettled]) (by rw [waiting, one]) (by rw [queue, empty]) all going
    | handed event settled nobody whole =>
      exact .handed event (by rw [promises, settled]) (by rw [waiting, nobody]) (by rw [queue, whole])
    | told closing settled nobody empty all closed =>
      exact .told closing (by rw [promises, settled]) (by rw [waiting, nobody]) (by rw [queue, empty]) all closed

theorem unfailed {history : History T E} (sound : Sound history called world) (going : history.closing = none) : world.stream.failed = false := by
  by_contra failed
  have closed := (sound.failed world.stream.error).mpr ⟨by simpa using failed,rfl⟩
  rw [going] at closed
  cases closed

theorem push_sound {history : History T E} (sound : Sound history called world) (event : T) :
    Sound (record isComplete history (.push event : Action T R E)) called
      { world with stream := world.stream.push isComplete extractResult event } := by
  by_cases closed : history.closing.isSome = true
  · have stays : world.stream.push isComplete extractResult event = world.stream := by
      rw [EventStream.push, if_pos (sound.done ▸ closed)]
    rw [record_closed isComplete _ closed, stays]
    exact sound
  · have going : history.closing = none := by simpa using closed
    have unfailed := unfailed sound going
    have undone : ¬ world.stream.done = true := by rwa [sound.done]
    rw [EventStream.push, record, if_neg closed, if_neg undone]
    split
    next completes =>
      obtain ⟨fresh,phase⟩ := deliver_phase
        { world with stream := EventStream.settleFinal { world.stream with done := true } (.ok (extractResult event)) } sound.fresh
        (phase_same sound.phase ⟨rfl,rfl,rfl⟩) going event (some (.completed event))
      exact ⟨⟨by simp [EventStream.settleFinal],fun error => by simp [EventStream.settleFinal, unfailed],fresh,
        sound.answered⟩,phase⟩
    next =>
      obtain ⟨fresh,phase⟩ := deliver_phase world sound.fresh sound.phase going event none
      exact ⟨⟨by simp [undone],fun error => by simp [unfailed],fresh,sound.answered⟩,phase⟩

/-- A stream completed without an event is sound as soon as its flags are set. -/
theorem complete_sound {history : History T E} (sound : Sound history called world) (going : history.closing = none)
    (closing : Closing T E) (closed : EventStream T R E)
    (same : closed.queue = world.stream.queue ∧ closed.waiting = world.stream.waiting ∧ closed.promises = world.stream.promises)
    (done : closed.done = true) (failed : ∀ error, closing = .failed error ↔ closed.failed = true ∧ closed.error = error) :
    Sound ⟨history.accepted,some closing⟩ called
      { world with stream := EventStream.settleWaiting closing.answer closed.waiting closed } := by
  obtain ⟨kept_done,kept_failed,kept_error,-⟩ := settleWaiting_keeps closing.answer closed.waiting closed
  obtain ⟨fresh,after⟩ := settleWaiting_phase { world with stream := closed } (by simpa only [same.2.2] using sound.fresh)
    (phase_same sound.phase same) going closing
  refine ⟨⟨kept_done.trans done,fun error => ?_,fresh,sound.answered⟩,after⟩
  rw [Option.some.injEq, failed, kept_failed, kept_error]

theorem ends_sound {history : History T E} (sound : Sound history called world) (result : Option R) :
    Sound (record isComplete history (.ends result)) called { world with stream := world.stream.ends result } := by
  obtain ⟨final,ends⟩ : ∃ final, world.stream.ends result =
      EventStream.settleWaiting (.ok .done) world.stream.waiting { world.stream with done := true, finalResultPromise := final } := by
    cases result with
    | none => exact ⟨_,rfl⟩
    | some value => exact ⟨_,rfl⟩
  rw [ends]
  by_cases closed : history.closing.isSome = true
  · have nobody : world.stream.waiting = [] := by
      by_contra someone
      rw [(waiting_open sound.phase someone).2] at closed
      cases closed
    rw [record_closed isComplete _ closed, nobody]
    exact ⟨⟨closed.symm,sound.failed,sound.fresh,sound.answered⟩,phase_same sound.phase ⟨rfl,rfl,rfl⟩⟩
  · have going : history.closing = none := by simpa using closed
    rw [record, if_neg closed]
    exact complete_sound sound going .ended { world.stream with done := true, finalResultPromise := final } ⟨rfl,rfl,rfl⟩ rfl
      fun error => by simp [unfailed sound going]

theorem fail_sound {history : History T E} (sound : Sound history called world) (error : E) :
    Sound (record isComplete history (.fail error : Action T R E)) called { world with stream := world.stream.fail error } := by
  by_cases closed : history.closing.isSome = true
  · rw [record_closed isComplete _ closed, EventStream.fail, if_pos (sound.done ▸ closed)]
    exact sound
  · have going : history.closing = none := by simpa using closed
    have undone : ¬ world.stream.done = true := by rwa [sound.done]
    rw [record, if_neg closed, EventStream.fail, if_neg undone]
    exact complete_sound sound going (.failed error) _ ⟨rfl,rfl,rfl⟩ rfl fun other => by simp [EventStream.settleFinal]

theorem calls_append (actions : List (Action T R E)) (action : Action T R E) :
    calls (actions ++ [action]) = calls actions + calls [action] := by
  induction actions with
  | nil => rw [List.nil_append, calls, Nat.zero_add]
  | cons first rest ih =>
    cases first with
    | next =>
      rw [List.cons_append, calls, ih, calls]
      omega
    | push | ends | fail | microtask => exact ih

/-- The consumer leaves the history as it is. -/
theorem record_consumer (history : History T E) :
    record isComplete history (.next : Action T R E) = history ∧ record isComplete history (.microtask : Action T R E) = history := by
  unfold record
  constructor <;> split <;> rfl

/-- Every interleaving of the producer's calls, the consumer's calls and the generator keeps the stream sound. -/
theorem run_sound (actions : List (Action T R E)) :
    Sound (history isComplete actions) (calls actions) (run isComplete extractResult undefined actions) := by
  induction actions using List.reverseRecOn with
  | nil => exact ⟨⟨rfl,fun error => by simp [history, run, start],fun _ _ => rfl,rfl⟩,rfl,rfl,[],rfl,rfl⟩
  | append_singleton actions action ih =>
    rw [history, run, List.foldl_append, List.foldl_append, calls_append]
    cases action with
    | push event => exact push_sound isComplete extractResult ih event
    | ends result => exact ends_sound isComplete ih result
    | fail error => exact fail_sound isComplete ih error
    | next =>
      rw [List.foldl_cons, List.foldl_nil]
      exact (record_consumer isComplete (history isComplete actions)).1 ▸ next_sound ih
    | microtask =>
      rw [List.foldl_cons, List.foldl_nil]
      exact (record_consumer isComplete (history isComplete actions)).2 ▸ microtask_sound ih

/-- The answers follow the script, whatever it says of calls that have none yet. -/
theorem sound_script {history : History T E} (sound : Sound history called world) {answer : Except E (IteratorResult T)}
    (told : world.answers[n]? = some answer) : history.script n = some answer := by
  have early : ∀ received : List T, received <+: history.accepted → (values received)[n]? = some answer → history.script n = some answer := by
    rintro received ⟨rest,whole⟩ answers
    rw [values, List.getElem?_map, Option.map_eq_some_iff] at answers
    obtain ⟨event,at',rfl⟩ := answers
    obtain ⟨lt,rfl⟩ := List.getElem?_eq_some_iff.mp at'
    have within : n < history.accepted.length := by
      rw [← whole, List.length_append]
      omega
    rw [History.script, dif_pos within]
    simp only [← whole, List.getElem_append_left lt]
  have phase := sound.phase
  obtain ⟨stream,made,generator,requests,answers⟩ := world
  cases generator with
  | suspended =>
    obtain ⟨_,_,received,answers,whole⟩ := phase
    exact early received ⟨_,whole⟩ (answers ▸ told)
  | yielding event =>
    obtain ⟨_,_,received,answers,whole⟩ := phase
    exact early received ⟨_,whole⟩ (answers ▸ told)
  | awaiting waiter =>
    obtain ⟨_,_,received,answers,held⟩ := phase
    cases held with
    | pending _ _ _ all _ => exact early received ⟨[],by rw [List.append_nil, all]⟩ (answers ▸ told)
    | handed _ _ _ whole => exact early received ⟨_,whole⟩ (answers ▸ told)
    | told _ _ _ _ all _ => exact early received ⟨[],by rw [List.append_nil, all]⟩ (answers ▸ told)
  | finished =>
    obtain ⟨_,_,_,closing,later,closed,answers⟩ := phase
    have size : (values history.accepted : List (Except E (IteratorResult T))).length = history.accepted.length := by
      rw [values, List.length_map]
    have told : (values history.accepted ++ closing.answer :: List.replicate later (.ok .done))[n]? = some answer := answers ▸ told
    by_cases within : n < history.accepted.length
    · rw [List.getElem?_append_left (by omega)] at told
      exact early _ List.prefix_rfl told
    · rw [List.getElem?_append_right (by omega), size, List.getElem?_cons] at told
      rw [History.script, dif_neg within, closed, Option.map_some]
      by_cases first : n = history.accepted.length
      · rw [if_pos (by omega)] at told
        rwa [if_pos first]
      · rw [if_neg (by omega)] at told
        rw [if_neg first, (List.mem_replicate.mp (List.mem_of_getElem? told)).2]

/-- How many microtasks the generator goes on for, at most, if nothing else happens. -/
def ahead (world : World T R E) : Nat :=
  match world.generator with
  | .awaiting waiter => if (world.stream.promises waiter).isSome then world.stream.queue.length + 2 else 0
  | .yielding _ => world.stream.queue.length + 1
  | _ => 0

theorem turn_ahead (world : World T R E) (fresh : world.stream.promises world.made = none) : ahead world.turn ≤ world.stream.queue.length := by
  rw [World.turn]
  split
  next event rest taken => simp [ahead, taken]
  next =>
    split
    · exact Nat.zero_le _
    · split
      · exact Nat.zero_le _
      · simp [ahead, fresh]

theorem microtask_ahead {history : History T E} (sound : Sound history called world) :
    ahead world.microtask ≤ ahead world - 1 := by
  rw [World.microtask]
  split
  next waiter stands =>
    split
    next unsettled => simp [ahead, stands, unsettled]
    next event settled => simp [ahead, stands, settled]
    next => exact Nat.zero_le _
    next => exact Nat.zero_le _
  next event stands =>
    simp only
    split
    · have bound := turn_ahead { world with requests := world.requests - 1, answers := world.answers ++ [.ok (.value event)] }
        (sound.fresh _ (Nat.le_refl _))
      simpa [ahead, stands] using bound
    · exact Nat.zero_le _
  next no_waiter no_event =>
    cases stands : world.generator with
    | awaiting waiter => exact absurd stands (no_waiter waiter)
    | yielding event => exact absurd stands (no_event event)
    | suspended => simp only [ahead, stands, Nat.zero_sub, Nat.le_refl]
    | finished => simp only [ahead, stands, Nat.zero_sub, Nat.le_refl]

/-- When the generator stands still, every call has its answer, or the producer has not decided it. -/
theorem quiet_script {history : History T E} (sound : Sound history called world) (quiet : ahead world = 0)
    (call : n < called) : world.answers[n]? = history.script n := by
  have answered := sound.answered
  by_cases told : n < world.answers.length
  · have answer := List.getElem?_eq_getElem told
    rw [answer, sound_script sound answer]
  · rw [List.getElem?_eq_none (by omega)]
    have phase := sound.phase
    simp only [Phase] at phase
    split at phase
    next => omega
    next stands => simp [ahead, stands] at quiet
    next waiter stands =>
      obtain ⟨_,_,received,answers,held⟩ := phase
      cases held with
      | pending _ _ _ all going =>
        have size : world.answers.length = history.accepted.length := by rw [answers, all, values, List.length_map]
        rw [History.script, dif_neg (by omega), going, Option.map_none]
      | handed _ settled _ _ => simp [ahead, stands, settled] at quiet
      | told _ settled _ _ _ _ => simp [ahead, stands, settled] at quiet
    next => omega

theorem idle_history (actions : List (Action T R E)) (more : Nat) :
    history isComplete (actions ++ List.replicate more .microtask) = history isComplete actions ∧
      calls (actions ++ List.replicate more .microtask) = calls actions := by
  induction more with
  | zero => rw [List.replicate_zero, List.append_nil]; exact ⟨rfl,rfl⟩
  | succ more ih =>
    rw [List.replicate_succ', ← List.append_assoc, calls_append, ih.2]
    refine ⟨?_,rfl⟩
    rw [history, List.foldl_append, ← history, ih.1]
    exact (record_consumer (R := R) isComplete _).2

theorem idle_ahead (actions : List (Action T R E)) (more : Nat) :
    ahead (run isComplete extractResult undefined (actions ++ List.replicate more .microtask)) ≤
      ahead (run isComplete extractResult undefined actions) - more := by
  induction more with
  | zero => rw [List.replicate_zero, List.append_nil]; exact Nat.le_refl _
  | succ more ih =>
    have step' := microtask_ahead (run_sound isComplete extractResult undefined (actions ++ List.replicate more .microtask))
    rw [List.replicate_succ', ← List.append_assoc, run, List.foldl_append, ← run]
    exact Nat.le_trans step' (by omega)

def endResult : Action T R E → Option R
  | .ends result => result
  | _ => none

/-- What the result promise is settled with: the result extracted from the completing event, the error of the failure, or
    the first result given to `end` after a completion without an event. -/
def History.result (history : History T E) (actions : List (Action T R E)) : Option (Except E R) :=
  match history.closing with
  | none => none
  | some (.completed event) => some (.ok (extractResult event))
  | some .ended => (actions.findSome? endResult).map .ok
  | some (.failed error) => some (.error error)

theorem result_same (past : History T E) (actions : List (Action T R E)) {action : Action T R E} (nothing : endResult action = none) :
    past.result extractResult (actions ++ [action]) = past.result extractResult actions := by
  simp only [History.result, List.findSome?_append, List.findSome?_singleton, nothing, Option.or_none]

theorem push_result (stream : EventStream T R E) (event : T) :
    (stream.push isComplete extractResult event).finalResultPromise =
      if stream.done ∨ ¬ isComplete event then stream.finalResultPromise
      else stream.finalResultPromise.or (some (.ok (extractResult event))) := by
  rw [EventStream.push]
  by_cases done : stream.done = true
  · simp [done]
  · by_cases completes : isComplete event = true
    · simp [done, completes, EventStream.settleFinal]
    · simp [done, completes]

theorem ends_result (stream : EventStream T R E) (result : Option R) :
    (stream.ends result).finalResultPromise = stream.finalResultPromise.or (result.map .ok) := by
  simp only [EventStream.ends, EventStream.endWaiting, settleWaiting_keeps]
  cases result with
  | none => rw [Option.map_none, Option.or_none]
  | some value => rfl

theorem fail_result (stream : EventStream T R E) (error : E) :
    (stream.fail error).finalResultPromise =
      if stream.done then stream.finalResultPromise else stream.finalResultPromise.or (some (.error error)) := by
  rw [EventStream.fail]
  split
  · rfl
  · simp only [settleWaiting_keeps, EventStream.settleFinal]

theorem turn_result (world : World T R E) : world.turn.stream.finalResultPromise = world.stream.finalResultPromise := by
  rw [World.turn]
  split
  · rfl
  · split
    · rfl
    · split <;> rfl

theorem next_result (world : World T R E) : world.next.stream.finalResultPromise = world.stream.finalResultPromise := by
  rw [World.next]
  split
  · rfl
  · exact turn_result _
  · rfl

theorem microtask_result (world : World T R E) : world.microtask.stream.finalResultPromise = world.stream.finalResultPromise := by
  rw [World.microtask]
  split
  · split <;> rfl
  · simp only
    split
    · exact turn_result _
    · rfl
  · rfl

/-- No call that was refused settles the result. -/
theorem run_result (actions : List (Action T R E)) :
    ((history isComplete actions).closing = none → actions.findSome? endResult = none) ∧
      (run isComplete extractResult undefined actions).stream.finalResultPromise =
        (history isComplete actions).result extractResult actions := by
  induction actions using List.reverseRecOn with
  | nil => exact ⟨fun _ => rfl,rfl⟩
  | append_singleton actions action ih =>
    have done := (run_sound isComplete extractResult undefined actions).done
    rw [history, run, List.foldl_append, List.foldl_append, List.foldl_cons, List.foldl_nil, List.foldl_cons, List.foldl_nil,
      ← run, ← history, List.findSome?_append]
    generalize history isComplete actions = past at ih done ⊢
    generalize run isComplete extractResult undefined actions = world at ih done ⊢
    obtain ⟨none_given,settled⟩ := ih
    cases closing : past.closing with
    | none =>
      rw [closing] at done
      simp only [History.result, closing] at settled
      have unended := none_given closing
      have open' : ¬ past.closing.isSome = true := by simp [closing]
      cases action with
      | push event =>
        rw [record, if_neg open', step, push_result, settled, done]
        by_cases completes : isComplete event = true
        · simp [completes, History.result]
        · simp [completes, unended, endResult, History.result]
      | ends result =>
        rw [record, if_neg open', step, ends_result, settled]
        simp [History.result, endResult, unended]
      | fail error =>
        rw [record, if_neg open', step, fail_result, settled, done]
        simp [History.result]
      | next =>
        rw [(record_consumer isComplete past).1, step, next_result, settled, unended]
        simp [closing, History.result, endResult]
      | microtask =>
        rw [(record_consumer isComplete past).2, step, microtask_result, settled, unended]
        simp [closing, History.result, endResult]
    | some how =>
      have closed : past.closing.isSome = true := by rw [closing]; rfl
      rw [record_closed isComplete action closed]
      refine ⟨fun open' => ?_,?_⟩
      · rw [closing] at open'
        cases open'
      · rw [closed] at done
        cases action with
        | push event => rw [step, push_result, if_pos (.inl done), settled, result_same extractResult past actions rfl]
        | fail error => rw [step, fail_result, if_pos done, settled, result_same extractResult past actions rfl]
        | next => rw [step, next_result, settled, result_same extractResult past actions rfl]
        | microtask => rw [step, microtask_result, settled, result_same extractResult past actions rfl]
        | ends result =>
          rw [step, ends_result, settled]
          cases how with
          | completed event => simp only [History.result, closing, Option.some_or]
          | failed error => simp only [History.result, closing, Option.some_or]
          | ended =>
            simp only [History.result, closing, List.findSome?_append, List.findSome?_singleton, endResult]
            cases actions.findSome? endResult <;> rfl

/-- The consumer of an event stream gets what the producer decided: no waiter while events are queued, each call of
    `next` answered by the script, in order and as soon as the generator has gone on, and the result promise settled
    once, as the completion says. -/
structure Delivers (actions : List (Action T R E)) : Prop where
  apart : (run isComplete extractResult undefined actions).stream.queue = [] ∨
    (run isComplete extractResult undefined actions).stream.waiting = []
  inOrder : (run isComplete extractResult undefined actions).answers.length ≤ calls actions ∧ ∀ n answer,
    (run isComplete extractResult undefined actions).answers[n]? = some answer → (history isComplete actions).script n = some answer
  inTime : ∃ enough, ∀ more ≥ enough, ∀ n < calls actions,
    (run isComplete extractResult undefined (actions ++ List.replicate more .microtask)).answers[n]? = (history isComplete actions).script n
  settled : (run isComplete extractResult undefined actions).stream.finalResultPromise =
    (history isComplete actions).result extractResult actions
  once : ∀ outcome later, (run isComplete extractResult undefined actions).stream.finalResultPromise = some outcome →
    (run isComplete extractResult undefined (actions ++ later)).stream.finalResultPromise = some outcome

theorem step_once {outcome : Except E R} (action : Action T R E) (settled : world.stream.finalResultPromise = some outcome) :
    (step isComplete extractResult world action).stream.finalResultPromise = some outcome := by
  cases action with
  | push event => rw [step, push_result, settled, Option.some_or, ite_self]
  | ends result => rw [step, ends_result, settled, Option.some_or]
  | fail error => rw [step, fail_result, settled, Option.some_or, ite_self]
  | next => rw [step, next_result, settled]
  | microtask => rw [step, microtask_result, settled]

theorem run_delivers (actions : List (Action T R E)) : Delivers isComplete extractResult undefined actions where
  apart := by
    by_contra both
    rw [not_or] at both
    exact both.1 (waiting_open (run_sound isComplete extractResult undefined actions).phase both.2).1
  inOrder := by
    have sound := run_sound isComplete extractResult undefined actions
    refine ⟨?_,fun n answer told => sound_script sound told⟩
    rw [← sound.answered]
    exact Nat.le_add_right _ _
  inTime := by
    refine ⟨ahead (run isComplete extractResult undefined actions),fun more enough n call => ?_⟩
    have bound := idle_ahead isComplete extractResult undefined actions more
    obtain ⟨same,called⟩ := idle_history isComplete actions more
    rw [← called] at call
    rw [← same]
    exact quiet_script (run_sound isComplete extractResult undefined _) (by omega) call
  settled := (run_result isComplete extractResult undefined actions).2
  once := by
    intro outcome later settled
    rw [run, List.foldl_append, ← run]
    generalize run isComplete extractResult undefined actions = world at settled ⊢
    induction later generalizing world with
    | nil => exact settled
    | cons action rest ih => exact ih _ (step_once isComplete extractResult action settled)

end

end EventStreams
