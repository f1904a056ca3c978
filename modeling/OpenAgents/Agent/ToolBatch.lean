import OpenAgents.Conversation.Messages
import OpenAgents.Lib.ExclusiveBatch

/- Running the tool calls of one assistant message. A call's task waits for earlier tasks,
   runs its tool, emits one result and asks for steering messages; which task goes on next,
   and what the tools and the steering callback answer, is for the environment. -/
namespace ToolBatch
open JsText Conversation ExclusiveBatch

inductive Concurrency where
  | shared
  | exclusive
  deriving DecidableEq, Repr

/- `steering` is the wait for the steering check after the result is emitted. -/
inductive TaskState where
  | waiting
  | running
  | steering
  | fulfilled
  | rejected
  deriving DecidableEq, Repr

structure Record where
  toolCall : ToolCall
  concurrency : Concurrency
  task : TaskState
  started : Bool
  skipped : Bool
  toolResultMessage : Option ToolResultMessage
  deriving DecidableEq

/- `steeringCheck` is whether a check is under way; `obtained` is all that the callback has
   returned, which the source does not record. -/
structure Batch (M : Type) where
  records : List Record
  triggered : Bool
  steeringMessages : Option (List M)
  steeringCheck : Bool
  emittedToolResults : List ToolResultMessage
  obtained : List M
  deriving DecidableEq

structure Settings where
  shouldInterruptImmediately : Bool
  hasSteeringCallback : Bool
  deriving DecidableEq, Repr

/-- What the tool of a call, the checks and the hooks around it have come to. -/
structure Outcome where
  content : List ContentPart
  isError : Bool
  deriving DecidableEq

/- `crash` is an error outside the part of a task that turns errors into results. -/
inductive Event (M : Type) where
  | start (index : Nat)
  | refuse (index : Nat)
  | finish (index : Nat) (outcome : Outcome) (now : Int)
  | crash (index : Nat)
  | steering (messages : List M)
  | steeringFails

variable {M : Type}

def newRecord (concurrencyOf : ToolCall → Concurrency) (toolCall : ToolCall) : Record :=
  ⟨toolCall,concurrencyOf toolCall,.waiting,false,false,none⟩

def initial (concurrencyOf : ToolCall → Concurrency) (toolCalls : List ToolCall) : Batch M :=
  ⟨toolCalls.map (newRecord concurrencyOf),false,none,false,[],[]⟩

def isExclusive (record : Record) : Bool := record.concurrency == .exclusive

def Batch.kinds (batch : Batch M) : List Bool := batch.records.map isExclusive

def Batch.taskIs (batch : Batch M) (state : TaskState) (index : Nat) : Bool :=
  (batch.records[index]?.map Record.task) == some state

def Batch.setRecord (batch : Batch M) (index : Nat) (record : Record) : Batch M :=
  { batch with records := batch.records.set index record }

def textContent (text : JsString) : ContentPart := .text ⟨text,none⟩

def createSkippedToolResult : Outcome := ⟨[textContent (js "Skipped due to queued user message.")],true⟩

def toolResultMessage (record : Record) (outcome : Outcome) (now : Int) : ToolResultMessage :=
  ⟨record.toolCall.id,record.toolCall.name,outcome.content,outcome.isError,now⟩

/- A result is emitted once; then the task checks for steering messages, unless it need not. -/
def finishTask (settings : Settings) (batch : Batch M) (index : Nat) (record : Record) (outcome : Outcome) (now : Int) :
    Batch M :=
  let given := if batch.triggered then createSkippedToolResult else outcome
  let message := toolResultMessage record given now
  let checks := settings.shouldInterruptImmediately && settings.hasSteeringCallback && !batch.triggered
  let next := { record with
    skipped := record.skipped || batch.triggered
    toolResultMessage := some message
    task := if checks then .steering else .fulfilled }
  { batch.setRecord index next with
    emittedToolResults := batch.emittedToolResults ++ [message]
    steeringCheck := batch.steeringCheck || checks }

def settleSteering (state : TaskState) (record : Record) : Record :=
  if record.task = .steering then { record with task := state } else record

def step (settings : Settings) (batch : Batch M) : Event M → Option (Batch M)
  | .start index => do
      let record ← batch.records[index]?
      if record.task = .waiting ∧ (waitsFor batch.kinds index).all (batch.taskIs .fulfilled) then
        -- a task that starts after an interrupt leaves its result to the sweep
        if batch.triggered then batch.setRecord index { record with task := .fulfilled, skipped := true }
        else batch.setRecord index { record with task := .running, started := true }
      else none
  | .refuse index => do
      let record ← batch.records[index]?
      if record.task = .waiting ∧ (waitsFor batch.kinds index).any (batch.taskIs .rejected) then
        batch.setRecord index { record with task := .rejected }
      else none
  | .finish index outcome now => do
      let record ← batch.records[index]?
      if record.task = .running then finishTask settings batch index record outcome now else none
  | .crash index => do
      let record ← batch.records[index]?
      if record.task = .running then batch.setRecord index { record with task := .rejected } else none
  | .steering messages =>
      if batch.steeringCheck then
        some { batch with
          records := batch.records.map (settleSteering .fulfilled)
          steeringCheck := false
          triggered := batch.triggered || !messages.isEmpty
          steeringMessages := if messages.isEmpty then batch.steeringMessages else some messages
          obtained := batch.obtained ++ messages }
      else none
  | .steeringFails =>
      if batch.steeringCheck then
        some { batch with records := batch.records.map (settleSteering .rejected), steeringCheck := false }
      else none

def runBatch (settings : Settings) (batch : Batch M) (events : List (Event M)) : Option (Batch M) :=
  events.foldlM (step settings) batch

def TaskState.isSettled : TaskState → Bool
  | .fulfilled => true
  | .rejected => true
  | _ => false

def Batch.allSettled (batch : Batch M) : Bool := batch.records.all fun record => record.task.isSettled

structure ExecutionResult (M : Type) where
  toolResults : List ToolResultMessage
  steeringMessages : Option (List M)
  obtained : List M
  deriving DecidableEq

/- The sweep gives every call without a result a skipped one. -/
def Batch.result (batch : Batch M) (now : Int) : ExecutionResult M :=
  let missing := batch.records.filter fun record => record.toolResultMessage.isNone
  ⟨batch.emittedToolResults ++ missing.map (toolResultMessage · createSkippedToolResult now),batch.steeringMessages,
    batch.obtained⟩

/- The events are those of one batch; nothing is returned before all its tasks are settled. -/
def executeToolCalls (settings : Settings) (concurrencyOf : ToolCall → Concurrency) (toolCalls : List ToolCall)
    (events : List (Event M)) (now : Int) : Option (ExecutionResult M) :=
  match runBatch settings (initial concurrencyOf toolCalls) events with
  | none => none
  | some batch => if batch.allSettled then some (batch.result now) else none

end ToolBatch
