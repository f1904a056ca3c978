import OpenAgents.Agent.ResponseStream
import OpenAgents.Agent.ToolBatch

/- The agent loop: inject messages, stream a response, run its tools, until neither tools nor
   messages are left. Of the events sent out only the ends of turns and of the run are kept,
   each with the two lists as they stand there. -/
namespace AgentLoop
open JsText Conversation ToolBatch

variable {C : Type}

structure LoopConfig extends StreamConfig where
  batch : Settings
  concurrencyOf : ToolCall → Concurrency
  hasFollowUpCallback : Bool

/-- What the stream, the tools and the callbacks answer, should the loop ask them at this visit. -/
structure Answers (C : Type) where
  stream : StreamScript
  tools : List (ToolBatch.Event (AgentMessage C))
  steering : List (AgentMessage C)
  followUp : List (AgentMessage C)
  now : Int

/- `ended` is the exit after the outer loop, `returned` the one after an error or abort, `stuck`
   a tool batch that the answers do not bring to its end. -/
inductive Phase where
  | looping
  | ended
  | returned
  | failed
  | stuck
  deriving DecidableEq, Repr

structure EndEvent (C : Type) where
  messages : List (Entry C)
  newMessages : List (Entry C)
  deriving DecidableEq

/- `obtained` is all the callbacks have returned, `interrupted` whether the last model call was
   broken off to be made again; the source records neither. -/
structure LoopState (C : Type) where
  messages : List (Entry C)
  newMessages : List (Entry C)
  pendingMessages : List (AgentMessage C)
  hasMoreToolCalls : Bool
  harmonyRetryAttempt : Nat
  phase : Phase
  ends : List (EndEvent C)
  obtained : List (AgentMessage C)
  interrupted : Bool
  deriving DecidableEq

inductive AbortReason where
  | aborted
  | error
  | skipped
  deriving DecidableEq, Repr

def abortText : AbortReason → JsString
  | .aborted => js "Tool execution was aborted"
  | .error => js "Tool execution failed due to an error"
  | .skipped => js "Tool call was not executed because the assistant ended its turn"

def createAbortedToolResult (reason : AbortReason) (errorMessage : Option JsString) (now : Int) (toolCall : ToolCall) :
    ToolResultMessage :=
  let text :=
    if truthy errorMessage then abortText reason ++ js ": " ++ errorMessage.getD [] else abortText reason ++ js "."
  ⟨toolCall.id,toolCall.name,[textContent text],true,now⟩

def LoopState.push (s : LoopState C) (entries : List (Entry C)) : LoopState C :=
  { s with messages := s.messages ++ entries, newMessages := s.newMessages ++ entries }

def LoopState.mark (s : LoopState C) : LoopState C := { s with ends := s.ends ++ [⟨s.messages,s.newMessages⟩] }

def LoopState.inject (s : LoopState C) : LoopState C :=
  { s.push (s.pendingMessages.map .injected) with pendingMessages := [] }

def pollSteering (config : LoopConfig) (answers : Answers C) : List (AgentMessage C) :=
  if config.batch.hasSteeringCallback then answers.steering else []

def pollFollowUp (config : LoopConfig) (answers : Answers C) : List (AgentMessage C) :=
  if config.hasFollowUpCallback then answers.followUp else []

/- The end of a turn: steering messages found while the tools ran, else the callback's. -/
def endTurn (config : LoopConfig) (answers : Answers C) (s : LoopState C) (found : Option (List (AgentMessage C))) :
    LoopState C :=
  let s := s.mark
  match found with
  | some messages => { s with pendingMessages := messages }
  | none => { s with pendingMessages := pollSteering config answers, obtained := s.obtained ++ pollSteering config answers }

/- A response has arrived and is in `newMessages`. -/
def answerTurn (config : LoopConfig) (answers : Answers C) (s : LoopState C) (message : Response) : LoopState C :=
  let toolCalls := message.toolCalls
  if message.stopReason = .error ∨ message.stopReason = .aborted then
    let reason : AbortReason := if message.stopReason = .aborted then .aborted else .error
    let results := toolCalls.map (createAbortedToolResult reason message.errorMessage answers.now)
    { (s.push (results.map .result)).mark.mark with phase := .returned }
  else
    let runnableStop := message.stopReason = .toolUse ∨ message.stopReason = .stop
    let hasMoreToolCalls := decide runnableStop && !toolCalls.isEmpty
    let s := { s with hasMoreToolCalls }
    if hasMoreToolCalls then
      match executeToolCalls config.batch config.concurrencyOf toolCalls answers.tools answers.now with
      | none => { s with phase := .stuck }
      | some executed =>
          let s := { s with obtained := s.obtained ++ executed.obtained }
          endTurn config answers (s.push (executed.toolResults.map .result)) executed.steeringMessages
    else
      let results := toolCalls.map (createAbortedToolResult .skipped none answers.now)
      endTurn config answers (s.push (results.map .result)) none

/- One pass through the body of the inner loop. -/
def turn (config : LoopConfig) (s : LoopState C) (answers : Answers C) : LoopState C :=
  let s := { s.inject with interrupted := false }
  let streamed := streamAssistantResponse config.toStreamConfig s.messages answers.stream
  let s := { s with messages := streamed.messages }
  match streamed.answer with
  | .failed => { s with phase := .failed }
  | .interrupted =>
      if 2 ≤ s.harmonyRetryAttempt then { s with phase := .failed }
      else { s with harmonyRetryAttempt := s.harmonyRetryAttempt + 1, interrupted := true }
  | .message message =>
      answerTurn config answers
        { s with newMessages := s.newMessages ++ [.streamed message], harmonyRetryAttempt := 0 } message

def LoopState.goesOn (s : LoopState C) : Bool := s.hasMoreToolCalls || !s.pendingMessages.isEmpty

/- A visit of the inner loop's condition: another turn, or the outer loop's question for follow-ups. -/
def visit (config : LoopConfig) (s : LoopState C) (answers : Answers C) : LoopState C :=
  if s.phase ≠ .looping then s
  else if s.goesOn then turn config s answers
  else
    let followUpMessages := pollFollowUp config answers
    if followUpMessages.isEmpty then { s.mark with phase := .ended }
    else
      { s with
        pendingMessages := followUpMessages
        obtained := s.obtained ++ followUpMessages
        hasMoreToolCalls := true }

/- The state at the first visit, after the question for steering messages. -/
def startLoop (config : LoopConfig) (context prompts steering : List (AgentMessage C)) : LoopState C :=
  let pending := if config.batch.hasSteeringCallback then steering else []
  { messages := context.map .given ++ prompts.map .given
    newMessages := prompts.map .given
    pendingMessages := pending
    hasMoreToolCalls := true
    harmonyRetryAttempt := 0
    phase := .looping
    ends := []
    obtained := pending
    interrupted := false }

def runLoopBody (config : LoopConfig) (s : LoopState C) (answers : List (Answers C)) : LoopState C :=
  answers.foldl (visit config) s

def agentLoop (config : LoopConfig) (context prompts steering : List (AgentMessage C)) (answers : List (Answers C)) :
    LoopState C := runLoopBody config (startLoop config context prompts steering) answers

end AgentLoop
