import OpenAgents.Conversation.Messages

/- Streaming one assistant message into the context of the agent loop. -/
namespace AgentLoop
open JsText Conversation

structure Response extends AssistantMessage where
  errorMessage : Option JsString
  deriving DecidableEq

/- `C` are the messages of other roles, which the loop hands on unread. -/
inductive AgentMessage (C : Type) where
  | assistant (message : Response)
  | toolResult (message : ToolResultMessage)
  | other (message : C)
  deriving DecidableEq

/-- A message of the context with where it came from, which the source does not record. -/
inductive Entry (C : Type) where
  | given (message : AgentMessage C)
  | injected (message : AgentMessage C)
  | streamed (message : Response)
  | result (message : ToolResultMessage)
  deriving DecidableEq

variable {C : Type}

def Entry.message : Entry C → AgentMessage C
  | .given message => message
  | .injected message => message
  | .streamed message => .assistant message
  | .result message => .toolResult message

def Entry.injected? : Entry C → Option (AgentMessage C)
  | .injected message => some message
  | _ => none

def Entry.isResult : Entry C → Bool
  | .result _ => true
  | _ => false

/- `leaks` is the leak detector where it is enabled, `maxToolCallsPerTurn` what
   `normalizeMaxToolCallsPerTurn` makes of the option. -/
structure StreamConfig where
  leaks : Response → Bool
  maxToolCallsPerTurn : Option Nat
  api : JsString
  provider : JsString
  model : JsString

/-- An `update` is any event between `start` and the last one; `signalAborted` is what the
    caller's signal says when it is handled. -/
inductive StreamUpdate where
  | start (message : Response)
  | update (message : Response) (toolCallEnd : Bool) (signalAborted : Bool)
  deriving DecidableEq

/-- How a stream goes on when its updates are used up: a `done` or `error` event, the end of the
    events without one, an abort of the request, or an error thrown. -/
inductive StreamFinish where
  | final (message : Response)
  | exhausted (trailing : Response)
  | aborted (now : Int)
  | failed
  deriving DecidableEq

structure StreamScript where
  updates : List StreamUpdate
  finish : StreamFinish
  deriving DecidableEq

/- `interrupted` is the leak interruption. It is never built with a recovered call, so there is no
   truncate-and-resume outcome. -/
inductive Answer where
  | message (message : Response)
  | interrupted
  | failed
  deriving DecidableEq

structure StreamResult (C : Type) where
  answer : Answer
  messages : List (Entry C)
  deriving DecidableEq

structure StreamState (C : Type) where
  messages : List (Entry C)
  partialMessage : Option Response
  addedPartial : Bool
  completedToolCalls : Nat
  deriving DecidableEq

def setLast (messages : List (Entry C)) (message : Response) : List (Entry C) :=
  messages.dropLast ++ [.streamed message]

/- The last message is the partial one, once that was added. -/
def StreamState.place (st : StreamState C) (message : Response) : List (Entry C) :=
  if st.addedPartial then setLast st.messages message else st.messages ++ [.streamed message]

def StreamState.withdraw (st : StreamState C) : List (Entry C) :=
  if st.addedPartial then st.messages.dropLast else st.messages

def abortedMessage (config : StreamConfig) (partialMessage : Option Response) (now : Int) : Response :=
  match partialMessage with
  | some message => { message with stopReason := .aborted, errorMessage := some (js "Request was aborted") }
  | none =>
      { content := [], api := config.api, provider := config.provider, model := config.model, stopReason := .aborted,
        timestamp := now, errorMessage := some (js "Request was aborted") }

def finishStream (config : StreamConfig) (st : StreamState C) : StreamFinish → StreamResult C
  | .final message =>
      if config.leaks message then ⟨.interrupted,st.withdraw⟩ else ⟨.message message,st.place message⟩
  | .exhausted trailing =>
      -- the trailing message is returned, but not put in the context
      if config.leaks trailing then ⟨.interrupted,st.withdraw⟩ else ⟨.message trailing,st.messages⟩
  | .aborted now =>
      let message := abortedMessage config st.partialMessage now
      ⟨.message message,st.place message⟩
  | .failed => ⟨.failed,st.messages⟩

def cloneAssistantMessageForToolCallCap (message : Response) : Response :=
  { message with stopReason := .toolUse, errorMessage := none }

def reachesCap (config : StreamConfig) (completedToolCalls : Nat) : Bool :=
  config.maxToolCallsPerTurn.any (· ≤ completedToolCalls)

def streamUpdates (config : StreamConfig) (finish : StreamFinish) : StreamState C → List StreamUpdate → StreamResult C
  | st, [] => finishStream config st finish
  | st, .start message :: rest =>
      streamUpdates config finish
        { st with messages := st.messages ++ [.streamed message], partialMessage := some message, addedPartial := true } rest
  | st, .update message toolCallEnd signalAborted :: rest =>
      if st.partialMessage.isNone then streamUpdates config finish st rest
      else
        let counted := toolCallEnd && !signalAborted
        let shown : StreamState C :=
          { st with
            messages := setLast st.messages message
            partialMessage := some message
            completedToolCalls := if counted then st.completedToolCalls + 1 else st.completedToolCalls }
        if counted && reachesCap config shown.completedToolCalls then
          let cappedMessage := cloneAssistantMessageForToolCallCap message
          ⟨.message cappedMessage,shown.place cappedMessage⟩
        else streamUpdates config finish shown rest

def streamAssistantResponse (config : StreamConfig) (messages : List (Entry C)) (script : StreamScript) : StreamResult C :=
  streamUpdates config script.finish ⟨messages,none,false,0⟩ script.updates

end AgentLoop

/- What streaming one response leaves in the context: the messages it found, and after them the
   partial messages the stream announced. -/
namespace AgentLoop
open JsText Conversation

variable {C : Type}

def StreamUpdate.isStart : StreamUpdate → Bool
  | .start _ => true
  | .update .. => false

/- Whether the updates reach the tool-call cap; `started` is whether a partial message is known. -/
def capsAt (config : StreamConfig) : Bool → Nat → List StreamUpdate → Bool
  | _, _, [] => false
  | _, completed, .start _ :: rest => capsAt config true completed rest
  | started, completed, .update _ toolCallEnd signalAborted :: rest =>
      if started then
        let counted := toolCallEnd && !signalAborted
        let reached := if counted then completed + 1 else completed
        (counted && reachesCap config reached) || capsAt config true reached rest
      else capsAt config false completed rest

def StreamFinish.leaks (config : StreamConfig) : StreamFinish → Bool
  | .final message => config.leaks message
  | .exhausted trailing => config.leaks trailing
  | .aborted _ => false
  | .failed => false

def StreamFinish.isExhausted : StreamFinish → Bool
  | .exhausted _ => true
  | _ => false

/- The response leaks, and the stream is not cut at the cap before that is seen. -/
def StreamScript.breaksOff (config : StreamConfig) (script : StreamScript) : Bool :=
  !capsAt config false 0 script.updates && script.finish.leaks config

/- The events end without a final one and without any that announced the message. -/
def StreamScript.isLost (config : StreamConfig) (script : StreamScript) : Bool :=
  !script.updates.any StreamUpdate.isStart && script.finish.isExhausted && !script.finish.leaks config

/-- The state after `starts` announcements over a context that held `base`: all but the last
    announced message are stale. -/
def Streaming (base : List (Entry C)) (starts : Nat) (st : StreamState C) : Prop :=
  (starts = 0 ∧ st.partialMessage = none ∧ st.addedPartial = false ∧ st.messages = base) ∨
    ∃ (stale : List Response) (shown : Response), stale.length + 1 = starts ∧ st.partialMessage.isSome = true ∧ st.addedPartial = true ∧
      st.messages = base ++ stale.map .streamed ++ [.streamed shown]

/- What a stream of at most `starts` announcements answers, and what it leaves in the context. -/
def Outcome (config : StreamConfig) (finish : StreamFinish) (base : List (Entry C)) (starts : Nat)
    (result : StreamResult C) : Prop :=
  match result.answer with
  | .message message =>
      (∃ stale : List Response, stale.length ≤ starts - 1 ∧ result.messages = base ++ stale.map .streamed ++ [.streamed message]) ∨
        finish.isExhausted = true ∧ finish.leaks config = false ∧
          ((starts = 0 ∧ result.messages = base) ∨
            ∃ (stale : List Response) (shown : Response), result.messages = base ++ stale.map .streamed ++ [.streamed shown])
  | .interrupted =>
      finish.leaks config = true ∧ ∃ stale : List Response, stale.length ≤ starts - 1 ∧ result.messages = base ++ stale.map .streamed
  | .failed => ∃ shown : List Response, result.messages = base ++ shown.map .streamed

variable {base : List (Entry C)} {starts : Nat} {st : StreamState C}

theorem place_after (streaming : Streaming base starts st) (message : Response) :
    ∃ stale : List Response, stale.length ≤ starts - 1 ∧ st.place message = base ++ stale.map .streamed ++ [.streamed message] := by
  rcases streaming with ⟨_,_,added,held⟩ | ⟨stale,shown,count,_,added,held⟩
  · exists []
    simp [StreamState.place, added, held]
  · exists stale
    constructor
    · omega
    · simp [StreamState.place, setLast, added, held]

theorem withdraw_after (streaming : Streaming base starts st) :
    ∃ stale : List Response, stale.length ≤ starts - 1 ∧ st.withdraw = base ++ stale.map .streamed := by
  rcases streaming with ⟨_,_,added,held⟩ | ⟨stale,shown,count,_,added,held⟩
  · exists []
    simp [StreamState.withdraw, added, held]
  · exists stale
    constructor
    · omega
    · simp [StreamState.withdraw, added, held]

theorem shown_after (streaming : Streaming base starts st) :
    ∃ shown : List Response, st.messages = base ++ shown.map .streamed := by
  rcases streaming with ⟨_,_,_,held⟩ | ⟨stale,shown,_,_,_,held⟩
  · exists []
    simp [held]
  · exists stale ++ [shown]
    simp [held]

theorem finish_outcome (config : StreamConfig) (streaming : Streaming base starts st) (finish : StreamFinish) :
    Outcome config finish base starts (finishStream config st finish) := by
  cases finish with
  | final message =>
    by_cases leak : config.leaks message = true
    · simp only [finishStream, leak, if_true, Outcome, StreamFinish.leaks, true_and]
      exact withdraw_after streaming
    · simp only [finishStream, leak, Outcome]
      exact .inl (place_after streaming message)
  | exhausted trailing =>
    by_cases leak : config.leaks trailing = true
    · simp only [finishStream, leak, if_true, Outcome, StreamFinish.leaks, true_and]
      exact withdraw_after streaming
    · simp only [finishStream, leak, Outcome, StreamFinish.leaks, StreamFinish.isExhausted]
      right
      rcases streaming with ⟨none,_,_,held⟩ | ⟨stale,shown,_,_,_,held⟩
      · exact ⟨trivial,trivial,.inl ⟨none,held⟩⟩
      · exact ⟨trivial,trivial,.inr ⟨stale,shown,held⟩⟩
  | aborted now =>
    simp only [finishStream, Outcome]
    exact .inl (place_after streaming _)
  | failed =>
    simp only [finishStream, Outcome]
    exact shown_after streaming

theorem start_streams (streaming : Streaming base starts st) (message : Response) :
    Streaming base (starts + 1)
      { st with messages := st.messages ++ [.streamed message], partialMessage := some message, addedPartial := true } := by
  right
  rcases streaming with ⟨none,_,_,held⟩ | ⟨stale,shown,count,_,_,held⟩
  · exact ⟨[],message,by simp [none],rfl,rfl,by simp [held]⟩
  · exact ⟨stale ++ [shown],message,by simp [count],rfl,rfl,by simp [held]⟩

theorem update_streams (streaming : Streaming base starts st) (known : st.partialMessage.isSome = true) (message : Response)
    (completed : Nat) :
    Streaming base starts
      { st with
        messages := setLast st.messages message, partialMessage := some message, completedToolCalls := completed } := by
  right
  rcases streaming with ⟨_,unknown,_,_⟩ | ⟨stale,shown,count,_,added,held⟩
  · simp [unknown] at known
  · exact ⟨stale,message,count,rfl,added,by simp [setLast, held]⟩

/-- The induction is on the updates; what each leaves is `Streaming` over the same base. -/
theorem updates_outcome (config : StreamConfig) (finish : StreamFinish) (updates : List StreamUpdate)
    (streaming : Streaming base starts st) :
    Outcome config finish base (starts + updates.countP StreamUpdate.isStart) (streamUpdates config finish st updates) := by
  induction updates generalizing starts st with
  | nil => exact finish_outcome config streaming finish
  | cons update rest ih =>
    cases update with
    | start message =>
      have next := ih (start_streams streaming message)
      rw [List.countP_cons_of_pos rfl, Nat.add_comm _ 1, ← Nat.add_assoc]
      exact next
    | update message toolCallEnd signalAborted =>
      rw [List.countP_cons_of_neg (by simp [StreamUpdate.isStart]), streamUpdates]
      split
      · exact ih streaming
      · rename_i known
        have known : st.partialMessage.isSome = true := by simpa [Option.isSome_iff_ne_none] using known
        dsimp only
        generalize (if (toolCallEnd && !signalAborted) = true then st.completedToolCalls + 1
          else st.completedToolCalls) = completed
        have streams := update_streams streaming known message completed
        split
        · obtain ⟨stale,few,held⟩ := place_after streams (cloneAssistantMessageForToolCallCap message)
          exact Or.inl ⟨stale,by omega,held⟩
        · exact ih streams

theorem stream_outcome (config : StreamConfig) (messages : List (Entry C)) (script : StreamScript) :
    Outcome config script.finish messages (script.updates.countP StreamUpdate.isStart)
      (streamAssistantResponse config messages script) := by
  have fresh : Streaming messages 0 ⟨messages,none,false,0⟩ := .inl ⟨rfl,rfl,rfl,rfl⟩
  have outcome := updates_outcome config script.finish script.updates fresh
  rw [Nat.zero_add] at outcome
  exact outcome

/-- At the cap the stream answers at once, whatever comes after. -/
theorem capped_answers (config : StreamConfig) (finish : StreamFinish) (updates : List StreamUpdate) (st : StreamState C)
    (caps : capsAt config st.partialMessage.isSome st.completedToolCalls updates = true) :
    ∃ message, (streamUpdates config finish st updates).answer = .message message := by
  induction updates generalizing st with
  | nil => simp [capsAt] at caps
  | cons update rest ih =>
    cases update with
    | start message => exact ih _ caps
    | update message toolCallEnd signalAborted =>
      rw [streamUpdates]
      rw [capsAt] at caps
      split
      · rename_i unknown
        have unknown : st.partialMessage.isSome = false := by simpa using unknown
        simp only [unknown, Bool.false_eq_true, if_false] at caps
        exact ih st (by rw [unknown]; exact caps)
      · rename_i known
        have known : st.partialMessage.isSome = true := by simpa [Option.isSome_iff_ne_none] using known
        simp only [known, if_true] at caps
        dsimp only
        generalize (if (toolCallEnd && !signalAborted) = true then st.completedToolCalls + 1
          else st.completedToolCalls) = completed at caps ⊢
        split
        · exact ⟨_,rfl⟩
        · rename_i below
          apply ih
          simpa [below] using caps

theorem interrupted_breaks_off {config : StreamConfig} {messages : List (Entry C)} {script : StreamScript}
    (interrupted : (streamAssistantResponse config messages script).answer = .interrupted) :
    script.breaksOff config = true := by
  have outcome := stream_outcome config messages script
  rw [Outcome, interrupted] at outcome
  have uncapped : capsAt config false 0 script.updates = false := by
    by_contra caps
    obtain ⟨message,answered⟩ := capped_answers config script.finish script.updates
      (⟨messages,none,false,0⟩ : StreamState C) (by simpa using caps)
    rw [streamAssistantResponse, answered] at interrupted
    contradiction
  simp [StreamScript.breaksOff, uncapped, outcome.1]

end AgentLoop
