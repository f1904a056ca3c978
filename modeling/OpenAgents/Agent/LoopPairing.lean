import OpenAgents.Agent.LoopAnswers

/- That the context and the new messages stay in step, and every tool call of a response has its
   result before the next response. -/
namespace AgentLoop
open JsText Conversation ToolBatch

variable {C : Type}

/- The results in front of the next response. -/
def resultsBeforeNext : List (Entry C) → List ToolResultMessage
  | [] => []
  | .streamed _ :: _ => []
  | .result message :: rest => message :: resultsBeforeNext rest
  | .given _ :: rest => resultsBeforeNext rest
  | .injected _ :: rest => resultsBeforeNext rest

/-- Before the next response there is, for each tool call of a response, one result with its id,
    and no other result. -/
def Paired : List (Entry C) → Prop
  | [] => True
  | .streamed message :: rest =>
      ((resultsBeforeNext rest).map ToolResultMessage.toolCallId).Perm (message.toolCalls.map ToolCall.id) ∧ Paired rest
  | .result _ :: rest => Paired rest
  | .given _ :: rest => Paired rest
  | .injected _ :: rest => Paired rest

/-- A stream announces its message at most once, and ends with a final event, an abort, the cap or
    an error. -/
def StreamScript.WellFormed (script : StreamScript) : Prop :=
  script.updates.countP StreamUpdate.isStart ≤ 1 ∧ script.finish.isExhausted = false

/- The lists in step, over the messages the run began with. -/
def InStep (initial messages newMessages : List (Entry C)) : Prop :=
  messages = initial ++ newMessages ∧ Paired messages

structure Consistent (initial : List (Entry C)) (s : LoopState C) : Prop where
  now : s.phase = .looping → InStep initial s.messages s.newMessages
  ends : ∀ e ∈ s.ends, InStep initial e.messages e.newMessages

variable {xs ys : List (Entry C)} {results : List ToolResultMessage} {s : LoopState C} {config : LoopConfig}
  {answers : Answers C}

theorem results_before_append (quiet : resultsBeforeNext ys = []) : resultsBeforeNext (xs ++ ys) = resultsBeforeNext xs := by
  induction xs with
  | nil => exact quiet
  | cons entry rest ih => cases entry <;> simp [resultsBeforeNext, ih]

theorem paired_append (left : Paired xs) (right : Paired ys) (quiet : resultsBeforeNext ys = []) : Paired (xs ++ ys) := by
  induction xs with
  | nil => exact right
  | cons entry rest ih =>
    cases entry with
    | streamed message =>
      rw [List.cons_append, Paired, results_before_append quiet]
      exact ⟨left.1,ih left.2⟩
    | result message => exact ih left
    | given message => exact ih left
    | injected message => exact ih left

theorem results_before_results (results : List ToolResultMessage) :
    resultsBeforeNext (results.map (Entry.result (C := C))) = results := by
  induction results with
  | nil => rfl
  | cons result rest ih => rw [List.map_cons, resultsBeforeNext, ih]

theorem paired_results (results : List ToolResultMessage) : Paired (results.map (Entry.result (C := C))) := by
  induction results with
  | nil => trivial
  | cons result rest ih => exact ih

theorem paired_injected (messages : List (AgentMessage C)) :
    Paired (messages.map Entry.injected) ∧ resultsBeforeNext (messages.map Entry.injected) = [] := by
  induction messages with
  | nil => exact ⟨trivial,rfl⟩
  | cons message rest ih => exact ih

theorem paired_given (messages : List (AgentMessage C)) : Paired (messages.map Entry.given) := by
  induction messages with
  | nil => trivial
  | cons message rest ih => exact ih

theorem paired_turn {messages : List (Entry C)} (paired : Paired messages) {message : Response}
    (ids : (results.map ToolResultMessage.toolCallId).Perm (message.toolCalls.map ToolCall.id)) :
    Paired (messages ++ [.streamed message] ++ results.map .result) := by
  rw [List.append_assoc]
  apply paired_append paired
  · constructor
    · show ((resultsBeforeNext (results.map .result)).map ToolResultMessage.toolCallId).Perm _
      rw [results_before_results]
      exact ids
    · exact paired_results results
  · rfl

theorem aborted_ids (reason : AbortReason) (errorMessage : Option JsString) (now : Int) (toolCalls : List ToolCall) :
    (toolCalls.map (createAbortedToolResult reason errorMessage now)).map ToolResultMessage.toolCallId =
      toolCalls.map ToolCall.id := by
  rw [List.map_map]
  rfl

theorem push_consistent {initial : List (Entry C)} {front : List (Entry C)} {message : Response}
    (held : s.messages = front ++ [.streamed message]) (step : s.messages = initial ++ s.newMessages) (paired : Paired front)
    (ids : (results.map ToolResultMessage.toolCallId).Perm (message.toolCalls.map ToolCall.id)) :
    InStep initial (s.push (results.map .result)).messages (s.push (results.map .result)).newMessages := by
  constructor
  · simp only [LoopState.push, step, List.append_assoc]
  · simp only [LoopState.push, held]
    exact paired_turn paired ids

theorem endTurn_consistent (config : LoopConfig) (answers : Answers C) {initial : List (Entry C)}
    (step : InStep initial s.messages s.newMessages) (before : ∀ e ∈ s.ends, InStep initial e.messages e.newMessages)
    (found : Option (List (AgentMessage C))) : Consistent initial (endTurn config answers s found) := by
  cases found <;>
    · constructor
      · intro _
        exact step
      · intro e mem
        rcases List.mem_append.mp mem with old | new
        · exact before e old
        · rw [List.mem_singleton] at new
          rw [new]
          exact step

theorem answerTurn_consistent (config : LoopConfig) (answers : Answers C) {initial : List (Entry C)} {front : List (Entry C)}
    {message : Response} (held : s.messages = front ++ [.streamed message]) (step : s.messages = initial ++ s.newMessages)
    (paired : Paired front) (before : ∀ e ∈ s.ends, InStep initial e.messages e.newMessages) :
    Consistent initial (answerTurn config answers s message) := by
  rw [answerTurn]
  dsimp only
  split
  · have stepped := push_consistent held step paired
      (List.Perm.of_eq (aborted_ids (if message.stopReason = .aborted then .aborted else .error) message.errorMessage
        answers.now message.toolCalls))
    constructor
    · intro looping
      contradiction
    · intro e mem
      simp only [LoopState.mark, List.append_assoc, List.mem_append, List.mem_cons, List.not_mem_nil, or_false] at mem
      rcases mem with old | new
      · exact before e old
      · rw [or_self] at new
        rw [new]
        exact stepped
  · split
    · split
      · constructor
        · intro looping
          contradiction
        · exact before
      · rename_i executed ran
        apply endTurn_consistent
        · exact push_consistent held step paired (executed_ids ran)
        · exact before
    · apply endTurn_consistent
      · exact push_consistent held step paired (List.Perm.of_eq (aborted_ids .skipped none answers.now message.toolCalls))
      · exact before

/-- A well formed stream leaves its message in the context, or nothing. -/
theorem stream_places {config : StreamConfig} {messages : List (Entry C)} {script : StreamScript} {message : Response}
    (wellFormed : script.WellFormed) (answer : (streamAssistantResponse config messages script).answer = .message message) :
    (streamAssistantResponse config messages script).messages = messages ++ [.streamed message] := by
  have outcome := stream_outcome config messages script
  rw [Outcome, answer] at outcome
  obtain ⟨once,finishes⟩ := wellFormed
  rcases outcome with ⟨stale,few,held⟩ | ⟨exhausted,_⟩
  · have none : stale = [] := List.length_eq_zero_iff.mp (by omega)
    rw [held, none]
    simp
  · rw [finishes] at exhausted
    contradiction

theorem stream_withdraws {config : StreamConfig} {messages : List (Entry C)} {script : StreamScript}
    (wellFormed : script.WellFormed) (answer : (streamAssistantResponse config messages script).answer = .interrupted) :
    (streamAssistantResponse config messages script).messages = messages := by
  have outcome := stream_outcome config messages script
  rw [Outcome, answer] at outcome
  obtain ⟨_,stale,few,held⟩ := outcome
  have once := wellFormed.1
  have none : stale = [] := List.length_eq_zero_iff.mp (by omega)
  rw [held, none]
  simp

theorem inject_in_step {initial : List (Entry C)} (step : InStep initial s.messages s.newMessages) :
    InStep initial s.inject.messages s.inject.newMessages := by
  obtain ⟨same,paired⟩ := step
  obtain ⟨injectedPaired,quiet⟩ := paired_injected s.pendingMessages
  constructor
  · simp only [LoopState.inject, LoopState.push, same, List.append_assoc]
  · exact paired_append paired injectedPaired quiet

theorem turn_consistent {initial : List (Entry C)} (looping : s.phase = .looping) (wellFormed : answers.stream.WellFormed)
    (inv : Consistent initial s) : Consistent initial (turn config s answers) := by
  obtain ⟨same,paired⟩ := inject_in_step (inv.now looping)
  rw [turn]
  dsimp only
  split
  · constructor
    · intro more
      contradiction
    · exact inv.ends
  · rename_i interrupted
    split
    · constructor
      · intro more
        contradiction
      · exact inv.ends
    · constructor
      · intro _
        dsimp only
        rw [stream_withdraws wellFormed interrupted]
        exact ⟨same,paired⟩
      · exact inv.ends
  · rename_i message answer
    have placed := stream_places wellFormed answer
    apply answerTurn_consistent
    · exact placed
    · dsimp only
      rw [placed, same, List.append_assoc]
    · exact paired
    · exact inv.ends

theorem visit_consistent {initial : List (Entry C)} (wellFormed : answers.stream.WellFormed) (inv : Consistent initial s) :
    Consistent initial (visit config s answers) := by
  rw [visit]
  split
  · exact inv
  · rename_i phase
    have looping : s.phase = .looping := by simpa using phase
    split
    · exact turn_consistent looping wellFormed inv
    · dsimp only
      split
      · constructor
        · intro more
          contradiction
        · intro e mem
          rcases List.mem_append.mp mem with old | new
          · exact inv.ends e old
          · rw [List.mem_singleton] at new
            rw [new]
            exact inv.now looping
      · constructor
        · intro _
          exact inv.now looping
        · exact inv.ends

theorem start_consistent (config : LoopConfig) (context prompts steering : List (AgentMessage C)) :
    Consistent (context.map .given) (startLoop config context prompts steering) := by
  constructor
  · intro _
    constructor
    · rfl
    · rw [startLoop, ← List.map_append]
      exact paired_given _
  · intro e mem
    contradiction

theorem run_consistent {initial : List (Entry C)} (answers : List (Answers C))
    (wellFormed : ∀ answer ∈ answers, answer.stream.WellFormed) (inv : Consistent initial s) :
    Consistent initial (runLoopBody config s answers) := by
  induction answers generalizing s with
  | nil => exact inv
  | cons answer rest ih =>
    have next : Consistent initial (visit config s answer) :=
      visit_consistent (wellFormed answer (List.mem_cons_self ..)) inv
    exact ih (fun other mem => wellFormed other (List.mem_cons_of_mem _ mem)) next

/-- At the end of every turn and of the run, and whenever the loop goes on, as after an interrupted
response, the context is the messages the run began with and the new ones, and each response is
followed, before the next one, by one result for each of its tool calls. -/
theorem loop_keeps_pairs (config : LoopConfig) (context prompts steering : List (AgentMessage C))
    (answers : List (Answers C)) (wellFormed : ∀ answer ∈ answers, answer.stream.WellFormed) :
    let s := agentLoop config context prompts steering answers
    (∀ e ∈ s.ends, e.messages = context.map .given ++ e.newMessages ∧ Paired e.messages) ∧
      (s.phase = .looping → s.messages = context.map .given ++ s.newMessages ∧ Paired s.messages) := by
  have inv : Consistent (context.map .given) (agentLoop config context prompts steering answers) :=
    run_consistent answers wellFormed (start_consistent config context prompts steering)
  exact ⟨inv.ends,inv.now⟩

def callingResponse (ids : List String) : Response :=
  { plainResponse "Looking" .toolUse with content := ids.map fun id => .toolCall (plainCall id) }

def callingAnswers (ids : List String) (tools : List (ToolBatch.Event (AgentMessage Nat))) : Answers Nat :=
  { plainAnswers (finalScript (callingResponse ids)) [] with tools := tools }

def bothRun : List (ToolBatch.Event (AgentMessage Nat)) :=
  [.start 0, .finish 0 soleOutcome 1, .steering [], .start 1, .finish 1 soleOutcome 2, .steering []]

theorem loop_keeps_pairs_of_two_calls :
    let s := agentLoop plainConfig [.other 0] [.other 1] []
      [callingAnswers ["a", "b"] bothRun, plainAnswers (finalScript (plainResponse "Done" .stop)) [],
        plainAnswers (finalScript leakyResponse) []]
    s.ends.length = 3 ∧ ∀ e ∈ s.ends, e.messages = [.given (.other 0)] ++ e.newMessages ∧ Paired e.messages := by
  have all := loop_keeps_pairs plainConfig [.other 0] [.other 1] []
    [callingAnswers ["a", "b"] bothRun, plainAnswers (finalScript (plainResponse "Done" .stop)) [],
      plainAnswers (finalScript leakyResponse) []] (by
    simp only [StreamScript.WellFormed]
    decide)
  exact ⟨by decide +kernel,all.1⟩

/-- Calls that share an id get a result each, a second announcement leaves the first in the context,
    and calls of the messages given stay as they are. -/
theorem pairs_fail :
    (∃ e ∈ (agentLoop plainConfig [] [.other 0] [] [callingAnswers ["a", "a"] bothRun]).ends,
      ∃ given message rest, e.messages = given ++ .streamed message :: rest ∧ plainCall "a" ∈ message.toolCalls ∧
        ((resultsBeforeNext rest).map ToolResultMessage.toolCallId).count (js "a") = 2) ∧
    (∃ e ∈ (agentLoop plainConfig [] [.other (0 : Nat)] []
        [plainAnswers ⟨[.start (plainResponse "He" .stop), .start (plainResponse "Hello" .stop)],
          .final (plainResponse "Hello" .stop)⟩ []]).ends, e.messages ≠ e.newMessages) ∧
    ∃ e ∈ (agentLoop plainConfig [.assistant (callingResponse ["a"])] [.other (0 : Nat)] []
        [plainAnswers (finalScript (plainResponse "Hello" .stop)) []]).ends,
      .given (.assistant (callingResponse ["a"])) ∈ e.messages ∧ resultsBeforeNext e.messages = [] := by
  refine ⟨⟨_,List.mem_cons_self ..,[.given (.other 0)],callingResponse ["a", "a"],_,rfl,?_,?_⟩,
    ⟨_,List.mem_cons_self ..,?_⟩,⟨_,List.mem_cons_self ..,?_,?_⟩⟩ <;> decide +kernel

end AgentLoop
