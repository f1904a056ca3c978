import OpenAgents.Agent.AgentLoop
import OpenAgents.Agent.ToolBatchSafety

/- That the loop hands every message it obtains to the model and gets an answer to it. It does
   not where a response is broken off in a turn that only pending messages have started: the
   `continue` that is to try again finds neither tool calls nor messages and leaves the loop. -/
namespace AgentLoop
open JsText Conversation ToolBatch

variable {C : Type}

/- Every injected message is followed by an assistant message. -/
def Answered (messages : List (Entry C)) : Prop :=
  ∀ (i : Nat) (message : AgentMessage C), messages[i]? = some (.injected message) →
    ∃ (j : Nat) (response : Response), i < j ∧ messages[j]? = some (.streamed response)

/-- A response that is to be retried is broken off only where the loop goes on for tool calls, and
    no stream ends without a message of its own. -/
def VisitOk (config : LoopConfig) (s : LoopState C) (answers : Answers C) : Prop :=
  s.phase = .looping → s.goesOn = true →
    (answers.stream.breaksOff config.toStreamConfig = true → s.harmonyRetryAttempt < 2 → s.hasMoreToolCalls = true) ∧
      answers.stream.isLost config.toStreamConfig = false

instance (config : LoopConfig) (s : LoopState C) (answers : Answers C) : Decidable (VisitOk config s answers) :=
  inferInstanceAs (Decidable (s.phase = .looping → s.goesOn = true →
    (answers.stream.breaksOff config.toStreamConfig = true → s.harmonyRetryAttempt < 2 → s.hasMoreToolCalls = true) ∧
      answers.stream.isLost config.toStreamConfig = false))

def RunOk (config : LoopConfig) : LoopState C → List (Answers C) → Prop
  | _, [] => True
  | s, answers :: rest => VisitOk config s answers ∧ RunOk config (visit config s answers) rest

structure Answering (s : LoopState C) : Prop where
  injects : s.obtained = s.messages.filterMap Entry.injected? ++ s.pendingMessages
  cleared : s.phase ≠ .looping → s.pendingMessages = []
  answers : s.phase = .looping → s.pendingMessages ≠ [] ∨ s.hasMoreToolCalls = true ∨ Answered s.messages
  retries : s.phase = .looping → s.interrupted = true → s.hasMoreToolCalls = true
  ended : s.phase = .ended → Answered s.messages ∧ s.interrupted = false
  returned : s.phase = .returned → s.interrupted = false

theorem injected_map_injected (messages : List (AgentMessage C)) :
    (messages.map Entry.injected).filterMap Entry.injected? = messages := by
  induction messages with
  | nil => rfl
  | cons message rest ih => simp [Entry.injected?, ih]

theorem injected_map_given (messages : List (AgentMessage C)) :
    (messages.map Entry.given).filterMap Entry.injected? = [] := by
  simp [Entry.injected?]

theorem injected_map_streamed (messages : List Response) :
    (messages.map (Entry.streamed (C := C))).filterMap Entry.injected? = [] := by
  simp [Entry.injected?]

theorem answered_streamed (messages : List (Entry C)) (response : Response) :
    Answered (messages ++ [.streamed response]) := by
  intro i message here
  have inside : i < messages.length + 1 := by
    have bound := (List.getElem?_eq_some_iff.mp here).1
    simpa using bound
  have notLast : i ≠ messages.length := by
    intro last
    simp [last] at here
  exact ⟨messages.length,response,by omega,by simp⟩

theorem answered_results {messages : List (Entry C)} (answered : Answered messages) (results : List ToolResultMessage) :
    Answered (messages ++ results.map .result) := by
  intro i message here
  by_cases inside : i < messages.length
  · rw [List.getElem?_append_left inside] at here
    obtain ⟨j,response,later,found⟩ := answered i message here
    have bound := (List.getElem?_eq_some_iff.mp found).1
    exact ⟨j,response,later,by rw [List.getElem?_append_left bound, found]⟩
  · rw [List.getElem?_append_right (by omega)] at here
    simp at here

theorem stream_injects (config : StreamConfig) (messages : List (Entry C)) (script : StreamScript) :
    (streamAssistantResponse config messages script).messages.filterMap Entry.injected? =
      messages.filterMap Entry.injected? := by
  have outcome := stream_outcome config messages script
  rw [Outcome] at outcome
  split at outcome
  · rcases outcome with ⟨stale,_,held⟩ | ⟨_,_,⟨_,held⟩ | ⟨stale,shown,held⟩⟩
    · rw [held]
      simp [Entry.injected?]
    · rw [held]
    · rw [held]
      simp [Entry.injected?]
  · obtain ⟨_,stale,_,held⟩ := outcome
    rw [held, List.filterMap_append, injected_map_streamed, List.append_nil]
  · obtain ⟨shown,held⟩ := outcome
    rw [held, List.filterMap_append, injected_map_streamed, List.append_nil]

theorem stream_answers {config : StreamConfig} {messages : List (Entry C)} {script : StreamScript} {message : Response}
    (answer : (streamAssistantResponse config messages script).answer = .message message)
    (kept : script.isLost config = false) : Answered (streamAssistantResponse config messages script).messages := by
  have outcome := stream_outcome config messages script
  rw [Outcome, answer] at outcome
  rcases outcome with ⟨stale,_,held⟩ | ⟨exhausted,sound,⟨silent,_⟩ | ⟨stale,shown,held⟩⟩
  · rw [held]
    exact answered_streamed _ _
  · have unannounced : script.updates.any StreamUpdate.isStart = false := by
      rw [List.countP_eq_zero] at silent
      simpa using silent
    simp [StreamScript.isLost, unannounced, exhausted, sound] at kept
  · rw [held]
    exact answered_streamed _ _

variable {s : LoopState C} {config : LoopConfig} {answers : Answers C}

theorem endTurn_answering (config : LoopConfig) (answers : Answers C) (found : Option (List (AgentMessage C)))
    (looping : s.phase = .looping) (injects : s.obtained = s.messages.filterMap Entry.injected? ++ found.getD [])
    (answered : Answered s.messages) (calm : s.interrupted = false) : Answering (endTurn config answers s found) := by
  cases found with
  | some messages =>
    constructor <;> simp [endTurn, LoopState.mark, looping, answered, calm, injects]
  | none =>
    rw [Option.getD_none, List.append_nil] at injects
    constructor <;> simp [endTurn, LoopState.mark, looping, answered, calm, injects]

theorem answerTurn_answering (config : LoopConfig) (answers : Answers C) (message : Response) (looping : s.phase = .looping)
    (injects : s.obtained = s.messages.filterMap Entry.injected?) (none : s.pendingMessages = [])
    (answered : Answered s.messages) (calm : s.interrupted = false) : Answering (answerTurn config answers s message) := by
  rw [answerTurn]
  dsimp only
  split
  · constructor <;> simp [LoopState.push, LoopState.mark, none, calm, injects, Entry.injected?]
  · split
    · split
      · constructor <;> simp [none, injects]
      · rename_i executed ran
        apply endTurn_answering
        · exact looping
        · simp [LoopState.push, injects, executed_obtained ran, Entry.injected?]
        · exact answered_results answered _
        · exact calm
    · apply endTurn_answering
      · exact looping
      · simp [LoopState.push, injects, Entry.injected?]
      · exact answered_results answered _
      · exact calm

@[simp] theorem inject_pending (s : LoopState C) : s.inject.pendingMessages = [] := rfl
@[simp] theorem inject_obtained (s : LoopState C) : s.inject.obtained = s.obtained := rfl
@[simp] theorem inject_phase (s : LoopState C) : s.inject.phase = s.phase := rfl
@[simp] theorem inject_more (s : LoopState C) : s.inject.hasMoreToolCalls = s.hasMoreToolCalls := rfl
@[simp] theorem inject_attempt (s : LoopState C) : s.inject.harmonyRetryAttempt = s.harmonyRetryAttempt := rfl

theorem turn_answering (looping : s.phase = .looping) (goesOn : s.goesOn = true) (ok : VisitOk config s answers)
    (inv : Answering s) : Answering (turn config s answers) := by
  obtain ⟨retried,kept⟩ := ok looping goesOn
  have obtained : s.obtained =
      (streamAssistantResponse config.toStreamConfig s.inject.messages answers.stream).messages.filterMap Entry.injected? := by
    rw [stream_injects, inv.injects, LoopState.inject, LoopState.push, List.filterMap_append, injected_map_injected]
  rw [turn]
  dsimp only
  split
  · constructor <;> simp [obtained]
  · rename_i interrupted
    split
    · constructor <;> simp [obtained]
    · rename_i below
      -- the model is asked again only because of the tool calls before
      have more : s.hasMoreToolCalls = true := retried (interrupted_breaks_off interrupted) (by simpa using below)
      constructor <;> simp [obtained, looping, more]
  · rename_i message answer
    apply answerTurn_answering
    · exact looping
    · exact obtained
    · rfl
    · exact stream_answers answer kept
    · rfl

theorem visit_answering (ok : VisitOk config s answers) (inv : Answering s) : Answering (visit config s answers) := by
  rw [visit]
  split
  · exact inv
  · rename_i phase
    have looping : s.phase = .looping := by simpa using phase
    split
    · rename_i goesOn
      exact turn_answering looping goesOn ok inv
    · rename_i stops
      simp only [LoopState.goesOn, Bool.or_eq_true, Bool.not_eq_true', List.isEmpty_eq_false_iff, not_or, not_not,
        Bool.not_eq_true] at stops
      obtain ⟨noTools,none⟩ := stops
      have answered : Answered s.messages := by
        rcases inv.answers looping with pending | more | answered
        · contradiction
        · rw [noTools] at more
          contradiction
        · exact answered
      have calm : s.interrupted = false := by
        cases flag : s.interrupted with
        | false => rfl
        | true =>
          have more := inv.retries looping flag
          rw [noTools] at more
          contradiction
      have injects := inv.injects
      rw [none, List.append_nil] at injects
      dsimp only
      split
      · constructor <;> simp [LoopState.mark, injects, none, answered, calm]
      · constructor <;> simp [injects, looping, calm]

theorem start_answering (config : LoopConfig) (context prompts steering : List (AgentMessage C)) :
    Answering (startLoop config context prompts steering) := by
  constructor
  · simp only [startLoop, List.filterMap_append, injected_map_given, List.nil_append]
  all_goals simp [startLoop]

theorem run_answering (answers : List (Answers C)) (ok : RunOk config s answers) (inv : Answering s) : Answering (runLoopBody config s answers) := by
  induction answers generalizing s with
  | nil => exact inv
  | cons answer rest ih => exact ih ok.2 (visit_answering ok.1 inv)

theorem injected_are_answered (config : LoopConfig) (context prompts steering : List (AgentMessage C))
    (answers : List (Answers C)) (ok : RunOk config (startLoop config context prompts steering) answers) :
    let s := agentLoop config context prompts steering answers
    s.obtained = s.messages.filterMap Entry.injected? ++ s.pendingMessages ∧
      (s.phase ≠ .looping → s.pendingMessages = []) ∧
      (s.phase = .ended → Answered s.messages) ∧
      (s.phase = .ended ∨ s.phase = .returned → s.interrupted = false) := by
  have inv := run_answering answers ok (start_answering config context prompts steering)
  refine ⟨inv.injects,inv.cleared,fun ended => (inv.ended ended).1,?_⟩
  rintro (ended | returned)
  · exact (inv.ended ended).2
  · exact inv.returned returned

def plainResponse (text : String) (stopReason : StopReason) : Response :=
  { content := [.text ⟨js text,none⟩], api := js "responses", provider := js "openai", model := js "gpt-5",
    stopReason := stopReason, timestamp := 0, errorMessage := none }

def leakyResponse : Response := plainResponse "<|channel|>analysis" .stop

def plainConfig : LoopConfig :=
  { leaks := fun message => decide (message = leakyResponse), maxToolCallsPerTurn := none, api := js "responses",
    provider := js "openai", model := js "gpt-5", batch := ⟨true,true⟩, concurrencyOf := fun _ => .shared,
    hasFollowUpCallback := true }

def plainAnswers (stream : StreamScript) (steering : List (AgentMessage Nat)) : Answers Nat :=
  ⟨stream,[],steering,[],0⟩

def finalScript (message : Response) : StreamScript := ⟨[.start message],.final message⟩

/-- A leak in the first turn is retried; then a steering message comes and is answered. -/
theorem injected_are_answered_after_a_retry :
    let s := agentLoop plainConfig [] [.other 0] []
      [plainAnswers (finalScript leakyResponse) [], plainAnswers (finalScript (plainResponse "Hello" .stop)) [.other 1],
        plainAnswers (finalScript (plainResponse "Yes" .stop)) [], plainAnswers (finalScript leakyResponse) []]
    s.phase = .ended ∧ s.obtained = [.other 1] ∧
      s.obtained = s.messages.filterMap Entry.injected? ++ s.pendingMessages ∧ Answered s.messages := by
  have all := injected_are_answered plainConfig [] [.other 0] []
    [plainAnswers (finalScript leakyResponse) [], plainAnswers (finalScript (plainResponse "Hello" .stop)) [.other 1],
      plainAnswers (finalScript (plainResponse "Yes" .stop)) [], plainAnswers (finalScript leakyResponse) []]
    ⟨by decide +kernel,by decide +kernel,by decide +kernel,by decide +kernel,trivial⟩
  obtain ⟨injects,_,answered,_⟩ := all
  exact ⟨by decide +kernel,by decide +kernel,injects,answered (by decide +kernel)⟩

/-- The same leak in a turn started by the steering message alone ends the run. -/
theorem steering_left_unanswered :
    let s := agentLoop plainConfig [] [.other 0] []
      [plainAnswers (finalScript (plainResponse "Hello" .stop)) [.other 1], plainAnswers (finalScript leakyResponse) [],
        plainAnswers (finalScript (plainResponse "Yes" .stop)) []]
    s.phase = .ended ∧ s.obtained = [.other 1] ∧ s.interrupted = true ∧ ¬ Answered s.messages := by
  refine ⟨by decide +kernel,by decide +kernel,by decide +kernel,?_⟩
  intro answered
  obtain ⟨j,response,later,found⟩ := answered 2 (.other 1) (by decide +kernel)
  have bound := (List.getElem?_eq_some_iff.mp found).1
  have short : (agentLoop plainConfig [] [AgentMessage.other 0] []
      [plainAnswers (finalScript (plainResponse "Hello" .stop)) [.other 1], plainAnswers (finalScript leakyResponse) [],
        plainAnswers (finalScript (plainResponse "Yes" .stop)) []]).messages.length = 3 := by decide +kernel
  omega

end AgentLoop
