import OpenAgents.Conversation.Messages
import OpenAgents.Lib.OrderedMap

/- Rewriting a conversation for a target model: one pass that adapts each message,
   one that puts every tool result into the window of its call. -/
namespace Providers
open JsText JsJson Conversation OrderedMap

structure Model where
  id : JsString
  api : JsString
  provider : JsString
  deriving DecidableEq

abbrev NormalizeToolCallId := JsString → Model → AssistantMessage → JsString

def turnAbortedGuidance : JsString :=
  js "<turn-aborted>\nThe previous turn was aborted. Any running tools/commands were terminated. \nIf tools were aborted, they may have partially executed; verify current state before retrying.\n</turn-aborted>\n"

def shouldDropTruncatedThinkingOnlyAssistant (msg : AssistantMessage) : Bool :=
  (msg.stopReason = .length || msg.stopReason = .error || msg.stopReason = .aborted) &&
    !msg.content.any fun block => block.toolCall?.isSome || block.isText

def survives : Message → Bool
  | .assistant msg => !shouldDropTruncatedThinkingOnlyAssistant msg
  | _ => false

/- The last index of a surviving assistant message. -/
def getLatestSurvivingAssistantIndex (messages : List Message) : Option Nat :=
  ((messages.zipIdx.filter fun entry => survives entry.1).map Prod.snd).getLast?

section FirstPass
variable (model : Model) (normalizeToolCallId : Option NormalizeToolCallId)

def isSameModel (msg : AssistantMessage) : Bool :=
  msg.provider = model.provider && msg.api = model.api && msg.model = model.id

def invalidStopReason (msg : AssistantMessage) : Bool :=
  msg.stopReason = .aborted || msg.stopReason = .error

def abandonedToolUse (msg : AssistantMessage) : Bool :=
  !invalidStopReason msg && msg.stopReason ≠ .toolUse && !msg.toolCalls.isEmpty

def transformThinking (msg : AssistantMessage) (preserveLatest : Bool) (block : ThinkingContent) :
    List AssistantBlock :=
  let hasInvalidSignatures := invalidStopReason msg || abandonedToolUse msg
  let sanitized :=
    if hasInvalidSignatures && truthy block.thinkingSignature then { block with thinkingSignature := none }
    else block
  if preserveLatest then [.thinking (if abandonedToolUse msg then block else sanitized)]
  else if isSameModel model msg && truthy sanitized.thinkingSignature then [.thinking sanitized]
  else if (trim sanitized.thinking).isEmpty then []
  else if isSameModel model msg then [.thinking sanitized]
  else [.text ⟨sanitized.thinking,none⟩]

/- The normalized id of a call, when it differs from the call's own. -/
def renamed? (msg : AssistantMessage) (call : ToolCall) : Option JsString :=
  if isSameModel model msg then none
  else
    match normalizeToolCallId with
    | none => none
    | some normalize =>
        let normalizedId := normalize call.id model msg
        if normalizedId ≠ call.id then some normalizedId else none

def transformToolCall (msg : AssistantMessage) (call : ToolCall) : ToolCall :=
  let stripped :=
    if !isSameModel model msg && truthy call.thoughtSignature then { call with thoughtSignature := none }
    else call
  match renamed? model normalizeToolCallId msg call with
  | some normalizedId => { stripped with id := normalizedId }
  | none => stripped

def transformBlock (msg : AssistantMessage) (preserveLatest : Bool) :
    AssistantBlock → List AssistantBlock
  | .thinking block => transformThinking model msg preserveLatest block
  | .redactedThinking block =>
      if preserveLatest || isSameModel model msg then [.redactedThinking block] else []
  | .text block => if isSameModel model msg then [.text block] else [.text ⟨block.text,none⟩]
  | .toolCall call => [.toolCall (transformToolCall model normalizeToolCallId msg call)]

def recordRenames (msg : AssistantMessage) (ids : OMap JsString JsString) : OMap JsString JsString :=
  msg.toolCalls.foldl (fun ids call =>
    match renamed? model normalizeToolCallId msg call with
    | some normalizedId => put ids call.id normalizedId
    | none => ids) ids

def transformToolResult (ids : OMap JsString JsString) (msg : ToolResultMessage) : ToolResultMessage :=
  match get? ids msg.toolCallId with
  | some normalizedId =>
      if !normalizedId.isEmpty && normalizedId ≠ msg.toolCallId then { msg with toolCallId := normalizedId }
      else msg
  | none => msg

def preserveLatestThinking (latest : Option Nat) (index : Nat) (msg : AssistantMessage) : Bool :=
  latest = some index && model.api = js "anthropic-messages" && msg.api = js "anthropic-messages"

/- `ids` is the renaming collected from the messages before. -/
def firstPassFrom (latest : Option Nat) : Nat → OMap JsString JsString → List Message → List Message
  | _, _, [] => []
  | index, ids, msg :: rest =>
      match msg with
      | .user _ => msg :: firstPassFrom latest (index + 1) ids rest
      | .developer _ => msg :: firstPassFrom latest (index + 1) ids rest
      | .toolResult result =>
          .toolResult (transformToolResult ids result) :: firstPassFrom latest (index + 1) ids rest
      | .assistant turn =>
          let preserveLatest := preserveLatestThinking model latest index turn
          let content := turn.content.flatMap
            (transformBlock model normalizeToolCallId turn preserveLatest)
          .assistant { turn with content } ::
            firstPassFrom latest (index + 1) (recordRenames model normalizeToolCallId turn ids) rest

def firstPass (messages : List Message) : List Message :=
  firstPassFrom model normalizeToolCallId (getLatestSurvivingAssistantIndex messages) 0 [] messages

end FirstPass

inductive ToolCallStatus where
  | resolved
  | aborted
  deriving DecidableEq, Repr

/-- What the second pass reads of the whole transformed history. -/
structure HistoryIndex where
  realToolResultsById : OMap JsString ToolResultMessage
  validToolUseIds : List JsString

def indexHistory (transformed : List Message) : HistoryIndex where
  realToolResultsById := (transformed.filterMap Message.toolResult?).foldl
    (fun byId result => if has byId result.toolCallId then byId else put byId result.toolCallId result) []
  validToolUseIds := (transformed.flatMap Message.toolCalls).map ToolCall.id

structure SecondPass where
  result : List Message
  pendingToolCalls : List ToolCall
  pendingAbortedToolCalls : OMap JsString ToolCall
  pendingAbortedTimestamp : Option Int
  toolCallStatus : OMap JsString ToolCallStatus

def SecondPass.start : SecondPass := ⟨[],[],[],none,[]⟩

def syntheticResult (call : ToolCall) (text : JsString) (timestamp : Int) : ToolResultMessage :=
  ⟨call.id,call.name,[.text ⟨text,none⟩],true,timestamp⟩

section Loop
variable (history : HistoryIndex)

/- One call of a flush: its first real result if there is one, else a synthetic one. -/
def SecondPass.emitResult (text : JsString) (status : ToolCallStatus) (timestamp : Int)
    (st : SecondPass) (call : ToolCall) : SecondPass :=
  if has st.toolCallStatus call.id then st
  else
    match get? history.realToolResultsById call.id with
    | some real =>
        { st with
          result := st.result ++ [.toolResult real]
          toolCallStatus := put st.toolCallStatus call.id .resolved }
    | none =>
        { st with
          result := st.result ++ [.toolResult (syntheticResult call text timestamp)]
          toolCallStatus := put st.toolCallStatus call.id status }

def SecondPass.flushPendingToolCalls (st : SecondPass) (timestamp : Int) : SecondPass :=
  { st.pendingToolCalls.foldl (SecondPass.emitResult history (js "No result provided") .resolved timestamp) st
    with pendingToolCalls := [] }

def SecondPass.flushPendingAbortedToolCalls (st : SecondPass) : SecondPass :=
  match st.pendingAbortedTimestamp with
  | none => st
  | some timestamp =>
      let emitted := (values st.pendingAbortedToolCalls).foldl
        (SecondPass.emitResult history (js "aborted") .aborted timestamp) st
      { emitted with
        result := emitted.result ++ [.developer ⟨.plain turnAbortedGuidance,timestamp + 1⟩]
        pendingAbortedToolCalls := []
        pendingAbortedTimestamp := none }

def SecondPass.flushAll (st : SecondPass) (timestamp : Int) : SecondPass :=
  (st.flushPendingToolCalls history timestamp).flushPendingAbortedToolCalls history

def SecondPass.push (st : SecondPass) (msg : Message) : SecondPass :=
  { st with result := st.result ++ [msg] }

def isStop (msg : AssistantMessage) : Bool := msg.stopReason = .error || msg.stopReason = .aborted

def SecondPass.handleAssistant (st : SecondPass) (dropped : Bool) (msg : AssistantMessage) : SecondPass :=
  let st := st.flushAll history msg.timestamp
  if dropped then
    if isStop msg then
      { st with pendingAbortedToolCalls := [], pendingAbortedTimestamp := some msg.timestamp }
    else st
  else if isStop msg then
    { st.push (.assistant msg) with
      pendingAbortedToolCalls := ofList (msg.toolCalls.map fun call => (call.id, call))
      pendingAbortedTimestamp := some msg.timestamp }
  else if msg.toolCalls.isEmpty then st.push (.assistant msg)
  else { st.push (.assistant msg) with pendingToolCalls := msg.toolCalls }

def resultText? : ContentPart → Option JsString
  | .text content => if (trim content.text).isEmpty then none else some content.text
  | .image _ => none

def staleToolResult (msg : ToolResultMessage) (textParts : List JsString) : JsString :=
  js "<stale-tool-result tool=\"" ++ msg.toolName ++ js "\" id=\"" ++ msg.toolCallId ++ js "\"" ++
    (if msg.isError then js " is-error=\"true\"" else []) ++ js ">\n" ++ joinLines textParts ++
    js "\n</stale-tool-result>"

/-- A result whose call is nowhere in the history becomes a user note, or is dropped
    while a window is open. -/
def SecondPass.handleOrphan (st : SecondPass) (msg : ToolResultMessage) : SecondPass :=
  if st.pendingToolCalls.any (fun call => !has st.toolCallStatus call.id) ||
      !st.pendingAbortedToolCalls.isEmpty then st
  else
    let textParts := msg.content.filterMap resultText?
    if textParts.isEmpty then st
    else st.push (.user ⟨.plain (staleToolResult msg textParts),msg.timestamp⟩)

def SecondPass.handleToolResult (st : SecondPass) (msg : ToolResultMessage) : SecondPass :=
  if has st.toolCallStatus msg.toolCallId then st
  else if has st.pendingAbortedToolCalls msg.toolCallId then
    { st.push (.toolResult msg) with
      pendingAbortedToolCalls := remove st.pendingAbortedToolCalls msg.toolCallId
      toolCallStatus := put st.toolCallStatus msg.toolCallId .resolved }
  else if st.pendingToolCalls.any (fun call => call.id = msg.toolCallId) then
    { st.push (.toolResult msg) with
      toolCallStatus := put st.toolCallStatus msg.toolCallId .resolved }
  else if history.validToolUseIds.contains msg.toolCallId then st
  else st.handleOrphan msg

def dropsOriginal : Message → Bool
  | .assistant msg => shouldDropTruncatedThinkingOnlyAssistant msg
  | _ => false

def SecondPass.step (st : SecondPass) (original transformed : Message) : SecondPass :=
  match transformed with
  | .assistant msg => st.handleAssistant history (dropsOriginal original) msg
  | .toolResult msg => st.handleToolResult history msg
  | .user _ => (st.flushAll history transformed.timestamp).push transformed
  | .developer _ => (st.flushAll history transformed.timestamp).push transformed

def SecondPass.run (st : SecondPass) (entries : List (Message × Message)) : SecondPass :=
  entries.foldl (fun st entry => st.step history entry.1 entry.2) st

end Loop

/- `now` is the clock at the last flush. -/
def transformMessages (messages : List Message) (model : Model)
    (normalizeToolCallId : Option NormalizeToolCallId) (now : Int) : List Message :=
  let transformed := firstPass model normalizeToolCallId messages
  let history := indexHistory transformed
  ((SecondPass.start.run history (messages.zip transformed)).flushAll history now).result

end Providers
