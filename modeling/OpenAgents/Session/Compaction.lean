import OpenAgents.Session.Entries
import OpenAgents.Lib.LastIndex
import OpenAgents.Lib.OrderedMap
import Mathlib.Algebra.GroupWithZero.Nat

/- Preparing a compaction: token estimates, the cut point, and what is handed to
   the summarizer. Token counts come from the native tokenizer. -/
namespace Session
open JsText JsJson Conversation LastIndex

/- Messages of entries -/

def getMessageFromEntry (entry : SessionEntry) : Option AgentMessage :=
  match entry.body with
  | .message message => some message
  | .customMessage customType content display details attribution =>
      some (createCustomMessage customType content display details entry.timestamp attribution)
  | .branchSummary fromId summary => some (createBranchSummaryMessage summary fromId entry.timestamp)
  | _ => none

def messagesFrom (entries : List SessionEntry) : List Sourced :=
  entries.filterMap fun entry => (getMessageFromEntry entry).map fun message => ⟨entry,message⟩

/- Usage -/

def calculateContextTokens (usage : Usage) : Nat :=
  if usage.totalTokens ≠ 0 then usage.totalTokens
  else usage.input + usage.output + usage.cacheRead + usage.cacheWrite

def calculatePromptTokens (usage : Usage) : Nat :=
  let promptTokens := usage.input + usage.cacheRead + usage.cacheWrite
  if 0 < promptTokens then promptTokens else calculateContextTokens usage

def getAssistantUsage : AgentMessage → Option Usage
  | .assistant message usage =>
      if message.stopReason = .aborted ∨ message.stopReason = .error then none else usage
  | _ => none

def entryUsage (entry : SessionEntry) : Option Usage :=
  match entry.body with
  | .message message => getAssistantUsage message
  | _ => none

def getLastAssistantUsage (entries : List SessionEntry) : Option Usage :=
  entries.reverse.findSome? entryUsage

/- Token estimates -/

def imageTokenEstimate : Nat := 1200

def nonEmpty (text : JsString) : Option JsString := if text = [] then none else some text

def userFragments : MessageContent → List JsString
  | .plain text => [text]
  | .parts parts => parts.filterMap fun part =>
      match part with
      | .text content => nonEmpty content.text
      | .image _ => none

def assistantFragments (content : List AssistantBlock) : List JsString :=
  content.flatMap fun block =>
    match block with
    | .text content => [content.text]
    | .thinking content => [content.thinking]
    | .toolCall call => [call.name, stringify call.arguments]
    | .redactedThinking _ => []

def imageCount (parts : List ContentPart) : Nat := parts.countP fun part => part matches .image _

section Estimates
variable (countTokens : List JsString → Nat)

def countFragments (fragments : List JsString) : Nat := if fragments = [] then 0 else countTokens fragments

def partsTokens (parts : List ContentPart) : Nat :=
  imageTokenEstimate * imageCount parts + countFragments countTokens (userFragments (.parts parts))

def estimateTokens : AgentMessage → Nat
  | .bashExecution message => countTokens [message.command, message.output]
  | .user message => countFragments countTokens (userFragments message.content)
  | .assistant message _ => countFragments countTokens (assistantFragments message.content)
  | .hookMessage message =>
      match message.content with
      | .plain text => countTokens [text]
      | .parts parts => partsTokens countTokens parts
  | .toolResult message => partsTokens countTokens message.content
  | .branchSummary message => countTokens [message.summary]
  | .compactionSummary message => countTokens [message.summary]
  | _ => 0

def slice (entries : List SessionEntry) (startIndex endIndex : Nat) : List SessionEntry :=
  (entries.take endIndex).drop startIndex

def estimateEntriesTokens (entries : List SessionEntry) (startIndex endIndex : Nat) : Nat :=
  ((messagesFrom (slice entries startIndex endIndex)).map fun s => estimateTokens countTokens s.message).sum

/- Cut points -/

/-- User, assistant, bash and summary messages; never a tool result. -/
def isCutPoint (entry : SessionEntry) : Bool :=
  match entry.body with
  | .message (.bashExecution _) | .message (.hookMessage _) | .message (.branchSummary _)
  | .message (.compactionSummary _) | .message (.user _) | .message (.assistant _ _) => true
  | .branchSummary _ _ | .customMessage _ _ _ _ _ => true
  | _ => false

def findValidCutPoints (entries : List SessionEntry) (startIndex endIndex : Nat) : List Nat :=
  (List.range' startIndex (endIndex - startIndex)).filter fun i => (entries[i]?).any isCutPoint

def startsTurn (entry : SessionEntry) : Bool :=
  match entry.body with
  | .branchSummary _ _ | .customMessage _ _ _ _ _ => true
  | .message (.user _) | .message (.bashExecution _) => true
  | _ => false

/- The latest turn start at or before `entryIndex`; the source writes -1 for none. -/
def findTurnStartIndex (entries : List SessionEntry) (entryIndex startIndex : Nat) : Option Nat :=
  (lastIndex startsTurn (slice entries startIndex (entryIndex + 1))).map (startIndex + ·)

structure CutPointResult where
  firstKeptEntryIndex : Nat
  turnStartIndex : Option Nat
  isSplitTurn : Bool
  deriving DecidableEq, Repr

/- Where the messages counted from the end reach the budget. -/
def budgetIndex (entries : List SessionEntry) (startIndex keepRecentTokens : Nat) : Nat → Nat → Option Nat
  | 0, _ => none
  | steps + 1, accumulatedTokens =>
      match (entries[startIndex + steps]?).map SessionEntry.body with
      | some (.message message) =>
          let accumulatedTokens := accumulatedTokens + estimateTokens countTokens message
          if keepRecentTokens ≤ accumulatedTokens then some (startIndex + steps)
          else budgetIndex entries startIndex keepRecentTokens steps accumulatedTokens
      | _ => budgetIndex entries startIndex keepRecentTokens steps accumulatedTokens

/- Entries that are neither messages nor compactions go with what follows them. -/
def scanBack (entries : List SessionEntry) (startIndex : Nat) : Nat → Nat
  | 0 => 0
  | i + 1 =>
      if startIndex < i + 1 ∧ (entries[i]?).any fun e => !e.isCompaction && !e.isMessage then
        scanBack entries startIndex i
      else i + 1

def isUserEntry (entry : SessionEntry) : Bool := entry.body matches .message (.user _)

/- The first cut point from where the budget is reached on, by default the first of all. -/
def budgetCut (entries : List SessionEntry) (startIndex endIndex keepRecentTokens : Nat) : Nat :=
  match findValidCutPoints entries startIndex endIndex with
  | [] => startIndex
  | first :: rest =>
      let reached := budgetIndex countTokens entries startIndex keepRecentTokens (endIndex - startIndex) 0
      (reached.bind fun i => (first :: rest).find? fun c => i ≤ c).getD first

def findCutPoint (entries : List SessionEntry) (startIndex endIndex keepRecentTokens : Nat) :
    CutPointResult :=
  match findValidCutPoints entries startIndex endIndex with
  | [] => ⟨startIndex,none,false⟩
  | first :: rest =>
      let cutPoints := first :: rest
      let reached := budgetIndex countTokens entries startIndex keepRecentTokens (endIndex - startIndex) 0
      let cutIndex := (reached.bind fun i => cutPoints.find? fun c => i ≤ c).getD first
      let cutIndex := scanBack entries startIndex cutIndex
      let isUserMessage := (entries[cutIndex]?).any isUserEntry
      let turnStartIndex := if isUserMessage then none else findTurnStartIndex entries cutIndex startIndex
      ⟨cutIndex,turnStartIndex,!isUserMessage && turnStartIndex.isSome⟩

/- File operations -/

structure FileOperations where
  read : List JsString
  written : List JsString
  edited : List JsString
  deriving DecidableEq

def createFileOps : FileOperations := ⟨[],[],[]⟩

def addPath (paths : List JsString) (path : JsString) : List JsString :=
  if path ∈ paths then paths else paths ++ [path]

def FileOperations.noteCall (ops : FileOperations) (call : ToolCall) : FileOperations :=
  match call.arguments.field? (js "path") with
  | some (.str path) =>
      if path = [] then ops
      else if call.name = js "read" then { ops with read := addPath ops.read path }
      else if call.name = js "write" then { ops with written := addPath ops.written path }
      else if call.name = js "edit" then { ops with edited := addPath ops.edited path }
      else ops
  | _ => ops

def extractFileOpsFromMessage (ops : FileOperations) : AgentMessage → FileOperations
  | .assistant message _ => message.toolCalls.foldl FileOperations.noteCall ops
  | _ => ops

/- The texts of an array field; entries of another type are not modelled. -/
def textsOf (details : Json) (key : JsString) : List JsString :=
  match details.field? key with
  | some (.arr items) => items.filterMap fun item =>
      match item with
      | .str text => some text
      | _ => none
  | _ => []

def extractFileOperations (messages : List Sourced) (prevCompaction : Option Compaction) : FileOperations :=
  let fileOps :=
    match prevCompaction with
    | some c =>
        match c.details with
        | some details =>
            if c.fromExtension then createFileOps
            else ⟨(textsOf details (js "readFiles")).foldl addPath [],[],
              (textsOf details (js "modifiedFiles")).foldl addPath []⟩
        | none => createFileOps
    | none => createFileOps
  messages.foldl (fun ops s => extractFileOpsFromMessage ops s.message) fileOps

/- Preparation -/

structure CompactionSettings where
  reserveTokens : Nat
  keepRecentTokens : Nat
  remoteEnabled : Option Bool
  remoteEndpoint : Option JsString
  deriving DecidableEq

structure CompactionPreparation where
  firstKeptEntryId : JsString
  messagesToSummarize : List Sourced
  turnPrefixMessages : List Sourced
  recentMessages : List Sourced
  isSplitTurn : Bool
  tokensBefore : Nat
  previousSummary : Option JsString
  previousPreserveData : Option Json
  fileOps : FileOperations
  settings : CompactionSettings
  deriving DecidableEq

/- The index of the last compaction. -/
def prevCompactionIndex (pathEntries : List SessionEntry) : Option Nat :=
  lastIndex SessionEntry.isCompaction pathEntries

/- The budget shrinks by the ratio of billed to estimated tokens, an exact quotient here. -/
def scaledBudget (keepRecentTokens estimatedTokens promptTokens : Nat) : Nat :=
  if 0 < estimatedTokens ∧ estimatedTokens < promptTokens then
    max 1 (keepRecentTokens * estimatedTokens / promptTokens)
  else keepRecentTokens

/- Where the path is cut: only what stands behind the last compaction is looked at. -/
def boundaryStart (pathEntries : List SessionEntry) : Nat :=
  ((prevCompactionIndex pathEntries).map (· + 1)).getD 0

def preparedCut (pathEntries : List SessionEntry) (settings : CompactionSettings) : CutPointResult :=
  let boundaryEnd := pathEntries.length
  let keepRecentTokens :=
    match getLastAssistantUsage pathEntries with
    | some usage =>
        scaledBudget settings.keepRecentTokens
          (estimateEntriesTokens countTokens pathEntries (boundaryStart pathEntries) boundaryEnd)
          (calculatePromptTokens usage)
    | none => settings.keepRecentTokens
  findCutPoint countTokens pathEntries (boundaryStart pathEntries) boundaryEnd keepRecentTokens

def preparationAt (pathEntries : List SessionEntry) (settings : CompactionSettings)
    (cutPoint : CutPointResult) (firstKeptEntryId : JsString) : Option CompactionPreparation :=
  let historyEnd :=
    (if cutPoint.isSplitTurn then cutPoint.turnStartIndex else none).getD cutPoint.firstKeptEntryIndex
  let messagesToSummarize := messagesFrom (slice pathEntries (boundaryStart pathEntries) historyEnd)
  let turnPrefixMessages :=
    if cutPoint.isSplitTurn then messagesFrom (slice pathEntries historyEnd cutPoint.firstKeptEntryIndex)
    else []
  let recentMessages :=
    messagesFrom (slice pathEntries cutPoint.firstKeptEntryIndex pathEntries.length)
  if messagesToSummarize = [] ∧ turnPrefixMessages = [] then none
  else
    let prevCompaction :=
      (prevCompactionIndex pathEntries).bind fun i => (pathEntries[i]?).bind SessionEntry.compaction?
    let fileOps := extractFileOperations messagesToSummarize prevCompaction
    some
      { firstKeptEntryId := firstKeptEntryId
        messagesToSummarize := messagesToSummarize
        turnPrefixMessages := turnPrefixMessages
        recentMessages := recentMessages
        isSplitTurn := cutPoint.isSplitTurn
        tokensBefore := ((getLastAssistantUsage pathEntries).map calculateContextTokens).getD 0
        previousSummary := prevCompaction.map Compaction.summary
        previousPreserveData := prevCompaction.bind Compaction.preserveData
        fileOps := turnPrefixMessages.foldl (fun ops s => extractFileOpsFromMessage ops s.message) fileOps
        settings := settings }

def prepareCompaction (pathEntries : List SessionEntry) (settings : CompactionSettings) :
    Option CompactionPreparation :=
  if (pathEntries.getLast?).any SessionEntry.isCompaction then none
  else
    let cutPoint := preparedCut countTokens pathEntries settings
    match pathEntries[cutPoint.firstKeptEntryIndex]? with
    | none => none
    | some firstKeptEntry =>
        -- A session without ids needs migration.
        if firstKeptEntry.id = [] then none
        else preparationAt pathEntries settings cutPoint firstKeptEntry.id

end Estimates

end Session

/- Tool results that context reduction leaves alone, and entries that may carry its stamp. -/
namespace Session
open JsText JsJson Conversation OrderedMap

/-- A session entry, with the time at which its tool result was pruned. -/
structure StampedEntry where
  entry : SessionEntry
  prunedAt : Option Int
  deriving DecidableEq

def getToolResultMessage (entry : SessionEntry) : Option ToolResultMessage :=
  match entry.body with
  | .message (.toolResult message) => some message
  | _ => none

def entryToolCalls (entry : SessionEntry) : List ToolCall :=
  match entry.body with
  | .message (.assistant message _) => message.toolCalls
  | _ => []

def collectToolCallsById (entries : List SessionEntry) : OMap JsString ToolCall :=
  ofList ((entries.flatMap entryToolCalls).map fun call => (call.id, call))

inductive ProtectedToolMatcher where
  | tool (toolName : JsString)
  | predicate (matches? : ToolResultMessage → Option ToolCall → Bool)

def skillInternalUrlPrefix : JsString := js "skill://"

def isSkillReadToolResult (toolResult : ToolResultMessage) (toolCall : Option ToolCall) : Bool :=
  match toolCall with
  | some call =>
      toolResult.toolName = js "read" && call.name = js "read" &&
        (match call.arguments.field? (js "path") with
        | some (.str path) => startsWith path skillInternalUrlPrefix
        | _ => false)
  | none => false

def isProtectedToolResult (toolResult : ToolResultMessage) (toolCall : Option ToolCall)
    (matchers : List ProtectedToolMatcher) : Bool :=
  matchers.any fun matcher =>
    match matcher with
    | .tool toolName => toolResult.toolName = toolName
    | .predicate matches? => matches? toolResult toolCall

/- What a replaced tool result says. -/
def StampedEntry.replaceResult (e : StampedEntry) (text : JsString) (now : Int) : StampedEntry :=
  match e.entry.body with
  | .message (.toolResult message) =>
      { entry := { e.entry with body := .message (.toolResult { message with content := [.text ⟨text,none⟩] }) }
        prunedAt := some now }
  | _ => e

theorem replaceResult_calls (e : StampedEntry) (text : JsString) (now : Int) :
    entryToolCalls (e.replaceResult text now).entry = entryToolCalls e.entry := by
  unfold StampedEntry.replaceResult
  split
  · rename_i message body
    simp [entryToolCalls, body]
  · rfl

end Session
