import OpenAgents.Session.CompactionLoss

/- Running a prepared compaction: the prompts of the summarizer, the merge of its answers, and
   the file lists behind the summary. The summarizer and the rendered templates are opaque. -/
namespace Session
open JsText JsJson Conversation

/- File lists -/

def textBefore : JsString → JsString → Bool
  | [], [] => false
  | [], _ :: _ => true
  | _ :: _, [] => false
  | a :: s, b :: t => a < b || (a == b && textBefore s t)

def sortTexts (texts : List JsString) : List JsString := texts.mergeSort fun a b => !textBefore b a

structure FileLists where
  readFiles : List JsString
  modifiedFiles : List JsString
  deriving DecidableEq

def computeFileLists (fileOps : FileOperations) : FileLists :=
  let modified := (fileOps.edited ++ fileOps.written).foldl addPath []
  ⟨sortTexts (fileOps.read.filter fun f => f ∉ modified),sortTexts modified⟩

def fileOperationSummaryLimit : Nat := 20

def truncateFileList (files : List JsString) : List JsString :=
  if files.length ≤ fileOperationSummaryLimit then files
  else files.take fileOperationSummaryLimit ++
    [js "… (" ++ decimal (files.length - fileOperationSummaryLimit) ++ js " more files omitted)"]

/- What follows the first occurrence of a token. -/
def afterFirst (token : JsString) : JsString → Option JsString
  | [] => if token = [] then some [] else none
  | c :: rest =>
      if token.isPrefixOf (c :: rest) then some ((c :: rest).drop token.length) else afterFirst token rest

/- Every shortest stretch from an opening tag to a closing one goes, with the blanks behind it. -/
def removeTagged (openTag closeTag : JsString) : Nat → JsString → JsString
  | 0, text => text
  | _ + 1, [] => []
  | fuel + 1, c :: rest =>
      if openTag.isPrefixOf (c :: rest) then
        match afterFirst closeTag ((c :: rest).drop openTag.length) with
        | some after => removeTagged openTag closeTag fuel (after.dropWhile isWhitespace)
        | none => c :: removeTagged openTag closeTag fuel rest
      else c :: removeTagged openTag closeTag fuel rest

def stripFileOperationTags (summary : JsString) : JsString :=
  let withoutReadFiles := removeTagged (js "<read-files>") (js "</read-files>") summary.length summary
  let withoutModifiedFiles :=
    removeTagged (js "<modified-files>") (js "</modified-files>") withoutReadFiles.length withoutReadFiles
  trimEnd withoutModifiedFiles

/- Serialization -/

def toolResultMaxChars : Nat := 2000

def truncateForSummary (text : JsString) (maxChars : Nat) : JsString :=
  if text.length ≤ maxChars then text
  else text.take maxChars ++ js "\n\n[... " ++ decimal (text.length - maxChars) ++ js " more characters truncated]"

def labelled (label text : JsString) : List JsString := if text = [] then [] else [label ++ text]

def partTexts (parts : List ContentPart) : List JsString :=
  parts.filterMap fun part =>
    match part with
    | .text content => some content.text
    | .image _ => none

def callText (call : ToolCall) : JsString :=
  let fields := match call.arguments with
    | .obj fields => fields
    | _ => []
  call.name ++ js "(" ++
    (js ", ").intercalate (fields.map fun field => field.1 ++ js "=" ++ stringify field.2) ++ js ")"

def serializeMessage : Message → List JsString
  | .user message =>
      match message.content with
      | .plain text => labelled (js "[User]: ") text
      | .parts parts => labelled (js "[User]: ") (partTexts parts).flatten
  | .developer _ => []
  | .assistant message =>
      let thinkingParts := message.content.filterMap fun block =>
        match block with
        | .thinking content => some content.thinking
        | _ => none
      let textParts := message.content.filterMap fun block =>
        match block with
        | .text content => some content.text
        | _ => none
      let toolCalls := message.toolCalls.map callText
      (if thinkingParts = [] then [] else [js "[Assistant thinking]: " ++ joinLines thinkingParts]) ++
        (if textParts = [] then [] else [js "[Assistant]: " ++ joinLines textParts]) ++
        (if toolCalls = [] then [] else [js "[Assistant tool calls]: " ++ (js "; ").intercalate toolCalls])
  | .toolResult message =>
      let content := (partTexts message.content).flatten
      if content = [] then []
      else [js "[Tool result]: " ++ truncateForSummary content toolResultMaxChars]

def serializeConversation (messages : List Message) : JsString :=
  (js "\n\n").intercalate (messages.flatMap serializeMessage)

/- The summarizer -/

structure Prompts where
  summarizationSystem : JsString
  summarization : JsString
  updateSummarization : JsString
  shortSummary : JsString
  turnPrefix : JsString
  /- The rendered lists of read and of modified files. -/
  fileOperations : List JsString → List JsString → JsString

inductive OneshotKind where
  | compactionSummary
  | compactionShortSummary
  | compactionTurnPrefix
  deriving DecidableEq, Repr

structure Completion where
  response : AssistantMessage
  errorMessage : Option JsString

structure Services where
  /- Answers `none` when local inference is unavailable. -/
  onnxSummarizer : Option (JsString → Nat → Option JsString)
  /- Endpoint, system prompt, prompt. -/
  requestRemoteCompaction : JsString → JsString → JsString → Except JsString JsString
  complete : OneshotKind → JsString → JsString → Nat → Completion
  /- The remote history of the provider's own compaction, where it has one and answers. -/
  openAiRemoteCompaction : List Sourced → Option Json → Option Json

structure SummaryOptions where
  promptOverride : Option JsString
  extraContext : List JsString
  remoteEndpoint : Option JsString

section Summaries
variable (prompts : Prompts) (services : Services) (convertToLlm : List AgentMessage → List Message)

def formatFileOperations (files : FileLists) : JsString :=
  if files.readFiles = [] ∧ files.modifiedFiles = [] then []
  else prompts.fileOperations (truncateFileList files.readFiles) (truncateFileList files.modifiedFiles)

def upsertFileOperations (summary : JsString) (files : FileLists) : JsString :=
  let baseSummary := stripFileOperationTags summary
  let fileOperations := formatFileOperations prompts files
  if fileOperations = [] then baseSummary
  else if baseSummary = [] then fileOperations
  else baseSummary ++ js "\n\n" ++ fileOperations

def formatAdditionalContext (context : List JsString) : JsString :=
  if context = [] then []
  else js "<additional-context>\n" ++ joinLines (context.map fun line => js "- " ++ line) ++
    js "\n</additional-context>\n\n"

def conversationPrompt (messages : List Sourced) : JsString :=
  js "<conversation>\n" ++ serializeConversation (convertToLlm (messages.map Sourced.message)) ++
    js "\n</conversation>\n\n"

def previousSummaryPrompt (previousSummary : Option JsString) : JsString :=
  if truthy previousSummary then
    js "<previous-summary>\n" ++ previousSummary.getD [] ++ js "\n</previous-summary>\n\n"
  else []

def tryOnnxSummarization (promptText : JsString) (maxTokens : Nat) : Option JsString :=
  services.onnxSummarizer.bind fun summarize =>
    (summarize (prompts.summarizationSystem ++ js "\n\n" ++ promptText) maxTokens).filter
      fun text => !(trim text).isEmpty

def completionText (failure : JsString) (completion : Completion) : Except JsString JsString :=
  if completion.response.stopReason = .error then
    .error (failure ++ js ": " ++
      (if truthy completion.errorMessage then completion.errorMessage.getD [] else js "Unknown error"))
  else .ok (joinLines (completion.response.content.filterMap fun block =>
    match block with
    | .text content => some content.text
    | _ => none))

/- Local inference first, then the remote endpoint, then the model. -/
def oneshot (kind : OneshotKind) (failure promptText : JsString) (maxTokens : Nat)
    (remoteEndpoint : Option JsString) : Except JsString JsString :=
  match tryOnnxSummarization prompts services promptText maxTokens with
  | some text => .ok text
  | none =>
      if truthy remoteEndpoint then
        services.requestRemoteCompaction (remoteEndpoint.getD []) prompts.summarizationSystem promptText
      else completionText failure (services.complete kind prompts.summarizationSystem promptText maxTokens)

def generateSummary (currentMessages : List Sourced) (reserveTokens : Nat)
    (customInstructions previousSummary : Option JsString) (options : SummaryOptions) :
    Except JsString JsString :=
  let basePrompt := if truthy previousSummary then prompts.updateSummarization else prompts.summarization
  let basePrompt := if truthy options.promptOverride then options.promptOverride.getD [] else basePrompt
  let basePrompt :=
    if truthy customInstructions then basePrompt ++ js "\n\nAdditional focus: " ++ customInstructions.getD []
    else basePrompt
  let promptText := conversationPrompt convertToLlm currentMessages ++ previousSummaryPrompt previousSummary ++
    formatAdditionalContext options.extraContext ++ basePrompt
  oneshot prompts services .compactionSummary (js "Summarization failed") promptText (reserveTokens * 8 / 10)
    options.remoteEndpoint

def generateShortSummary (recentMessages : List Sourced) (historySummary : Option JsString)
    (reserveTokens : Nat) (options : SummaryOptions) : Except JsString JsString :=
  let promptText := conversationPrompt convertToLlm recentMessages ++ previousSummaryPrompt historySummary ++
    formatAdditionalContext options.extraContext ++ prompts.shortSummary
  oneshot prompts services .compactionShortSummary (js "Short summary failed") promptText
    (min 512 (reserveTokens * 2 / 10)) options.remoteEndpoint

/- Knows neither the remote endpoint nor the previous summary. -/
def generateTurnPrefixSummary (messages : List Sourced) (reserveTokens : Nat) : Except JsString JsString :=
  oneshot prompts services .compactionTurnPrefix (js "Turn prefix summarization failed")
    (conversationPrompt convertToLlm messages ++ prompts.turnPrefix) (reserveTokens * 5 / 10) none

/- Compaction -/

structure CompactionResult where
  summary : JsString
  shortSummary : JsString
  firstKeptEntryId : JsString
  tokensBefore : Nat
  details : FileLists
  preserveData : Option Json

def preserveKey : JsString := js "openaiRemoteCompaction"

def withOpenAiRemoteCompactionPreserveData (preserveData remoteCompaction : Option Json) : Option Json :=
  match remoteCompaction, preserveData with
  | some remote, some (.obj fields) => some (.obj (assignField fields preserveKey remote))
  | some remote, _ => some (.obj [(preserveKey, remote)])
  | none, some (.obj fields) =>
      if fields.any fun field => field.1 = preserveKey then
        let rest := fields.filter fun field => field.1 ≠ preserveKey
        if rest = [] then none else some (.obj rest)
      else some (.obj fields)
  | none, preserveData => preserveData

def summaryOptionsOf (settings : CompactionSettings) (options : SummaryOptions) : SummaryOptions :=
  { options with
    remoteEndpoint := if settings.remoteEnabled = some false then none else settings.remoteEndpoint }

def noPriorHistory : JsString := js "No prior history."

def turnContext : JsString := js "\n\n---\n\n**Turn Context (split turn):**\n\n"

/- The summaries merged into one, before the file lists are renewed. -/
def mergedSummary (preparation : CompactionPreparation) (customInstructions : Option JsString)
    (options : SummaryOptions) : Except JsString JsString :=
  let history := generateSummary prompts services convertToLlm preparation.messagesToSummarize
    preparation.settings.reserveTokens customInstructions preparation.previousSummary
    (summaryOptionsOf preparation.settings options)
  if preparation.isSplitTurn = true ∧ preparation.turnPrefixMessages ≠ [] then do
    let historyResult ← if preparation.messagesToSummarize ≠ [] then history else .ok noPriorHistory
    let turnPrefixResult ← generateTurnPrefixSummary prompts services convertToLlm
      preparation.turnPrefixMessages preparation.settings.reserveTokens
    .ok (historyResult ++ turnContext ++ turnPrefixResult)
  else if preparation.messagesToSummarize ≠ [] then history
  else if truthy preparation.previousSummary then .ok (preparation.previousSummary.getD [])
  else .ok noPriorHistory

/- The short summary is not given the caller's conversion of messages, nor its prompt. -/
def compact (defaultConvertToLlm : List AgentMessage → List Message) (preparation : CompactionPreparation)
    (customInstructions : Option JsString) (options : SummaryOptions) : Except JsString CompactionResult := do
  let summaryOptions := { summaryOptionsOf preparation.settings options with promptOverride := none }
  let remote :=
    if preparation.settings.remoteEnabled = some false then none
    else services.openAiRemoteCompaction
      (preparation.messagesToSummarize ++ preparation.turnPrefixMessages ++ preparation.recentMessages)
      preparation.previousPreserveData
  let preserveData := withOpenAiRemoteCompactionPreserveData preparation.previousPreserveData remote
  let summary ← mergedSummary prompts services convertToLlm preparation customInstructions options
  let shortSummary ← generateShortSummary prompts services defaultConvertToLlm preparation.recentMessages
    (some summary) preparation.settings.reserveTokens summaryOptions
  let files := computeFileLists preparation.fileOps
  let result : CompactionResult :=
    { summary := upsertFileOperations prompts summary files
      shortSummary := shortSummary
      firstKeptEntryId := preparation.firstKeptEntryId
      tokensBefore := preparation.tokensBefore
      details := files
      preserveData := preserveData }
  if preparation.firstKeptEntryId = [] then
    .error (js "First kept entry has no ID - session may need migration")
  else .ok result

/- The text holds the previous summary, or what a call that received it made of it. -/
def Carries (preparation : CompactionPreparation) (customInstructions : Option JsString)
    (options : SummaryOptions) (previousSummary text : JsString) : Prop :=
  previousSummary <:+: text ∨
    ∃ made, generateSummary prompts services convertToLlm preparation.messagesToSummarize
      preparation.settings.reserveTokens customInstructions (some previousSummary)
      (summaryOptionsOf preparation.settings options) = .ok made ∧ made <:+: text

variable {preparation : CompactionPreparation} {customInstructions : Option JsString} {options : SummaryOptions}

/-- What `compact` returns is the merged text with its file lists renewed. -/
theorem compact_ok {defaultConvertToLlm : List AgentMessage → List Message} {result : CompactionResult}
    (compacted : compact prompts services convertToLlm defaultConvertToLlm preparation customInstructions options =
      .ok result) :
    ∃ merged, mergedSummary prompts services convertToLlm preparation customInstructions options = .ok merged ∧
      result.summary = upsertFileOperations prompts merged (computeFileLists preparation.fileOps) ∧
      result.firstKeptEntryId = preparation.firstKeptEntryId ∧ preparation.firstKeptEntryId ≠ [] := by
  unfold compact at compacted
  cases summary : mergedSummary prompts services convertToLlm preparation customInstructions options with
  | error failure =>
    rw [summary] at compacted
    cases compacted
  | ok merged =>
    rw [summary] at compacted
    simp only [bind, Except.bind] at compacted
    split at compacted
    · cases compacted
    split at compacted
    · cases compacted
    rename_i named
    cases compacted
    exact ⟨merged,rfl,rfl,rfl,named⟩

theorem mergedSummary_carries {previousSummary merged : JsString}
    (previous : preparation.previousSummary = some previousSummary)
    (whole : preparation.isSplitTurn = false ∨ preparation.turnPrefixMessages = [] ∨
      preparation.messagesToSummarize ≠ [])
    (made : mergedSummary prompts services convertToLlm preparation customInstructions options = .ok merged) :
    Carries prompts services convertToLlm preparation customInstructions options previousSummary merged := by
  unfold mergedSummary at made
  dsimp only at made
  rw [previous] at made
  split at made
  · rename_i split_turn
    have history : preparation.messagesToSummarize ≠ [] := by
      rcases whole with unsplit | no_prefix | history
      · rw [unsplit] at split_turn
        cases split_turn.1
      · exact absurd no_prefix split_turn.2
      · exact history
    rw [if_pos history] at made
    simp only [bind, Except.bind] at made
    split at made
    · cases made
    rename_i historyResult generated
    split at made
    · cases made
    cases made
    right
    refine ⟨historyResult,generated,?_⟩
    rw [List.append_assoc]
    exact (List.prefix_append historyResult _).isInfix
  · split at made
    · exact .inr ⟨merged,made,List.infix_rfl⟩
    · split at made
      · cases made
        exact .inl List.infix_rfl
      · rename_i empty
        have nothing : previousSummary = [] := by simpa [truthy] using empty
        rw [nothing]
        exact .inl (List.nil_infix)

theorem upsert_keeps_plain {merged : JsString} (plain : stripFileOperationTags merged = merged) (files : FileLists) :
    merged <+: upsertFileOperations prompts merged files := by
  unfold upsertFileOperations
  rw [plain]
  dsimp only
  split
  · exact List.prefix_rfl
  · split
    · rename_i empty
      rw [empty]
      exact List.nil_prefix
    · rw [List.append_assoc]
      exact List.prefix_append merged _

/- A summarizer that says nothing of a turn's beginning, and more than the fixed text otherwise. -/
def terseAnswer (kind : OneshotKind) : List AssistantBlock :=
  if kind = .compactionTurnPrefix then [] else [.text ⟨noPriorHistory ++ turnContext ++ js "x",none⟩]

def terse : Services where
  onnxSummarizer := none
  requestRemoteCompaction _ _ _ := .ok (noPriorHistory ++ turnContext ++ js "x")
  complete kind _ _ _ := ⟨⟨terseAnswer kind,js "api",js "provider",js "model",.stop,0⟩,none⟩
  openAiRemoteCompaction _ _ := none

theorem terse_summary (kind : OneshotKind) (failure promptText : JsString) (maxTokens : Nat)
    (remoteEndpoint : Option JsString) (whole : kind ≠ .compactionTurnPrefix) :
    oneshot prompts terse kind failure promptText maxTokens remoteEndpoint =
      .ok (noPriorHistory ++ turnContext ++ js "x") := by
  unfold oneshot
  have offline : tryOnnxSummarization prompts terse promptText maxTokens = none := rfl
  rw [offline]
  dsimp only
  split
  · rfl
  · simp [terse, completionText, terseAnswer, whole, joinLines]

theorem terse_turnPrefix (failure promptText : JsString) (maxTokens : Nat) :
    oneshot prompts terse .compactionTurnPrefix failure promptText maxTokens none = .ok [] := rfl

end Summaries

def plainPrompts : Prompts := ⟨[],[],[],[],[],fun _ _ => []⟩

def noOptions : SummaryOptions := ⟨none,[],none⟩

def saying (id : JsString) (parentId : Option JsString) (text : JsString) : SessionEntry :=
  ⟨id,parentId,0,.message (.assistant ⟨[.text ⟨text,none⟩],js "api",js "provider",js "model",.stop,0⟩ none)⟩

/- One whole message behind a compaction is cut off. -/
def cutAfterMessage : List SessionEntry :=
  [compactionEntry (js "a") none (js "a"), userEntry (js "b") (some (js "a")) (js "x"),
    userEntry (js "c") (some (js "b")) (js "y")]

/- The first turn behind a compaction is split. -/
def firstTurnSplit : List SessionEntry :=
  [compactionEntry (js "a") none (js "a"), userEntry (js "b") (some (js "a")) (js "x"),
    saying (js "c") (some (js "b")) (js "y"), saying (js "d") (some (js "c")) (js "z")]

end Session
