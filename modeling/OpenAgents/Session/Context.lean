import OpenAgents.Session.Entries
import OpenAgents.Lib.OrderedMap
import OpenAgents.Lib.ParentChain

/- The context of a session: the path from a leaf to the root, its settings, and
   the messages it sends to the model. -/
namespace Session
open JsText JsJson Conversation OrderedMap ParentChain

structure SessionContext where
  messages : List Sourced
  thinkingLevel : JsString
  serviceTier : Option JsString
  models : OMap JsString JsString
  injectedTtsrRules : List JsString
  selectedMCPToolNames : List JsString
  hasPersistedMCPToolSelection : Bool
  mode : JsString
  modeData : Option Json
  deriving DecidableEq

def SessionContext.empty : SessionContext :=
  ⟨[],js "off",none,[],[],[],false,js "none",none⟩

/- Settings -/

structure PathSettings where
  context : SessionContext
  hasExplicitDefaultModel : Bool

def addRules (rules names : List JsString) : List JsString :=
  names.foldl (fun known name => if name ∈ known then known else known ++ [name]) rules

def PathSettings.note (s : PathSettings) (entry : SessionEntry) : PathSettings :=
  match entry.body with
  | .thinkingLevelChange level =>
      { s with context := { s.context with thinkingLevel := level.getD (js "off") } }
  | .modelChange model role =>
      if model = [] then s
      else
        let role := role.getD (js "default")
        { context := { s.context with models := put s.context.models role model }
          hasExplicitDefaultModel := s.hasExplicitDefaultModel || role = js "default" }
  | .serviceTierChange tier => { s with context := { s.context with serviceTier := tier } }
  | .message (.assistant message _) =>
      if s.hasExplicitDefaultModel then s
      else
        { s with
          context := { s.context with
            models := put s.context.models (js "default") (message.provider ++ js "/" ++ message.model) } }
  | .ttsrInjection rules =>
      { s with context := { s.context with injectedTtsrRules := addRules s.context.injectedTtsrRules rules } }
  | .mcpToolSelection names =>
      { s with
        context := { s.context with selectedMCPToolNames := names, hasPersistedMCPToolSelection := true } }
  | .modeChange mode data => { s with context := { s.context with mode := mode, modeData := data } }
  | _ => s

def pathSettings (path : List SessionEntry) : SessionContext :=
  (path.foldl PathSettings.note ⟨.empty,false⟩).context

/- Messages -/

/-- The message an entry adds; an empty branch summary adds none. -/
def appendMessage (entry : SessionEntry) : Option Sourced :=
  match entry.body with
  | .message message => some ⟨entry,message⟩
  | .customMessage customType content display details attribution =>
      some ⟨entry,createCustomMessage customType content display details entry.timestamp attribution⟩
  | .branchSummary fromId summary =>
      if summary = [] then none else some ⟨entry,createBranchSummaryMessage summary fromId entry.timestamp⟩
  | _ => none

/- The replacement history of a remote compaction. -/
def Compaction.providerPayload (c : Compaction) : Option ProviderPayload :=
  match (c.preserveData.bind fun data => data.field? (js "openaiRemoteCompaction")) with
  | some remote =>
      match remote.field? (js "provider"), remote.field? (js "replacementHistory") with
      | some (.str provider), some (.arr items) => if provider = [] then none else some ⟨provider,items⟩
      | _, _ => none
  | none => none

def Compaction.summaryMessage (c : Compaction) (timestamp : Int) : AgentMessage :=
  createCompactionSummaryMessage c.summary c.tokensBefore timestamp c.shortSummary c.providerPayload

def keptFrom (path : List SessionEntry) (firstKeptEntryId : JsString) : List SessionEntry :=
  path.dropWhile fun e => e.id ≠ firstKeptEntryId

def latestCompaction (path : List SessionEntry) : Option (SessionEntry × Compaction) :=
  path.reverse.findSome? fun e => e.compaction?.map fun c => (e, c)

def emittedMessages (path : List SessionEntry) : List Sourced :=
  match latestCompaction path with
  | some (entry, c) =>
      let compactionIdx := path.findIdx fun e => e.isCompaction && e.id = entry.id
      let summary := ⟨entry,c.summaryMessage entry.timestamp⟩
      let kept :=
        if c.providerPayload.isSome then []
        else (keptFrom (path.take compactionIdx) c.firstKeptEntryId).filterMap appendMessage
      summary :: kept ++ (path.drop (compactionIdx + 1)).filterMap appendMessage
  | none => path.filterMap appendMessage

/- Dangling tool calls -/

def AgentMessage.toolResultId : AgentMessage → Option JsString
  | .toolResult message => some message.toolCallId
  | _ => none

def pairedToolResultIds (messages : List Sourced) : List JsString :=
  messages.filterMap fun s => s.message.toolResultId

def isDangling (paired : List JsString) : AssistantBlock → Bool
  | .toolCall call => decide (call.id ∉ paired)
  | _ => false

def neutralize : AssistantBlock → AssistantBlock
  | .thinking content =>
      if truthy content.thinkingSignature then .thinking { content with thinkingSignature := none }
      else .thinking content
  | block => block

def normalizeBlocks (paired : List JsString) (content : List AssistantBlock) : List AssistantBlock :=
  (content.filter fun block => !isDangling paired block && !(block matches .redactedThinking _)).map neutralize

/-- The turn without its dangling tool calls; none when no content is left. -/
def stripDangling (paired : List JsString) : AgentMessage → Option AgentMessage
  | .assistant message usage =>
      if message.content.any (isDangling paired) then
        let normalized := normalizeBlocks paired message.content
        if normalized = [] then none else some (.assistant { message with content := normalized } usage)
      else some (.assistant message usage)
  | message => some message

def contextMessages (path : List SessionEntry) : List Sourced :=
  let messages := emittedMessages path
  messages.filterMap fun s =>
    (stripDangling (pairedToolResultIds messages) s.message).map fun message => ⟨s.entry,message⟩

def pathContext (path : List SessionEntry) : SessionContext :=
  { pathSettings path with messages := contextMessages path }

/- Tree -/

def indexById (entries : List SessionEntry) : OMap JsString SessionEntry :=
  ofList (entries.map fun e => (e.id, e))

/- An absent or empty id has no entry. -/
def lookupId (byId : OMap JsString SessionEntry) (id : Option JsString) : Option SessionEntry :=
  id.bind fun id => if id = [] then none else get? byId id

def parentEntry (byId : OMap JsString SessionEntry) (entry : SessionEntry) : Option SessionEntry :=
  lookupId byId entry.parentId

/-- Every entry from the start up to its root, root first; none when the parents run in a cycle. -/
def pathFrom (byId : OMap JsString SessionEntry) (start : Option SessionEntry) :
    Option (List SessionEntry) :=
  climb (parentEntry byId) (byId.length + 1) start

inductive LeafId where
  | undefined
  | null
  | named (id : JsString)
  deriving DecidableEq

def LeafId.text : LeafId → Option JsString
  | .named id => some id
  | _ => none

def buildSessionContext (entries : List SessionEntry) (leafId : LeafId)
    (byId : Option (OMap JsString SessionEntry)) : Option SessionContext :=
  let byId := byId.getD (indexById entries)
  if leafId = .null then some .empty
  else
    let leaf := (lookupId byId leafId.text).or entries.getLast?
    if leaf = none then some .empty else (pathFrom byId leaf).map pathContext

end Session

/- Entry lists as indexes, and paths from a root to a leaf. -/
namespace Session
open JsText OrderedMap ParentChain

/- Index -/

def index (entries : List SessionEntry) : OMap JsString SessionEntry := entries.map fun e => (e.id, e)

variable {entries path : List SessionEntry} {e : SessionEntry}

theorem indexById_eq (distinct : (entries.map SessionEntry.id).Nodup) : indexById entries = index entries := by
  refine ofList_distinct _ ?_
  rw [List.map_map]
  exact distinct

theorem index_keys (entries : List SessionEntry) :
    (index entries).map Prod.fst = entries.map SessionEntry.id := by
  rw [index, List.map_map]
  rfl

theorem lookup_index (distinct : (entries.map SessionEntry.id).Nodup) (mem : e ∈ entries) (named : e.id ≠ []) :
    lookupId (index entries) (some e.id) = some e := by
  have keys : ((index entries).map Prod.fst).Nodup := by
    rw [index_keys]
    exact distinct
  rw [lookupId, Option.bind_some, if_neg named, get?_of_mem keys (List.mem_map_of_mem mem)]

theorem lookup_source {id : Option JsString} (found : lookupId (index entries) id = some e) : e ∈ entries ∧ id = some e.id := by
  obtain ⟨key,rfl,here⟩ := Option.bind_eq_some_iff.mp found
  split at here
  · cases here
  obtain ⟨entry,mem,same⟩ := List.mem_map.mp (get?_some_mem here)
  cases same
  exact ⟨mem,rfl⟩

/- Paths -/

/-- A path from a root to a leaf, as the entries of a session. -/
structure SessionPath (path : List SessionEntry) : Prop where
  distinct : (path.map SessionEntry.id).Nodup
  named : ∀ e ∈ path, e.id ≠ []
  linked : path.IsChain fun parent child => child.parentId = some parent.id
  root : ∀ e ∈ path.head?, e.parentId = none

theorem SessionPath.before {last : SessionEntry} (whole : SessionPath (path ++ [last])) : SessionPath path where
  distinct := by
    have distinct := whole.distinct
    rw [List.map_append] at distinct
    exact distinct.of_append_left
  named := fun e mem => whole.named e (List.mem_append_left _ mem)
  linked := (List.isChain_append.mp whole.linked).1
  root := by
    intro e first
    refine whole.root e ?_
    cases path with
    | nil => cases first
    | cons x rest => exact first

theorem SessionPath.trail (is_path : SessionPath path) :
    Trail (parentEntry (index path)) path where
  linked := by
    refine is_path.linked.imp_of_mem_imp ?_
    intro parent child parent_mem _ link
    rw [parentEntry, link, lookup_index is_path.distinct parent_mem (is_path.named parent parent_mem)]
  root := by
    intro e first
    rw [parentEntry, is_path.root e first]
    rfl

/-- As the entries of a session of its own, a path is its own branch. -/
theorem SessionPath.pathFrom_last (is_path : SessionPath path) : pathFrom (index path) path.getLast? = some path := by
  refine climb_trail is_path.trail ?_
  simp [index]

theorem buildSessionContext_path (is_path : SessionPath path) (filled : path ≠ []) :
    buildSessionContext path .undefined none = some (pathContext path) := by
  obtain ⟨leaf,last⟩ : ∃ leaf, path.getLast? = some leaf :=
    ⟨path.getLast filled,List.getLast?_eq_getLast_of_ne_nil filled⟩
  have climbed := is_path.pathFrom_last
  rw [last] at climbed
  simp [buildSessionContext, LeafId.text, lookupId, last, indexById_eq is_path.distinct, climbed]

/- Emitted messages -/

theorem compaction?_of_not (not_compaction : e.isCompaction = false) : e.compaction? = none := by
  unfold SessionEntry.isCompaction at not_compaction
  simpa using not_compaction

theorem emitted_plain (plain : ∀ e ∈ path, e.isCompaction = false) :
    emittedMessages path = path.filterMap appendMessage := by
  have latest : latestCompaction path = none := by
    rw [latestCompaction, List.findSome?_eq_none_iff]
    intro e mem
    rw [compaction?_of_not (plain e (List.mem_reverse.mp mem))]
    rfl
  rw [emittedMessages, latest]

theorem emitted_split {front : List SessionEntry} {entry : SessionEntry} {back : List SessionEntry}
    {c : Compaction} (distinct : ((front ++ entry :: back).map SessionEntry.id).Nodup)
    (body : entry.compaction? = some c) (plain : ∀ e ∈ back, e.isCompaction = false) :
    emittedMessages (front ++ entry :: back) = ⟨entry,c.summaryMessage entry.timestamp⟩ ::
      (if c.providerPayload.isSome then []
      else (keptFrom front c.firstKeptEntryId).filterMap appendMessage) ++
        back.filterMap appendMessage := by
  have latest : latestCompaction (front ++ entry :: back) = some (entry, c) := by
    have later : back.reverse.findSome? (fun e => e.compaction?.map fun c => (e, c)) = none := by
      rw [List.findSome?_eq_none_iff]
      intro e mem
      rw [compaction?_of_not (plain e (List.mem_reverse.mp mem))]
      rfl
    rw [latestCompaction, List.reverse_append, List.reverse_cons, List.append_assoc, List.findSome?_append,
      later]
    simp [body]
  have fresh : ∀ e ∈ front, ¬ e.id = entry.id := by
    intro e mem same
    rw [List.map_append, List.nodup_append] at distinct
    exact distinct.2.2 e.id (List.mem_map_of_mem mem) entry.id (by simp) same
  have here : (front ++ entry :: back).findIdx (fun e => e.isCompaction && e.id = entry.id) =
      front.length := by
    have absent : front.findIdx (fun e => e.isCompaction && e.id = entry.id) = front.length := by
      refine List.findIdx_eq_length.mpr ?_
      intro e mem
      simp [fresh e mem]
    rw [List.findIdx_append, absent]
    simp [SessionEntry.isCompaction, body, List.findIdx_cons]
  simp [emittedMessages, latest, here]

end Session
