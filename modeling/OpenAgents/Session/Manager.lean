import OpenAgents.Session.Context

/- The session manager in memory: an append-only tree of entries with a leaf, and
   the operations that cut it down to one branch. -/
namespace Session
open JsText JsJson Conversation OrderedMap ParentChain

/-- What one call of the id generator may draw. -/
structure IdSource where
  randomUUIDs : List JsString
  snowflake : JsString

/-- The first of a hundred draws that is not in use, else a snowflake. -/
def generateId (source : IdSource) (used : List JsString) : JsString :=
  ((source.randomUUIDs.take 100).find? fun id => id ∉ used).getD source.snowflake

structure SessionHeader where
  version : Nat
  id : JsString
  title : Option JsString
  titleSource : Option JsString
  timestamp : Int
  cwd : JsString
  parentSession : Option JsString
  deriving DecidableEq

def currentSessionVersion : Nat := 3

inductive FileEntry where
  | session (header : SessionHeader)
  | entry (entry : SessionEntry)
  deriving DecidableEq

def FileEntry.entry? : FileEntry → Option SessionEntry
  | .entry e => some e
  | .session _ => none

def FileEntry.header? : FileEntry → Option SessionHeader
  | .entry _ => none
  | .session header => some header

structure SessionManager where
  cwd : JsString
  persist : Bool
  sessionId : JsString
  sessionFile : Option JsString
  flushed : Bool
  needsFullRewriteOnNextPersist : Bool
  fileEntries : List FileEntry
  byId : OMap JsString SessionEntry
  labelsById : OMap JsString JsString
  leafId : Option JsString
  deriving DecidableEq

namespace SessionManager

def newSession (cwd sessionId : JsString) (persist : Bool) (sessionFile parentSession : Option JsString)
    (now : Int) : SessionManager :=
  { cwd := cwd, persist := persist, sessionId := sessionId
    sessionFile := if persist then sessionFile else none
    flushed := false, needsFullRewriteOnNextPersist := false
    fileEntries := [.session ⟨currentSessionVersion,sessionId,none,none,now,cwd,parentSession⟩]
    byId := [], labelsById := [], leafId := none }

def getEntries (mgr : SessionManager) : List SessionEntry := mgr.fileEntries.filterMap FileEntry.entry?

def getHeader (mgr : SessionManager) : Option SessionHeader := mgr.fileEntries.findSome? FileEntry.header?

def usedIds (mgr : SessionManager) : List JsString := mgr.byId.map Prod.fst

/- Appending -/

def appendEntry (mgr : SessionManager) (entry : SessionEntry) : SessionManager :=
  { mgr with
    fileEntries := mgr.fileEntries ++ [.entry entry]
    byId := put mgr.byId entry.id entry
    leafId := some entry.id }

/-- The new entry is a child of the leaf and becomes the leaf. -/
def appendBody (mgr : SessionManager) (source : IdSource) (now : Int) (body : EntryBody) : SessionManager :=
  mgr.appendEntry ⟨generateId source mgr.usedIds,mgr.leafId,now,body⟩

section Appends
variable (mgr : SessionManager) (source : IdSource) (now : Int)

def appendMessage (message : AgentMessage) : SessionManager := mgr.appendBody source now (.message message)

def appendThinkingLevelChange (thinkingLevel : Option JsString) : SessionManager :=
  mgr.appendBody source now (.thinkingLevelChange thinkingLevel)

def appendServiceTierChange (serviceTier : Option JsString) : SessionManager :=
  mgr.appendBody source now (.serviceTierChange serviceTier)

def appendModeChange (mode : JsString) (data : Option Json) : SessionManager :=
  mgr.appendBody source now (.modeChange mode data)

def appendModelChange (model : JsString) (role : Option JsString) : SessionManager :=
  mgr.appendBody source now (.modelChange model role)

def appendSessionInit (systemPrompt task : JsString) (tools : List JsString) (outputSchema : Option Json) :
    SessionManager :=
  mgr.appendBody source now (.sessionInit systemPrompt task tools outputSchema)

def appendCompaction (compaction : Compaction) : SessionManager :=
  mgr.appendBody source now (.compaction compaction)

def appendCustomEntry (customType : JsString) (data : Option Json) : SessionManager :=
  mgr.appendBody source now (.custom customType data)

def internalDetailsFields : List JsString := [js "__pendingDisplayTag"]

def stripInternalDetailsFields : Json → Json
  | .obj fields => .obj (fields.filter fun field => field.1 ∉ internalDetailsFields)
  | details => details

def appendCustomMessageEntry (customType : JsString) (content : MessageContent) (display : Bool)
    (details : Option Json) (attribution : Option JsString) : SessionManager :=
  mgr.appendBody source now
    (.customMessage customType content display (details.map stripInternalDetailsFields)
      (some (attribution.getD (js "agent"))))

def appendMCPToolSelection (selectedToolNames : List JsString) : SessionManager :=
  mgr.appendBody source now (.mcpToolSelection selectedToolNames)

def appendTtsrInjection (ruleNames : List JsString) : SessionManager :=
  mgr.appendBody source now (.ttsrInjection ruleNames)

def noteLabel (labels : OMap JsString JsString) (targetId : JsString) (label : Option JsString) :
    OMap JsString JsString :=
  match label with
  | some text => if text = [] then remove labels targetId else put labels targetId text
  | none => remove labels targetId

def entryNotFound (id : JsString) : JsString := js "Entry " ++ id ++ js " not found"

def appendLabelChange (targetId : JsString) (label : Option JsString) : Except JsString SessionManager :=
  if has mgr.byId targetId then
    let mgr := mgr.appendBody source now (.label targetId label)
    .ok { mgr with labelsById := noteLabel mgr.labelsById targetId label }
  else .error (entryNotFound targetId)

def branch (branchFromId : JsString) : Except JsString SessionManager :=
  if has mgr.byId branchFromId then .ok { mgr with leafId := some branchFromId }
  else .error (entryNotFound branchFromId)

def resetLeaf : SessionManager := { mgr with leafId := none }

def branchWithSummary (branchFromId : Option JsString) (summary : JsString) : Except JsString SessionManager :=
  if branchFromId.all fun id => has mgr.byId id then
    .ok ({ mgr with leafId := branchFromId }.appendBody source now
      (.branchSummary (branchFromId.getD (js "root")) summary))
  else .error (entryNotFound (branchFromId.getD []))

end Appends

/- Traversal -/

/-- The path from the root to an entry, by default the leaf; none when it has no end. -/
def getBranch (mgr : SessionManager) (fromId : Option JsString) : Option (List SessionEntry) :=
  pathFrom mgr.byId (lookupId mgr.byId (fromId.or mgr.leafId))

def leafRef : Option JsString → LeafId
  | some id => .named id
  | none => .null

def buildSessionContext (mgr : SessionManager) : Option SessionContext :=
  Session.buildSessionContext mgr.getEntries (leafRef mgr.leafId) (some mgr.byId)

/- Branching -/

def indexEntry (mgr : SessionManager) : FileEntry → SessionManager
  | .session _ => mgr
  | .entry e =>
      { mgr with
        byId := put mgr.byId e.id e
        leafId := some e.id
        labelsById :=
          match e.body with
          | .label targetId label => noteLabel mgr.labelsById targetId label
          | _ => mgr.labelsById }

def buildIndex (mgr : SessionManager) : SessionManager :=
  mgr.fileEntries.foldl indexEntry { mgr with byId := [], labelsById := [], leafId := none }

/- Fresh label entries, each a child of the one before. -/
def freshLabels (ids : Nat → IdSource) (now : Int) :
    List (JsString × JsString) → Nat → List JsString → Option JsString → List SessionEntry
  | [], _, _, _ => []
  | (targetId, label) :: rest, k, used, parentId =>
      let id := generateId (ids k) used
      ⟨id,parentId,now,.label targetId (some label)⟩ ::
        freshLabels ids now rest (k + 1) (used ++ [id]) (some id)

def notLabel (e : SessionEntry) : Bool := !e.isLabel

/- The labels of the entries that stay. -/
def labelsToWrite (mgr : SessionManager) (pathEntryIds : List JsString) : List (JsString × JsString) :=
  mgr.labelsById.filter fun label => label.1 ∈ pathEntryIds

/-- The entries of one branch: the path without its labels, then the labels it still has.
The first of these hangs below the last entry id, as `parentOf` reads it. -/
def branchEntries (mgr : SessionManager) (ids : Nat → IdSource) (now : Int)
    (parentOf : Option JsString → Option JsString) (branchPath : List SessionEntry) : List SessionEntry :=
  let pathWithoutLabels := branchPath.filter notLabel
  let pathEntryIds := pathWithoutLabels.map SessionEntry.id
  pathWithoutLabels ++
    freshLabels ids now (mgr.labelsToWrite pathEntryIds) 0 pathEntryIds (parentOf pathEntryIds.getLast?)

def orNull (id : Option JsString) : Option JsString := id
def truthyOrNull (id : Option JsString) : Option JsString := id.filter fun id => !id.isEmpty

/-- Keep the active branch only; the result counts the entries dropped. -/
def pruneToActiveBranch (mgr : SessionManager) (ids : Nat → IdSource) (now : Int) :
    Option (Int × SessionManager) :=
  if mgr.leafId.all fun id => id = [] then some (0, mgr)
  else
    match mgr.getHeader with
    | none => some (0, mgr)
    | some header =>
        (mgr.getBranch mgr.leafId).map fun branchPath =>
          if branchPath = [] then (0, mgr)
          else
            let entries := mgr.branchEntries ids now orNull branchPath
            let pruned := buildIndex { mgr with fileEntries := .session header :: entries.map .entry }
            ((mgr.getEntries.length : Int) - entries.length,
              { pruned with needsFullRewriteOnNextPersist := true })

/-- Replace the session by one branch under a new header; an unknown leaf is an error. -/
def createBranchedSession (mgr : SessionManager) (ids : Nat → IdSource) (now : Int)
    (newSessionId newSessionFile leafId : JsString) :
    Option (Except JsString (Option JsString × SessionManager)) :=
  (mgr.getBranch (some leafId)).map fun branchPath =>
    if branchPath = [] then .error (entryNotFound leafId)
    else
      let header : SessionHeader :=
        ⟨currentSessionVersion,newSessionId,none,none,now,mgr.cwd,
          if mgr.persist then mgr.sessionFile else none⟩
      let entries := mgr.branchEntries ids now truthyOrNull branchPath
      let replaced :=
        { mgr with fileEntries := .session header :: entries.map .entry, sessionId := newSessionId }
      if mgr.persist then
        .ok (some newSessionFile,
          buildIndex { replaced with sessionFile := some newSessionFile, flushed := true })
      else .ok (none, buildIndex replaced)

end SessionManager

end Session
