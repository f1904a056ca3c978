import OpenAgents.Conversation.Messages

/- Session entries and the agent messages they hold. Timestamps are kept as
   their milliseconds. -/
namespace Session
open JsText JsJson Conversation

structure Usage where
  input : Nat
  output : Nat
  cacheRead : Nat
  cacheWrite : Nat
  totalTokens : Nat
  deriving DecidableEq

structure BashExecutionMessage where
  command : JsString
  output : JsString
  timestamp : Int
  deriving DecidableEq

structure CustomMessage where
  customType : JsString
  content : MessageContent
  display : Bool
  details : Option Json
  attribution : Option JsString
  timestamp : Int
  deriving DecidableEq

structure BranchSummaryMessage where
  summary : JsString
  fromId : JsString
  timestamp : Int
  deriving DecidableEq

structure ProviderPayload where
  provider : JsString
  items : List Json
  deriving DecidableEq

structure CompactionSummaryMessage where
  summary : JsString
  tokensBefore : Nat
  timestamp : Int
  shortSummary : Option JsString
  providerPayload : Option ProviderPayload
  deriving DecidableEq

inductive AgentMessage where
  | user (message : UserMessage)
  | developer (message : DeveloperMessage)
  | assistant (message : AssistantMessage) (usage : Option Usage)
  | toolResult (message : ToolResultMessage)
  | bashExecution (message : BashExecutionMessage)
  | pythonExecution (data : Json)
  | fileMention (data : Json)
  | custom (message : CustomMessage)
  | hookMessage (message : CustomMessage)
  | branchSummary (message : BranchSummaryMessage)
  | compactionSummary (message : CompactionSummaryMessage)
  deriving DecidableEq

structure Compaction where
  summary : JsString
  shortSummary : Option JsString
  firstKeptEntryId : JsString
  tokensBefore : Nat
  details : Option Json
  fromExtension : Bool
  preserveData : Option Json
  deriving DecidableEq

inductive EntryBody where
  | message (message : AgentMessage)
  | thinkingLevelChange (thinkingLevel : Option JsString)
  | modelChange (model : JsString) (role : Option JsString)
  | serviceTierChange (serviceTier : Option JsString)
  | compaction (compaction : Compaction)
  | branchSummary (fromId summary : JsString)
  | custom (customType : JsString) (data : Option Json)
  | customMessage (customType : JsString) (content : MessageContent) (display : Bool)
      (details : Option Json) (attribution : Option JsString)
  | label (targetId : JsString) (label : Option JsString)
  | ttsrInjection (injectedRules : List JsString)
  | mcpToolSelection (selectedToolNames : List JsString)
  | sessionInit (systemPrompt task : JsString) (tools : List JsString) (outputSchema : Option Json)
  | modeChange (mode : JsString) (data : Option Json)
  deriving DecidableEq

structure SessionEntry where
  id : JsString
  parentId : Option JsString
  timestamp : Int
  body : EntryBody
  deriving DecidableEq

namespace SessionEntry

def isMessage (e : SessionEntry) : Bool := e.body matches .message _
def isLabel (e : SessionEntry) : Bool := e.body matches .label _ _

def compaction? (e : SessionEntry) : Option Compaction :=
  match e.body with
  | .compaction c => some c
  | _ => none

def isCompaction (e : SessionEntry) : Bool := e.compaction?.isSome

end SessionEntry

/- A text typed by the user. -/
def userEntry (id : JsString) (parentId : Option JsString) (text : JsString) : SessionEntry :=
  ⟨id,parentId,0,.message (.user ⟨.plain text,0⟩)⟩

/-- A message together with the entry it comes from; the pair stands for the
    identity of the message object. -/
structure Sourced where
  entry : SessionEntry
  message : AgentMessage
  deriving DecidableEq

def createCustomMessage (customType : JsString) (content : MessageContent) (display : Bool)
    (details : Option Json) (timestamp : Int) (attribution : Option JsString) : AgentMessage :=
  .custom ⟨customType,content,display,details,attribution,timestamp⟩

def createBranchSummaryMessage (summary fromId : JsString) (timestamp : Int) : AgentMessage :=
  .branchSummary ⟨summary,fromId,timestamp⟩

def createCompactionSummaryMessage (summary : JsString) (tokensBefore : Nat) (timestamp : Int)
    (shortSummary : Option JsString) (providerPayload : Option ProviderPayload) : AgentMessage :=
  .compactionSummary ⟨summary,tokensBefore,timestamp,shortSummary,providerPayload⟩

end Session
