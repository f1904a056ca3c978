import OpenAgents.Lib.Json

/- Provider-level conversation messages. -/
namespace Conversation
open JsText JsJson

structure TextContent where
  text : JsString
  textSignature : Option JsString
  deriving DecidableEq

structure ThinkingContent where
  thinking : JsString
  thinkingSignature : Option JsString
  itemId : Option JsString
  deriving DecidableEq

structure RedactedThinkingContent where
  data : JsString
  deriving DecidableEq

structure ImageContent where
  data : JsString
  mimeType : JsString
  deriving DecidableEq

structure ToolCall where
  id : JsString
  name : JsString
  arguments : Json
  thoughtSignature : Option JsString
  intent : Option JsString
  customWireName : Option JsString
  deriving DecidableEq

inductive ContentPart where
  | text (content : TextContent)
  | image (content : ImageContent)
  deriving DecidableEq

inductive MessageContent where
  | plain (text : JsString)
  | parts (parts : List ContentPart)
  deriving DecidableEq

inductive AssistantBlock where
  | text (content : TextContent)
  | thinking (content : ThinkingContent)
  | redactedThinking (content : RedactedThinkingContent)
  | toolCall (call : ToolCall)
  deriving DecidableEq

inductive StopReason where
  | stop
  | length
  | toolUse
  | error
  | aborted
  deriving DecidableEq, Repr

structure UserMessage where
  content : MessageContent
  timestamp : Int
  deriving DecidableEq

structure DeveloperMessage where
  content : MessageContent
  timestamp : Int
  deriving DecidableEq

structure AssistantMessage where
  content : List AssistantBlock
  api : JsString
  provider : JsString
  model : JsString
  stopReason : StopReason
  timestamp : Int
  deriving DecidableEq

structure ToolResultMessage where
  toolCallId : JsString
  toolName : JsString
  content : List ContentPart
  isError : Bool
  timestamp : Int
  deriving DecidableEq

inductive Message where
  | user (message : UserMessage)
  | developer (message : DeveloperMessage)
  | assistant (message : AssistantMessage)
  | toolResult (message : ToolResultMessage)
  deriving DecidableEq

def Message.timestamp : Message → Int
  | .user m => m.timestamp
  | .developer m => m.timestamp
  | .assistant m => m.timestamp
  | .toolResult m => m.timestamp

def AssistantBlock.toolCall? : AssistantBlock → Option ToolCall
  | .toolCall call => some call
  | _ => none

def AssistantBlock.isText : AssistantBlock → Bool
  | .text _ => true
  | _ => false

def AssistantMessage.toolCalls (m : AssistantMessage) : List ToolCall :=
  m.content.filterMap AssistantBlock.toolCall?

def Message.toolCalls : Message → List ToolCall
  | .assistant m => m.toolCalls
  | _ => []

def Message.isUserOrDeveloper : Message → Bool
  | .user _ => true
  | .developer _ => true
  | _ => false

def Message.toolResult? : Message → Option ToolResultMessage
  | .toolResult m => some m
  | _ => none

/- An optional text that JavaScript takes for true. -/
def truthy (text : Option JsString) : Bool := text.any fun t => !t.isEmpty

end Conversation
