import OpenAgents.Lib.OrderedMap
import OpenAgents.Lsp.Framing

/- The client of a language server: its table of pending requests, the reader of the server's
   messages, and what it writes. Between two messages of one read nothing else runs; while the
   answer to a server request is written, or an edit is applied for it, everything else does. -/
namespace LspClient
open JsText JsJson JsObject OrderedMap LspFraming

structure Runtime where
  /- `JSON.parse` of the decoded bytes; `none` when it throws. -/
  parse : List Nat → Option Json
  /- The text of a value in a template. -/
  toText : Option Json → JsString
  /- `client.config.settings?.[section] ?? {}` -/
  setting : Json → Json
  /- The text of the error thrown by `JSON.parse` or by a property access. -/
  engineError : JsString

structure PendingRequest where
  method : JsString
  timeoutMs : Nat
  deriving DecidableEq

inductive Outcome where
  | resolved (result : Option Json)
  | rejected (message : JsString)
  deriving DecidableEq

/-- A request of the client that is over, with the message that ended it, if one did. -/
structure Settlement where
  id : Nat
  outcome : Outcome
  response : Option Json
  deriving DecidableEq

inductive Outgoing where
  | request (id : Nat) (method : JsString) (params : Option Json)
  | notification (method : JsString) (params : Option Json)
  | response (id : Json) (result : Json)
  | failure (id : Json) (code : JsString) (message : JsString)
  deriving DecidableEq

/-- Waiting for a chunk; between two messages, with the bytes still to parse; waiting for a response to be
    written; waiting for the edit of a request; or over. -/
inductive Reading where
  | idle
  | working (buffer : List Nat)
  | writing (buffer : List Nat)
  | editing (buffer : List Nat) (id : Json)
  | closed
  deriving DecidableEq

structure PublishedDiagnostics where
  diagnostics : Option Json
  version : Json
  deriving DecidableEq

structure Client where
  requestId : Nat
  pendingRequests : OMap Nat PendingRequest
  messageBuffer : List Nat
  reading : Reading
  diagnostics : OMap (Option Json) PublishedDiagnostics
  diagnosticsVersion : Nat
  activeProgressTokens : List (Option Json)
  projectLoaded : Bool
  /- Chunks that have arrived and are not read. -/
  incoming : List (List Nat)
  written : List Outgoing
  settled : List Settlement
  handled : List Json
  deriving DecidableEq

def start : Client := ⟨0,[],[],.idle,[],0,[],false,[],[],[],[]⟩

def truthy : Json → Bool
  | .null => false
  | .bool value => value
  | .num text => text != js "0" && text != js "-0"
  | .str text => !text.isEmpty
  | .arr _ => true
  | .obj _ => true

def isNumber : Json → Bool
  | .num _ => true
  | _ => false

/- An id of the client as it stands in a message. -/
def requestKey (id : Nat) : Json := .num (decimal id)

def findPending (pending : OMap Nat PendingRequest) (id : Json) : Option (Nat × PendingRequest) :=
  pending.find? fun entry => requestKey entry.1 = id

def settle (client : Client) (id : Nat) (outcome : Outcome) (response : Option Json) : Client :=
  { client with
    pendingRequests := remove client.pendingRequests id
    settled := client.settled ++ [⟨id,outcome,response⟩] }

/- The reader fails: all pending requests are rejected. -/
def closeReader (client : Client) (err : JsString) : Client :=
  { client with
    pendingRequests := []
    settled := client.settled ++ client.pendingRequests.map fun entry =>
      ⟨entry.1,.rejected (js "LSP connection closed: " ++ err),none⟩
    reading := .closed }

def responseOutcome (runtime : Runtime) (fields : Fields) : Outcome :=
  match getField fields (js "error") with
  | some error =>
      if truthy error then .rejected (js "LSP error: " ++ runtime.toText (error.field? (js "message")))
      else .resolved (getField fields (js "result"))
  | none => .resolved (getField fields (js "result"))

def sendResponse (client : Client) (response : Outgoing) (buffer : List Nat) : Client :=
  { client with written := client.written ++ [response], reading := .writing buffer }

def paramField (fields : Fields) (key : JsString) : Option Json := (getField fields (js "params")).bind fun params => params.field? key

/- `item.section ?? ""`; reading a property of `null` throws. -/
def configurationItem (runtime : Runtime) : Json → Option Json
  | .null => none
  | item =>
      match item.field? (js "section") with
      | some .null => some (runtime.setting (.str []))
      | some section' => some (runtime.setting section')
      | none => some (runtime.setting (.str []))

/- What is answered for `params?.items ?? []`; only an array can be mapped. -/
def configurationResult (runtime : Runtime) (fields : Fields) : Option (List Json) :=
  match paramField fields (js "items") with
  | none => some []
  | some .null => some []
  | some (.arr items) => items.mapM (configurationItem runtime)
  | some _ => none

def handleConfigurationRequest (runtime : Runtime) (client : Client) (fields : Fields) (id : Json) (buffer : List Nat) : Client :=
  if isNumber id then
    match configurationResult runtime fields with
    | some result => sendResponse client (.response id (.arr result)) buffer
    | none => closeReader client runtime.engineError
  else { client with reading := .working buffer }

def editAnswer (failure : Option JsString) : Json :=
  match failure with
  | none => .obj [(js "applied", .bool true)]
  | some reason => .obj [(js "applied", .bool false), (js "failureReason", .str reason)]

def handleApplyEditRequest (client : Client) (fields : Fields) (id : Json) (buffer : List Nat) : Client :=
  if isNumber id then
    if ((paramField fields (js "edit")).map truthy).getD false then { client with reading := .editing buffer id }
    else sendResponse client (.response id (editAnswer (some (js "No edit provided")))) buffer
  else { client with reading := .working buffer }

def handleServerRequest (runtime : Runtime) (client : Client) (fields : Fields) (id : Json) (buffer : List Nat) : Client :=
  let method := getField fields (js "method")
  if method = some (.str (js "workspace/configuration")) then handleConfigurationRequest runtime client fields id buffer
  else if method = some (.str (js "workspace/applyEdit")) then handleApplyEditRequest client fields id buffer
  else if method = some (.str (js "window/workDoneProgress/create")) then
    if isNumber id then sendResponse client (.response id .null) buffer else { client with reading := .working buffer }
  else if isNumber id then
    sendResponse client (.failure id (js "-32601") (js "Method not found: " ++ runtime.toText method)) buffer
  else { client with reading := .working buffer }

def addToken (tokens : List (Option Json)) (token : Option Json) : List (Option Json) :=
  if tokens.contains token then tokens else tokens ++ [token]

def handleNotification (client : Client) (fields : Fields) : Client :=
  let method := getField fields (js "method")
  let params := getField fields (js "params")
  if !(params.map truthy).getD false then client
  else if method = some (.str (js "textDocument/publishDiagnostics")) then
    let version := match paramField fields (js "version") with
      | some version => version
      | none => .null
    { client with
      diagnostics := put client.diagnostics (paramField fields (js "uri")) ⟨paramField fields (js "diagnostics"),version⟩
      diagnosticsVersion := client.diagnosticsVersion + 1 }
  else if method = some (.str (js "$/progress")) then
    let kind := (paramField fields (js "value")).bind fun value => value.field? (js "kind")
    let token := paramField fields (js "token")
    if kind = some (.str (js "begin")) then { client with activeProgressTokens := addToken client.activeProgressTokens token }
    else if kind = some (.str (js "end")) then
      let tokens := client.activeProgressTokens.filter (· != token)
      { client with activeProgressTokens := tokens, projectLoaded := client.projectLoaded || tokens.isEmpty }
    else client
  else client

/-- A message is a response when its id is pending, and otherwise a request or a notification when it has
    a method. -/
def routeMessage (runtime : Runtime) (client : Client) (message : Json) (buffer : List Nat) : Client :=
  match message with
  | .obj fields =>
      match getField fields (js "id") with
      | some id =>
          match findPending client.pendingRequests id with
          | some pending => { settle client pending.1 (responseOutcome runtime fields) (some message) with reading := .working buffer }
          | none =>
              if hasField fields (js "method") then handleServerRequest runtime client fields id buffer
              else { client with reading := .working buffer }
      | none =>
          if hasField fields (js "method") then { handleNotification client fields with reading := .working buffer }
          else { client with reading := .working buffer }
  | .arr _ => { client with reading := .working buffer }
  | _ => closeReader client runtime.engineError

/- One turn of the loop over the messages of a buffer. -/
def nextMessage (runtime : Runtime) (client : Client) (buffer : List Nat) : Client :=
  match parseMessage runtime.parse buffer with
  | .incomplete => { client with messageBuffer := buffer, reading := .idle }
  | .malformed => closeReader client runtime.engineError
  | .message message remaining =>
      routeMessage runtime { client with handled := client.handled ++ [message] } message remaining

/- A call with a signal that is already aborted uses up an id and rejects. -/
def sendRequest (client : Client) (method : JsString) (params : Option Json) (timeoutMs : Nat) (aborted : Option JsString) : Client :=
  let id := client.requestId + 1
  match aborted with
  | some reason => { client with requestId := id, settled := client.settled ++ [⟨id,.rejected reason,none⟩] }
  | none =>
      { client with
        requestId := id
        pendingRequests := put client.pendingRequests id ⟨method,timeoutMs⟩
        written := client.written ++ [.request id method params] }

/- The listener is gone once the request is settled. -/
def abortRequest (client : Client) (id : Nat) (reason : JsString) : Client :=
  if has client.pendingRequests id then
    let ended := settle client id (.rejected reason) none
    { ended with written := ended.written ++ [.notification (js "$/cancelRequest") (some (.obj [(js "id", requestKey id)]))] }
  else client

def timeoutRequest (client : Client) (id : Nat) : Client :=
  match get? client.pendingRequests id with
  | some pending =>
      settle client id (.rejected (js "LSP request " ++ pending.method ++ js " timed out after " ++ decimal pending.timeoutMs ++
        js "ms")) none
  | none => client

def writeFailed (client : Client) (id : Nat) (err : JsString) : Client :=
  if has client.pendingRequests id then settle client id (.rejected err) none else client

inductive Call where
  | send (method : JsString) (params : Option Json) (timeoutMs : Nat) (aborted : Option JsString)
  | abort (id : Nat) (reason : JsString)
  | timeout (id : Nat)
  | writeFailed (id : Nat) (err : JsString)

inductive Event where
  /- The server's bytes arrive, in chunks. -/
  | arrive (chunk : List Nat)
  /- The reader takes a chunk. -/
  | read
  /- The reader goes on to the next message. -/
  | next
  /- The response has been written, or could not be. -/
  | responseWritten
  /- The edit has been applied, or has failed. -/
  | edited (failure : Option JsString)
  /- The stream ends. -/
  | finish
  | call (call : Call)

def runCall (client : Client) : Call → Client
  | .send method params timeoutMs aborted => sendRequest client method params timeoutMs aborted
  | .abort id reason => abortRequest client id reason
  | .timeout id => timeoutRequest client id
  | .writeFailed id err => writeFailed client id err

/- An event whose turn it is not does not happen. -/
def step (runtime : Runtime) (client : Client) (event : Event) : Client :=
  match event, client.reading with
  | .arrive chunk, _ => { client with incoming := client.incoming ++ [chunk] }
  | .read, .idle =>
      match client.incoming with
      | [] => client
      | chunk :: rest =>
          { client with
            incoming := rest
            messageBuffer := client.messageBuffer ++ chunk
            reading := .working (client.messageBuffer ++ chunk) }
  | .next, .working buffer => nextMessage runtime client buffer
  | .responseWritten, .writing buffer => { client with reading := .working buffer }
  | .edited failure, .editing buffer id => sendResponse client (.response id (editAnswer failure)) buffer
  | .finish, .idle => { client with reading := .closed }
  | .call _, .working _ => client
  | .call call, _ => runCall client call
  | _, _ => client

def run (runtime : Runtime) (events : List Event) : Client := events.foldl (step runtime) start

end LspClient
