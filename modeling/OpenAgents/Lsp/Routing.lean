import OpenAgents.Lib.Runs
import OpenAgents.Lsp.Client

/- Which runs of the client route every message to where it belongs. The table of pending requests is
   asked first, so a request of the server that carries the id of a pending request ends that one. -/
namespace LspRouting
open JsText JsJson JsObject OrderedMap LspFraming LspClient CheckedRuns

/- The frames the server sends, with their messages. -/
abbrev Served := List (Frame × Json)

def stream (served : Served) : List Nat := served.flatMap fun sent => sent.1.bytes

def messages (served : Served) : List Json := served.map Prod.snd

def arrivals (events : List Event) : List Nat :=
  events.flatMap fun event => match event with
    | .arrive chunk => chunk
    | _ => []

/- A request of the server that is to be answered. -/
def serverRequestId : Json → Option Json
  | .obj fields =>
      if hasField fields (js "method") then (getField fields (js "id")).filter isNumber else none
  | _ => none

def answerId : Outgoing → Option Json
  | .response id _ => some id
  | .failure id _ _ => some id
  | _ => none

def beingEdited (client : Client) : List Json :=
  match client.reading with
  | .editing _ id => [id]
  | _ => []

structure Correct (served : Served) (arrived : List Nat) (client : Client) : Prop where
  inOrder : client.handled <+: messages served
  complete : client.reading = .idle → client.incoming = [] → arrived = stream served → client.handled = messages served
  settled : ∀ settlement ∈ client.settled, ∀ message, settlement.response = some message →
    ∃ fields, message = .obj fields ∧ getField fields (js "id") = some (requestKey settlement.id) ∧
      hasField fields (js "method") = false
  answered : client.written.filterMap answerId ++ beingEdited client = client.handled.filterMap serverRequestId

/-- The message has no method when its id is pending, and its items can be mapped when it asks for
    configuration. -/
def cleanMessage (runtime : Runtime) (client : Client) : Json → Bool
  | .obj fields =>
      match getField fields (js "id") with
      | some id =>
          match findPending client.pendingRequests id with
          | some _ => !hasField fields (js "method")
          | none => getField fields (js "method") != some (.str (js "workspace/configuration")) || !isNumber id ||
              (configurationResult runtime fields).isSome
      | none => true
  | _ => true

def clean (runtime : Runtime) (client : Client) (event : Event) : Bool :=
  match event, client.reading with
  | .next, .working buffer =>
      match parseMessage runtime.parse buffer with
      | .message message _ => cleanMessage runtime client message
      | _ => true
  | _, _ => true

/- The bytes that have arrived and have not been routed. -/
def unread (client : Client) : List Nat :=
  (match client.reading with
    | .idle => client.messageBuffer
    | .working buffer => buffer
    | .writing buffer => buffer
    | .editing buffer _ => buffer
    | .closed => client.messageBuffer) ++ client.incoming.flatten

def SettledWell (client : Client) : Prop :=
  ∀ settlement ∈ client.settled, ∀ message, settlement.response = some message →
    ∃ fields, message = .obj fields ∧ getField fields (js "id") = some (requestKey settlement.id) ∧
      hasField fields (js "method") = false

structure Routed (runtime : Runtime) (served : Served) (arrived : List Nat) (client : Client) : Prop where
  progress : ∃ done rest, served = done ++ rest ∧ client.handled = messages done ∧ arrived = stream done ++ unread client
  drained : client.reading = .idle → parseMessage runtime.parse client.messageBuffer = .incomplete
  settled : SettledWell client
  answered : client.written.filterMap answerId ++ beingEdited client = client.handled.filterMap serverRequestId

def Framed (runtime : Runtime) (served : Served) : Prop :=
  ∀ sent ∈ served, WellFramed runtime.parse sent.1 sent.2 ∧ ∃ fields, sent.2 = .obj fields

theorem parse_empty (parse : List Nat → Option Json) : parseMessage parse [] = .incomplete := rfl

theorem start_routed (runtime : Runtime) (served : Served) : Routed runtime served [] start where
  progress := ⟨[],served,rfl,rfl,rfl⟩
  drained := fun _ => parse_empty runtime.parse
  settled := by simp [SettledWell, start]
  answered := rfl

theorem stream_append (done rest : Served) : stream (done ++ rest) = stream done ++ stream rest := List.flatMap_append

/-- What the next turn of the loop reads off a beginning of the stream. -/
theorem parse_stream {runtime : Runtime} {rest : Served} (framed : Framed runtime rest) {buffer more : List Nat}
    (split : buffer ++ more = stream rest) : parseMessage runtime.parse buffer = .incomplete ∨
      ∃ sent later remaining, rest = sent :: later ∧ buffer = sent.1.bytes ++ remaining ∧
        parseMessage runtime.parse buffer = .message sent.2 remaining := by
  cases rest with
  | nil =>
    left
    rw [(List.append_eq_nil_iff.mp split).1]
    exact parse_empty runtime.parse
  | cons sent later =>
    obtain ⟨well,_⟩ := framed sent List.mem_cons_self
    have whole : buffer ++ more = sent.1.bytes ++ stream later := split
    rcases Nat.lt_or_ge buffer.length sent.1.bytes.length with short | long
    · left
      have front := List.prefix_of_prefix_length_le (⟨more,rfl⟩ : buffer <+: buffer ++ more) (by rw [whole]; exact List.prefix_append _ _)
        (Nat.le_of_lt short)
      obtain ⟨missing,is⟩ := front
      apply parse_partial well is
      intro none'
      rw [none', List.append_nil] at is
      rw [is] at short
      exact absurd short (Nat.lt_irrefl _)
    · right
      have front := List.prefix_of_prefix_length_le (⟨stream later,rfl⟩ : sent.1.bytes <+: sent.1.bytes ++ stream later)
        (by rw [← whole]; exact List.prefix_append _ _) long
      obtain ⟨remaining,is⟩ := front
      exact ⟨sent,later,remaining,rfl,is.symm,by rw [← is]; exact parse_frame well remaining⟩

section calls
variable {client : Client}

theorem settled_more {extra : List Settlement} (well : SettledWell client) (none' : ∀ settlement ∈ extra, settlement.response = none)
    (after : Client) (is : after.settled = client.settled ++ extra) : SettledWell after := by
  intro settlement mem message response
  rw [is] at mem
  rcases List.mem_append.mp mem with old | new
  · exact well settlement old message response
  · rw [none' settlement new] at response
    contradiction

/-- What a call of the client leaves as it was. -/
structure Beside (client after : Client) : Prop where
  messageBuffer : after.messageBuffer = client.messageBuffer
  reading : after.reading = client.reading
  incoming : after.incoming = client.incoming
  handled : after.handled = client.handled
  answers : after.written.filterMap answerId = client.written.filterMap answerId
  settled : SettledWell client → SettledWell after

theorem settle_beside (id : Nat) (outcome : Outcome) : Beside client (settle client id outcome none) where
  messageBuffer := rfl
  reading := rfl
  incoming := rfl
  handled := rfl
  answers := rfl
  settled := fun well => settled_more well (by simp) _ rfl

theorem runCall_beside (call : Call) : Beside client (runCall client call) := by
  have same : Beside client client := ⟨rfl,rfl,rfl,rfl,rfl,id⟩
  cases call with
  | send method params timeoutMs aborted =>
    unfold runCall sendRequest
    cases aborted with
    | some reason => exact ⟨rfl,rfl,rfl,rfl,rfl,fun well => settled_more well (by simp) _ rfl⟩
    | none => exact ⟨rfl,rfl,rfl,rfl,by simp [answerId],id⟩
  | abort id reason =>
    rw [runCall, abortRequest]
    split
    · have ended := @settle_beside client id (.rejected reason)
      exact ⟨rfl,rfl,rfl,rfl,by simp [settle, answerId],ended.settled⟩
    · exact same
  | timeout id =>
    rw [runCall, timeoutRequest]
    split
    · exact settle_beside id _
    · exact same
  | writeFailed id err =>
    rw [runCall, LspClient.writeFailed]
    split
    · exact settle_beside id _
    · exact same

end calls

/-- After a message: the reader goes on behind it, and so many answers are written or due. -/
structure Advanced (client after : Client) (buffer : List Nat) (answered : List Json) : Prop where
  buffer : after.reading = .working buffer ∨ after.reading = .writing buffer ∨ ∃ id, after.reading = .editing buffer id
  incoming : after.incoming = client.incoming
  handled : after.handled = client.handled
  answers : after.written.filterMap answerId ++ beingEdited after = client.written.filterMap answerId ++ answered
  settled : SettledWell client → SettledWell after

section route
variable {runtime : Runtime} {client : Client} {fields : Fields} {buffer : List Nat}

theorem goes_on : Advanced client { client with reading := .working buffer } buffer [] :=
  ⟨.inl rfl,rfl,rfl,rfl,id⟩

theorem answers_now {response : Outgoing} {id : Json} (is : answerId response = some id) :
    Advanced client (sendResponse client response buffer) buffer [id] where
  buffer := .inr (.inl rfl)
  incoming := rfl
  handled := rfl
  answers := by simp [sendResponse, beingEdited, List.filterMap_append, is]
  settled := fun well => well

theorem notification_advanced : Advanced client { handleNotification client fields with reading := .working buffer } buffer [] := by
  have same : Advanced client { client with reading := .working buffer } buffer [] := goes_on
  rw [handleNotification]
  dsimp only
  split
  · exact same
  · split
    · exact ⟨.inl rfl,rfl,rfl,rfl,id⟩
    · split
      · split
        · exact ⟨.inl rfl,rfl,rfl,rfl,id⟩
        · split
          · exact ⟨.inl rfl,rfl,rfl,rfl,id⟩
          · exact same
      · exact same

/-- A server request with a numeric id is answered once, now or when its edit has been applied. -/
theorem request_advanced (id : Json)
    (mappable : getField fields (js "method") = some (.str (js "workspace/configuration")) → isNumber id = true →
      (configurationResult runtime fields).isSome = true) :
    Advanced client (handleServerRequest runtime client fields id buffer) buffer (if isNumber id then [id] else []) := by
  rw [handleServerRequest]
  split
  · rename_i configuration
    rw [handleConfigurationRequest]
    cases number : isNumber id with
    | false => exact goes_on
    | true =>
      rw [if_pos rfl]
      obtain ⟨result,is⟩ := Option.isSome_iff_exists.mp (mappable configuration number)
      rw [is]
      exact answers_now rfl
  · split
    · rw [handleApplyEditRequest]
      cases number : isNumber id with
      | false => exact goes_on
      | true =>
        rw [if_pos rfl]
        split
        · exact ⟨.inr (.inr ⟨id,rfl⟩),rfl,rfl,rfl,fun well => well⟩
        · exact answers_now rfl
    · split
      · cases number : isNumber id with
        | true => exact answers_now rfl
        | false => exact goes_on
      · cases number : isNumber id with
        | true => exact answers_now rfl
        | false => exact goes_on

theorem findPending_key {pending : OMap Nat PendingRequest} {id : Json} {entry : Nat × PendingRequest}
    (found : findPending pending id = some entry) : requestKey entry.1 = id := by
  have here := List.find?_some found
  simpa using here

theorem route_advanced (allowed : cleanMessage runtime client (.obj fields) = true) :
    Advanced client (routeMessage runtime client (.obj fields) buffer) buffer ((serverRequestId (.obj fields)).toList) := by
  rw [routeMessage]
  rw [cleanMessage] at allowed
  cases hasId : getField fields (js "id") with
  | none =>
    have noAnswer : serverRequestId (.obj fields) = none := by
      rw [serverRequestId, hasId]
      split <;> rfl
    rw [noAnswer]
    dsimp only
    split
    · exact notification_advanced
    · exact goes_on
  | some id =>
    rw [hasId] at allowed
    dsimp only at allowed ⊢
    cases found : findPending client.pendingRequests id with
    | some pending =>
      rw [found] at allowed
      have noMethod : hasField fields (js "method") = false := by simpa using allowed
      have noAnswer : serverRequestId (.obj fields) = none := by rw [serverRequestId, noMethod, if_neg Bool.false_ne_true]
      rw [noAnswer]
      refine ⟨.inl rfl,rfl,rfl,rfl,?_⟩
      intro well settlement mem message response
      rcases List.mem_append.mp mem with old | new
      · exact well settlement old message response
      · rw [List.mem_singleton.mp new] at response ⊢
        refine ⟨fields,(Option.some.inj response).symm,?_,noMethod⟩
        rw [hasId, ← findPending_key found]
    | none =>
      rw [found] at allowed
      dsimp only at allowed ⊢
      split
      · rename_i hasMethod
        have answer : (serverRequestId (.obj fields)).toList = if isNumber id then [id] else [] := by
          rw [serverRequestId, if_pos hasMethod, hasId, Option.filter]
          split <;> rfl
        rw [answer]
        apply request_advanced
        intro configuration number
        rw [configuration, number] at allowed
        simpa using allowed
      · rename_i noMethod
        have noAnswer : serverRequestId (.obj fields) = none := by rw [serverRequestId, if_neg noMethod]
        rw [noAnswer]
        exact goes_on

end route

def arrival : Event → List Nat
  | .arrive chunk => chunk
  | _ => []

theorem arrivals_cons (event : Event) (events : List Event) : arrivals (event :: events) = arrival event ++ arrivals events := by
  cases event with
  | arrive chunk => rfl
  | _ => rfl

section step
variable {runtime : Runtime} {served : Served} {arrived : List Nat} {client : Client}

/-- An event that only moves the reader between the bytes it has. -/
theorem routed_still (routed : Routed runtime served arrived client) {after : Client} (handled : after.handled = client.handled)
    (same : unread after = unread client) (drained : after.reading = .idle →
      parseMessage runtime.parse after.messageBuffer = .incomplete) (settled : SettledWell client → SettledWell after)
    (answers : after.written.filterMap answerId ++ beingEdited after = client.written.filterMap answerId ++ beingEdited client) :
    Routed runtime served (arrived ++ []) after := by
  obtain ⟨done,rest,parts,did,bytes⟩ := routed.progress
  rw [List.append_nil]
  exact
    { progress := ⟨done,rest,parts,handled.trans did,by rw [same]; exact bytes⟩
      drained := drained
      settled := settled routed.settled
      answered := by rw [answers, routed.answered, handled] }

omit served arrived in
variable {buffer more : List Nat}

theorem clean_next (working : client.reading = .working buffer) : clean runtime client .next =
    match parseMessage runtime.parse buffer with
    | .message message _ => cleanMessage runtime client message
    | _ => true := by
  simp only [clean, working]

theorem next_routed (framed : Framed runtime served) (routed : Routed runtime served arrived client)
    (whole' : arrived ++ more = stream served) (working : client.reading = .working buffer)
    (allowed : clean runtime client .next = true) : Routed runtime served (arrived ++ []) (nextMessage runtime client buffer) := by
  obtain ⟨done,rest,parts,did,bytes⟩ := routed.progress
  have editing : beingEdited client = [] := by rw [beingEdited, working]
  have now : unread client = buffer ++ client.incoming.flatten := by rw [unread, working]
  have split : buffer ++ (client.incoming.flatten ++ more) = stream rest := by
    have whole := whole'
    rw [bytes, now, parts, stream_append, List.append_assoc, List.append_cancel_left_eq, List.append_assoc] at whole
    exact whole
  have framed' : Framed runtime rest := fun sent mem => framed sent (by rw [parts]; exact List.mem_append_right _ mem)
  rw [nextMessage]
  rcases parse_stream framed' split with incomplete | ⟨sent,later,remaining,is,front,parsed⟩
  · rw [incomplete]
    refine routed_still routed ?_ ?_ ?_ ?_ ?_
    · rfl
    · rw [now]
      rfl
    · exact fun _ => incomplete
    · exact fun well => well
    · rw [editing]
      rfl
  · obtain ⟨_,fields,object⟩ := framed' sent (by rw [is]; exact List.mem_cons_self)
    rw [clean_next working, parsed] at allowed
    rw [parsed]
    dsimp only at allowed ⊢
    rw [object] at allowed ⊢
    have advanced := @route_advanced runtime { client with handled := client.handled ++ [.obj fields] } fields remaining allowed
    generalize routeMessage runtime { client with handled := client.handled ++ [.obj fields] } (.obj fields) remaining = after at advanced
    have left : unread after = remaining ++ client.incoming.flatten := by
      rw [unread, advanced.incoming]
      rcases advanced.buffer with working' | writing | ⟨id,editing'⟩
      · rw [working']
      · rw [writing]
      · rw [editing']
    rw [List.append_nil]
    exact
      { progress := by
          refine ⟨done ++ [sent],later,by rw [parts, is, List.append_assoc]; rfl,?_,?_⟩
          · rw [advanced.handled, did, messages, messages, List.map_append, List.map_singleton, object]
          · have one : stream [sent] = sent.1.bytes := by simp [stream]
            rw [bytes, now, front, left, stream_append, one]
            simp only [List.append_assoc]
        drained := by
          intro idle
          rcases advanced.buffer with working' | writing | ⟨id,editing'⟩
          · rw [working'] at idle
            contradiction
          · rw [writing] at idle
            contradiction
          · rw [editing'] at idle
            contradiction
        settled := advanced.settled routed.settled
        answered := by
          have before := routed.answered
          rw [editing, List.append_nil] at before
          have last : [Json.obj fields].filterMap serverRequestId = (serverRequestId (.obj fields)).toList := by
            cases answer : serverRequestId (.obj fields) with
            | none => simp [answer]
            | some id => simp [answer]
          rw [advanced.answers, advanced.handled, List.filterMap_append, last, ← before] }

theorem step_routed (framed : Framed runtime served) (routed : Routed runtime served arrived client) (event : Event)
    (whole' : arrived ++ (arrival event ++ more) = stream served) (allowed : clean runtime client event = true) :
    Routed runtime served (arrived ++ arrival event) (step runtime client event) := by
  have same : Routed runtime served (arrived ++ []) client := by
    rw [List.append_nil]
    exact routed
  have called : ∀ call, Routed runtime served (arrived ++ []) (runCall client call) := by
    intro call
    have beside := @runCall_beside client call
    have edits : beingEdited (runCall client call) = beingEdited client := by rw [beingEdited, beside.reading, beingEdited]
    apply routed_still routed beside.handled
    · rw [unread, beside.reading, beside.messageBuffer, beside.incoming, unread]
    · intro idle
      rw [beside.messageBuffer]
      exact routed.drained (beside.reading.symm.trans idle)
    · exact beside.settled
    · rw [beside.answers, edits]
  cases event with
  | arrive chunk =>
    obtain ⟨done,rest,parts,did,bytes⟩ := routed.progress
    rw [step]
    exact
      { progress := by
          refine ⟨done,rest,parts,did,?_⟩
          have left : unread { client with incoming := client.incoming ++ [chunk] } = unread client ++ chunk := by
            rw [unread, unread]
            simp only [List.flatten_append, List.flatten_singleton, List.append_assoc]
          rw [left, bytes, List.append_assoc]
          rfl
        drained := routed.drained
        settled := routed.settled
        answered := routed.answered }
  | read =>
    cases reading : client.reading with
    | idle =>
      cases waiting : client.incoming with
      | nil => simpa [step, reading, waiting, arrival] using same
      | cons chunk rest =>
        simp only [step, reading, waiting]
        refine routed_still routed ?_ ?_ ?_ ?_ ?_
        · rfl
        · rw [unread, unread, reading, waiting, List.flatten_cons, List.append_assoc]
        · intro idle
          contradiction
        · exact fun well => well
        · simp [beingEdited, reading]
    | working buffer => simpa [step, reading, arrival] using same
    | writing buffer => simpa [step, reading, arrival] using same
    | editing buffer id => simpa [step, reading, arrival] using same
    | closed => simpa [step, reading, arrival] using same
  | next =>
    cases reading : client.reading with
    | working buffer =>
      simp only [step, reading]
      exact next_routed framed routed whole' reading allowed
    | idle => simpa [step, reading, arrival] using same
    | writing buffer => simpa [step, reading, arrival] using same
    | editing buffer id => simpa [step, reading, arrival] using same
    | closed => simpa [step, reading, arrival] using same
  | responseWritten =>
    cases reading : client.reading with
    | writing buffer =>
      simp only [step, reading]
      refine routed_still routed ?_ ?_ ?_ ?_ ?_
      · rfl
      · rw [unread, unread, reading]
      · intro idle
        contradiction
      · exact fun well => well
      · simp [beingEdited, reading]
    | idle => simpa [step, reading, arrival] using same
    | working buffer => simpa [step, reading, arrival] using same
    | editing buffer id => simpa [step, reading, arrival] using same
    | closed => simpa [step, reading, arrival] using same
  | edited failure =>
    cases reading : client.reading with
    | editing buffer id =>
      simp only [step, reading]
      refine routed_still routed ?_ ?_ ?_ ?_ ?_
      · rfl
      · rw [sendResponse, unread, unread, reading]
      · intro idle
        contradiction
      · exact fun well => well
      · simp [sendResponse, beingEdited, reading, answerId]
    | idle => simpa [step, reading, arrival] using same
    | working buffer => simpa [step, reading, arrival] using same
    | writing buffer => simpa [step, reading, arrival] using same
    | closed => simpa [step, reading, arrival] using same
  | finish =>
    cases reading : client.reading with
    | idle =>
      simp only [step, reading]
      refine routed_still routed ?_ ?_ ?_ ?_ ?_
      · rfl
      · rw [unread, unread, reading]
      · intro idle
        contradiction
      · exact fun well => well
      · simp [beingEdited, reading]
    | working buffer => simpa [step, reading, arrival] using same
    | writing buffer => simpa [step, reading, arrival] using same
    | editing buffer id => simpa [step, reading, arrival] using same
    | closed => simpa [step, reading, arrival] using same
  | call call =>
    have made := called call
    cases reading : client.reading with
    | working buffer => simpa [step, reading, arrival] using same
    | idle => simpa [step, reading, arrival] using made
    | writing buffer => simpa [step, reading, arrival] using made
    | editing buffer id => simpa [step, reading, arrival] using made
    | closed => simpa [step, reading, arrival] using made

theorem correct_of_routed (framed : Framed runtime served) (routed : Routed runtime served arrived client) :
    Correct served arrived client := by
  obtain ⟨done,rest,parts,did,bytes⟩ := routed.progress
  refine ⟨?_,?_,routed.settled,routed.answered⟩
  · rw [did, parts, messages, messages, List.map_append]
    exact List.prefix_append _ _
  · intro idle nothing all
    have drained := routed.drained idle
    have left : unread client = client.messageBuffer := by rw [unread, idle, nothing]; exact List.append_nil _
    rw [all, left, parts, stream_append, List.append_cancel_left_eq] at bytes
    have framed' : Framed runtime rest := fun sent mem => framed sent (by rw [parts]; exact List.mem_append_right _ mem)
    cases rest with
    | nil => rw [did, parts, List.append_nil]
    | cons sent later =>
      obtain ⟨well,_⟩ := framed' sent List.mem_cons_self
      have parsed : parseMessage runtime.parse client.messageBuffer = .message sent.2 (stream later) := by
        rw [← bytes]
        exact parse_frame well (stream later)
      rw [parsed] at drained
      contradiction

end step

theorem run_routed {runtime : Runtime} {served : Served} (framed : Framed runtime served) (events : List Event) {client : Client}
    {arrived : List Nat} (routed : Routed runtime served arrived client) (within : arrived ++ arrivals events <+: stream served)
    (allowed : Every (step runtime) (fun client event => clean runtime client event = true) client events) :
    Routed runtime served (arrived ++ arrivals events) (events.foldl (step runtime) client) := by
  induction events generalizing client arrived with
  | nil =>
    have none' : arrivals [] = [] := rfl
    rw [none', List.append_nil]
    exact routed
  | cons event events ih =>
    obtain ⟨here,later⟩ := allowed
    rw [arrivals_cons, ← List.append_assoc] at within ⊢
    obtain ⟨more,whole⟩ := within
    have split : arrived ++ (arrival event ++ (arrivals events ++ more)) = stream served := by
      rw [← whole]
      simp only [List.append_assoc]
    exact ih (step_routed framed routed event split here) ⟨more,whole⟩ later

/-- In every run in which no message with a method carries the id of a pending request, and no request for
    configuration has items that cannot be mapped, everything is routed as it should be. -/
theorem routed_correctly (runtime : Runtime) (served : Served) (framed : Framed runtime served) (events : List Event)
    (within : arrivals events <+: stream served)
    (allowed : Every (step runtime) (fun client event => clean runtime client event = true) start events) :
    Correct served (arrivals events) (run runtime events) :=
  correct_of_routed framed (run_routed framed events (start_routed runtime served) within allowed)

/- A parser for the texts of the messages given. -/
def reading (known : List Json) : Runtime where
  parse := fun bytes => known.find? fun message => Utf8.encode (stringify message) = bytes
  toText := fun _ => []
  setting := fun _ => .obj []
  engineError := []

def frameOf (message : Json) : Frame :=
  ⟨Utf8.encode (js "Content-Length: " ++ decimal (Utf8.byteLength (stringify message))),Utf8.encode (stringify message)⟩

def serve (sent : List Json) : Served := sent.map fun message => (frameOf message, message)

def askConfiguration (id : Nat) : Json :=
  .obj [(js "id", requestKey id), (js "method", .str (js "workspace/configuration")),
    (js "params", .obj [(js "items", .arr [.obj []])])]

def reply (id : Nat) : Json := .obj [(js "id", requestKey id), (js "result", .null)]

theorem served_framed (id other : Nat) (first : WellFramed (reading [askConfiguration id, reply other]).parse
      (frameOf (askConfiguration id)) (askConfiguration id))
    (second : WellFramed (reading [askConfiguration id, reply other]).parse (frameOf (reply other)) (reply other)) :
    Framed (reading [askConfiguration id, reply other]) (serve [askConfiguration id, reply other]) := by
  intro sent mem
  rcases List.mem_cons.mp mem with is | later
  · rw [is]
    exact ⟨first,_,rfl⟩
  · rw [List.mem_singleton.mp later]
    exact ⟨second,_,rfl⟩

/- The client has sent its first request; the bytes come in two chunks. -/
def exchange (sent : List Json) : List Event :=
  [.call (.send (js "initialize") none 30000 none), .arrive ((stream (serve sent)).take 30), .read, .next,
    .arrive ((stream (serve sent)).drop 30), .read, .next, .responseWritten, .next, .next]

theorem exchange_routed : Correct (serve [askConfiguration 7, reply 1]) (arrivals (exchange [askConfiguration 7, reply 1]))
    (run (reading [askConfiguration 7, reply 1]) (exchange [askConfiguration 7, reply 1])) :=
  routed_correctly (reading [askConfiguration 7, reply 1]) (serve [askConfiguration 7, reply 1])
    (served_framed 7 1 ⟨by decide +kernel,by decide +kernel,by decide +kernel⟩ ⟨by decide +kernel,by decide +kernel,by decide +kernel⟩)
    (exchange [askConfiguration 7, reply 1]) (by decide +kernel) (by decide +kernel)

/-- The request of the server carries the id of the pending one, ends it and is not answered. -/
theorem same_id_not_answered :
    arrivals (exchange [askConfiguration 1, reply 1]) = stream (serve [askConfiguration 1, reply 1]) ∧
      ¬ Correct (serve [askConfiguration 1, reply 1]) (arrivals (exchange [askConfiguration 1, reply 1]))
        (run (reading [askConfiguration 1, reply 1]) (exchange [askConfiguration 1, reply 1])) := by
  constructor
  · decide +kernel
  · intro correct
    exact absurd correct.answered (by decide +kernel)

end LspRouting
