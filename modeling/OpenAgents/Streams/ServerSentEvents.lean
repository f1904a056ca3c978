import OpenAgents.Lib.Runs
import OpenAgents.Lib.TextLines
import OpenAgents.Lib.Utf8

/- Lines, and server-sent events, out of a stream of bytes in chunks. The bytes of a line that is
   still open wait in a buffer that grows; a line is what its bytes are when it is handed over. -/
namespace ServerSentEvents
open JsText ChunkedRuns SeparatedStream

def LF : Nat := 0x0A
def CR : Nat := 0x0D
def colonByte : Nat := 0x3A

/- `Buffer.allocUnsafe`: so many bytes, whatever they are. -/
abbrev AllocUnsafe := (size : Nat) → { bytes : List Nat // bytes.length = size }

/-- A buffer of which the first `length` bytes count. -/
structure ConcatSink where
  space : List Nat
  length : Nat
  inside : length ≤ space.length

namespace ConcatSink

def empty : ConcatSink := ⟨[],0,Nat.le_refl 0⟩

def isEmpty (sink : ConcatSink) : Bool := sink.length = 0

def content (sink : ConcatSink) : List Nat := sink.space.take sink.length

def flush (sink : ConcatSink) : Option (List Nat) := if sink.length = 0 then none else some sink.content

def clear (sink : ConcatSink) : ConcatSink := ⟨sink.space,0,Nat.zero_le _⟩

/- Twice the space, if that is enough; what counts is copied. -/
def ensureCapacity (allocUnsafe : AllocUnsafe) (sink : ConcatSink) (size : Nat) : List Nat :=
  if size ≤ sink.space.length then sink.space
  else sink.content ++ (allocUnsafe (max size (sink.space.length * 2))).val.drop sink.length

theorem ensure_enough (allocUnsafe : AllocUnsafe) (sink : ConcatSink) (size : Nat) :
    size ≤ (ensureCapacity allocUnsafe sink size).length := by
  have inside := sink.inside
  rw [ensureCapacity]
  split
  · assumption
  · rw [List.length_append, List.length_drop, (allocUnsafe _).property, content, List.length_take]
    omega

theorem ensure_content (allocUnsafe : AllocUnsafe) (sink : ConcatSink) (size : Nat) :
    (ensureCapacity allocUnsafe sink size).take sink.length = sink.content := by
  have inside := sink.inside
  have count : sink.content.length = sink.length := by
    rw [content, List.length_take]
    omega
  rw [ensureCapacity]
  split
  · rfl
  · rw [← count, List.take_left]

def append (allocUnsafe : AllocUnsafe) (sink : ConcatSink) (chunk : List Nat) : ConcatSink :=
  if chunk.isEmpty then sink
  else
    let space := ensureCapacity allocUnsafe sink (sink.length + chunk.length)
    { space := space.take sink.length ++ chunk ++ space.drop (sink.length + chunk.length)
      length := sink.length + chunk.length
      inside := by
        have enough : sink.length + chunk.length ≤ space.length := ensure_enough allocUnsafe sink _
        rw [List.length_append, List.length_append, List.length_take, List.length_drop]
        omega }

theorem content_append (allocUnsafe : AllocUnsafe) (sink : ConcatSink) (chunk : List Nat) :
    (append allocUnsafe sink chunk).content = sink.content ++ chunk := by
  have count : sink.content.length = sink.length := by
    have inside := sink.inside
    rw [content, List.length_take]
    omega
  rw [append]
  split
  · rename_i nothing
    rw [List.isEmpty_iff.mp nothing, List.append_nil]
  · rw [content]
    dsimp only
    rw [ensure_content]
    conv => lhs; rw [← count]
    rw [← List.length_append, List.take_left]

theorem content_nil (sink : ConcatSink) : sink.content = [] ↔ sink.length = 0 := by
  have inside := sink.inside
  rw [content, List.take_eq_nil_iff]
  constructor
  · intro either
    rcases either with none' | empty
    · exact none'
    · rw [empty] at inside
      exact Nat.le_zero.mp inside
  · exact Or.inl

/- One turn of the loop for each line feed; the fuel is the bytes that are left. -/
def flushLines (allocUnsafe : AllocUnsafe) : Nat → ConcatSink → List Nat → List (List Nat) × ConcatSink
  | 0, sink, _ => ([], sink)
  | fuel + 1, sink, chunk =>
      if chunk.isEmpty then ([], sink)
      else
        match chunk.findIdx? (· == LF) with
        | none => ([], sink.append allocUnsafe chunk)
        | some nl =>
            let suffix := chunk.take nl
            let rest := chunk.drop (nl + 1)
            if sink.isEmpty then
              let (later, last) := flushLines allocUnsafe fuel sink rest
              (suffix :: later, last)
            else
              let full := sink.append allocUnsafe suffix
              match full.flush with
              | some payload =>
                  let (later, last) := flushLines allocUnsafe fuel full.clear rest
                  (payload :: later, last)
              | none => flushLines allocUnsafe fuel full rest

def appendAndFlushLines (allocUnsafe : AllocUnsafe) (sink : ConcatSink) (chunk : List Nat) : List (List Nat) × ConcatSink :=
  flushLines allocUnsafe chunk.length sink chunk

end ConcatSink

def readLines (allocUnsafe : AllocUnsafe) (chunks : List (List Nat)) : List (List Nat) :=
  let (lines, sink) := feedAll (ConcatSink.appendAndFlushLines allocUnsafe) .empty chunks
  lines ++ sink.flush.toList

structure ServerSentEvent where
  event : Option JsString
  data : JsString
  raw : List JsString
  deriving DecidableEq, Repr

structure SseEventState where
  event : Option JsString
  data : Option JsString
  raw : List JsString
  deriving DecidableEq, Repr

/- `TextDecoder`: a mark of the byte order in front is dropped. -/
def decodeText (bytes : List Nat) : JsString :=
  Utf8.decode (if [0xEF, 0xBB, 0xBF].isPrefixOf bytes then bytes.drop 3 else bytes)

def decodeSseLineBytes (line : List Nat) (stop : Nat) : JsString := decodeText (line.take stop)

def flushSseEvent (state : SseEventState) : Option ServerSentEvent × SseEventState :=
  if state.event.isNone && state.data.isNone then (none, { state with raw := [] })
  else (some ⟨state.event,state.data.getD [],state.raw⟩, ⟨none,none,[]⟩)

/- The name in front of the first colon and the value behind it, without one space. -/
def splitField (text : JsString) : JsString × JsString :=
  match text.findIdx? (· == 0x3A) with
  | none => (text, [])
  | some colon =>
      let value := text.drop (colon + 1)
      (text.take colon, if value.head? = some space then value.drop 1 else value)

def pushSseLine (state : SseEventState) (line : List Nat) : Option ServerSentEvent × SseEventState :=
  let stop := if line.getLast? = some CR then line.length - 1 else line.length
  if stop = 0 then flushSseEvent state
  else
    let text := decodeSseLineBytes line stop
    let kept := { state with raw := state.raw ++ [text] }
    if line.head? = some colonByte then (none, kept)
    else
      let (fieldName, value) := splitField text
      if fieldName = js "event" then (none, { kept with event := some value })
      else if fieldName = js "data" then
        (none, { kept with
          data := match state.data with
            | none => some value
            | some data => some (data ++ [lineFeed] ++ value) })
      else (none, kept)

def pushSseLines : SseEventState → List (List Nat) → List ServerSentEvent × SseEventState
  | state, [] => ([], state)
  | state, line :: rest =>
      let (event, next) := pushSseLine state line
      let (later, last) := pushSseLines next rest
      (event.toList ++ later, last)

structure SseReader where
  lineBuffer : ConcatSink
  state : SseEventState

def readChunk (allocUnsafe : AllocUnsafe) (reader : SseReader) (chunk : List Nat) : List ServerSentEvent × SseReader :=
  let (lines, lineBuffer) := reader.lineBuffer.appendAndFlushLines allocUnsafe chunk
  let (events, state) := pushSseLines reader.state lines
  (events, ⟨lineBuffer,state⟩)

def readSseEvents (allocUnsafe : AllocUnsafe) (chunks : List (List Nat)) : List ServerSentEvent :=
  let (events, reader) := feedAll (readChunk allocUnsafe) ⟨.empty,⟨none,none,[]⟩⟩ chunks
  let (tail, state) := pushSseLines reader.state reader.lineBuffer.flush.toList
  events ++ tail ++ (flushSseEvent state).1.toList

/- What a stream of lines says. A line may end in a carriage return before its line feed. -/

def stripReturn (line : List Nat) : List Nat := if line.getLast? = some CR then line.dropLast else line

def isComment (line : List Nat) : Bool := line.head? = some colonByte

def fields (block : List (List Nat)) : List (JsString × JsString) :=
  (block.filter fun line => !isComment line).map fun line => splitField (decodeText line)

def values (name : JsString) (block : List (List Nat)) : List JsString :=
  ((fields block).filter fun field => field.1 = name).map fun field => field.2

/- The last event name and all the data; lines with neither are no event. -/
def blockEvent (block : List (List Nat)) : Option ServerSentEvent :=
  if (values (js "event") block).isEmpty && (values (js "data") block).isEmpty then none
  else some ⟨(values (js "event") block).getLast?,joinLines (values (js "data") block),block.map decodeText⟩

/- The blocks of lines between the blank ones, each an event. -/
def eventsOf (bytes : List Nat) : List ServerSentEvent :=
  (((pieces LF bytes).map stripReturn).splitOn []).filterMap blockEvent

/- What is known of a block that is still open. -/
def stateOf (block : List (List Nat)) : SseEventState where
  event := (values (js "event") block).getLast?
  data := if (values (js "data") block).isEmpty then none else some (joinLines (values (js "data") block))
  raw := block.map decodeText

theorem fields_append (front back : List (List Nat)) : fields (front ++ back) = fields front ++ fields back := by
  rw [fields, List.filter_append, List.map_append]
  rfl

theorem values_append (name : JsString) (front back : List (List Nat)) :
    values name (front ++ back) = values name front ++ values name back := by
  rw [values, fields_append, List.filter_append, List.map_append]
  rfl

variable {line : List Nat} {sink : ConcatSink}

theorem fields_comment (comment : isComment line = true) : fields [line] = [] := by
  rw [fields, List.filter_cons_of_neg (by simp [comment])]
  rfl

theorem fields_field (field : isComment line = false) : fields [line] = [splitField (decodeText line)] := by
  rw [fields, List.filter_cons_of_pos (by simp [field])]
  rfl

theorem values_named {name value : JsString} (one : fields [line] = [(name, value)]) : values name [line] = [value] := by
  rw [values, one, List.filter_cons_of_pos (by simp)]
  rfl

theorem values_other {name other value : JsString} (one : fields [line] = [(other, value)]) (ne : other ≠ name) :
    values name [line] = [] := by
  rw [values, one, List.filter_cons_of_neg (by simpa using ne)]
  rfl

theorem values_comment (name : JsString) (none' : fields [line] = []) : values name [line] = [] := by
  rw [values, none']
  rfl

theorem state_nil : stateOf [] = ⟨none,none,[]⟩ := rfl

theorem flush_block (block : List (List Nat)) : flushSseEvent (stateOf block) = (blockEvent block, stateOf []) := by
  rw [flushSseEvent, blockEvent, state_nil]
  cases names : values (js "event") block <;> cases data : values (js "data") block <;>
    simp [stateOf, names, data, joinLines, List.intercalate]

theorem state_comment (block : List (List Nat)) (none' : fields [line] = []) :
    stateOf (block ++ [line]) = { stateOf block with raw := (stateOf block).raw ++ [decodeText line] } := by
  simp only [stateOf, values_append, values_comment _ none', List.append_nil, List.map_append, List.map_cons, List.map_nil]

theorem state_field (block : List (List Nat)) {name value : JsString} (one : fields [line] = [(name, value)]) :
    stateOf (block ++ [line]) =
      { event := if name = js "event" then some value else (stateOf block).event
        data := if name = js "data" then some (((stateOf block).data.elim [] fun data => data ++ [lineFeed]) ++ value)
          else (stateOf block).data
        raw := (stateOf block).raw ++ [decodeText line] } := by
  simp only [stateOf, values_append, List.map_append, List.map_cons, List.map_nil, SseEventState.mk.injEq, and_true]
  constructor
  · by_cases named : name = js "event"
    · rw [if_pos named, ← named, values_named one, List.getLast?_concat]
    · rw [if_neg named, values_other one named, List.append_nil]
  · by_cases named : name = js "data"
    · rw [if_pos named, ← named, values_named one]
      by_cases bare : values name block = []
      · simp [bare, joinLines, List.intercalate]
      · rw [TextLines.join_append_precede bare]
        simp [bare, TextLines.precede]
    · rw [if_neg named, values_other one named, List.append_nil]

/- The line up to `stop`, as the decoder gets it. -/
theorem strip_take {stop : Nat} (ends : stop = if line.getLast? = some CR then line.length - 1 else line.length) :
    line.take stop = stripReturn line ∧ stop = (stripReturn line).length := by
  rw [stripReturn]
  by_cases returned : line.getLast? = some CR
  · rw [if_pos returned] at ends ⊢
    rw [ends, List.length_dropLast, ← List.dropLast_eq_take]
    exact ⟨rfl,rfl⟩
  · rw [if_neg returned] at ends ⊢
    rw [ends, List.take_length]
    exact ⟨rfl,rfl⟩

/-- A line is one more of the open block, unless it is blank. -/
theorem push_line (block : List (List Nat)) (line : List Nat) :
    pushSseLine (stateOf block) line =
      if stripReturn line = [] then (blockEvent block, stateOf []) else (none, stateOf (block ++ [stripReturn line])) := by
  rw [pushSseLine]
  generalize ends : (if line.getLast? = some CR then line.length - 1 else line.length) = stop
  obtain ⟨taken,count⟩ := strip_take ends.symm
  by_cases blank : stripReturn line = []
  · have tooMuch : stop = 0 := by rw [count, blank, List.length_nil]
    rw [if_pos blank, ← flush_block, if_pos tooMuch]
  · have more : stop ≠ 0 := by
      rw [count]
      exact fun tooMuch => blank (List.length_eq_zero_iff.mp tooMuch)
    have first : line.head? = (stripReturn line).head? := by rw [← taken, List.head?_take, if_neg more]
    rw [if_neg blank, if_neg more, first]
    by_cases comment : (stripReturn line).head? = some colonByte
    · rw [if_pos comment, state_comment block (fields_comment (by simpa [isComment] using comment)), decodeSseLineBytes, taken]
    · have field : isComment (stripReturn line) = false := by simpa [isComment] using comment
      have one := fields_field field
      have apart : js "data" ≠ js "event" := by decide +kernel
      rw [if_neg comment, decodeSseLineBytes, taken]
      generalize splitField (decodeText (stripReturn line)) = parts at one ⊢
      obtain ⟨name,value⟩ := parts
      rw [state_field block one]
      dsimp only
      by_cases event : name = js "event"
      · simp [event, apart.symm]
      · by_cases data : name = js "data"
        · cases held : (stateOf block).data <;> simp [data, apart]
        · simp [event, data]

theorem push_lines (lines : List (List Nat)) {block : List (List Nat)} (solid : [] ∉ block) :
    pushSseLines (stateOf block) lines =
      ((complete [] (block ++ lines.map stripReturn)).filterMap blockEvent,
        stateOf (pending [] (block ++ lines.map stripReturn))) := by
  induction lines generalizing block with
  | nil => rw [List.map_nil, List.append_nil, complete_none solid, pending_none solid, pushSseLines, List.filterMap_nil]
  | cons line rest ih =>
    rw [pushSseLines, push_line]
    by_cases blank : stripReturn line = []
    · have none' : ([] : List Nat) ∉ ([] : List (List Nat)) := List.not_mem_nil
      rw [if_pos blank, List.map_cons, blank, complete_cons solid, pending_cons solid]
      dsimp only
      rw [ih none', List.nil_append, List.filterMap_cons]
      cases blockEvent block <;> rfl
    · have solid' : [] ∉ block ++ [stripReturn line] := by simp [solid, Ne.symm blank]
      rw [if_neg blank]
      dsimp only
      rw [ih solid', List.append_assoc]
      rfl

theorem push_append (state : SseEventState) (front back : List (List Nat)) :
    pushSseLines state (front ++ back) =
      ((pushSseLines state front).1 ++ (pushSseLines (pushSseLines state front).2 back).1,
        (pushSseLines (pushSseLines state front).2 back).2) := by
  induction front generalizing state with
  | nil => rfl
  | cons line rest ih => simp only [List.cons_append, pushSseLines, ih, List.append_assoc]

/-- The sink hands over the lines that are complete, and holds the rest. -/
theorem flush_complete (allocUnsafe : AllocUnsafe) (fuel : Nat) {chunk : List Nat} (enough : chunk.length ≤ fuel)
    (clean : LF ∉ sink.content) :
    (sink.flushLines allocUnsafe fuel chunk).1 = complete LF (sink.content ++ chunk) ∧
      (sink.flushLines allocUnsafe fuel chunk).2.content = pending LF (sink.content ++ chunk) := by
  induction fuel generalizing sink chunk with
  | zero =>
    have tooMuch : chunk = [] := List.length_eq_zero_iff.mp (Nat.le_zero.mp enough)
    rw [tooMuch, List.append_nil, complete_none clean, pending_none clean]
    exact ⟨rfl,rfl⟩
  | succ fuel ih =>
    rw [ConcatSink.flushLines]
    by_cases tooMuch : chunk = []
    · rw [if_pos (List.isEmpty_iff.mpr tooMuch), tooMuch, List.append_nil, complete_none clean, pending_none clean]
      exact ⟨rfl,rfl⟩
    · rw [if_neg (mt List.isEmpty_iff.mp tooMuch)]
      cases found : chunk.findIdx? (· == LF) with
      | none =>
        have open' : LF ∉ sink.content ++ chunk := by simp [clean, find_none found]
        rw [complete_none open', pending_none open']
        exact ⟨rfl,ConcatSink.content_append allocUnsafe sink chunk⟩
      | some nl =>
        obtain ⟨first,split⟩ := find_some found
        have less : (chunk.drop (nl + 1)).length ≤ fuel := by
          rw [List.length_drop]
          omega
        have ready : LF ∉ sink.content ++ chunk.take nl := by simp [clean, first]
        have cut : sink.content ++ chunk = (sink.content ++ chunk.take nl) ++ LF :: chunk.drop (nl + 1) := by
          rw [List.append_assoc, ← split]
        rw [cut, complete_cons ready, pending_cons ready]
        dsimp only
        by_cases idle : sink.length = 0
        · have nothing := (ConcatSink.content_nil sink).mpr idle
          obtain ⟨later,last⟩ := ih less clean
          rw [nothing, List.nil_append] at later last
          rw [if_pos (by simpa [ConcatSink.isEmpty] using idle), nothing, ← later, ← last]
          exact ⟨rfl,rfl⟩
        · have full := ConcatSink.content_append allocUnsafe sink (chunk.take nl)
          have more : (sink.append allocUnsafe (chunk.take nl)).length ≠ 0 := by
            rw [Ne, ← ConcatSink.content_nil, full, List.append_eq_nil_iff]
            exact fun both => idle ((ConcatSink.content_nil sink).mp both.1)
          have cleared : (sink.append allocUnsafe (chunk.take nl)).clear.content = [] := List.take_zero
          have ready' : LF ∉ (sink.append allocUnsafe (chunk.take nl)).clear.content := by simp [cleared]
          obtain ⟨later,last⟩ := ih less ready'
          rw [cleared, List.nil_append] at later last
          rw [if_neg (by simpa [ConcatSink.isEmpty] using idle), ConcatSink.flush, if_neg more, full, ← later, ← last]
          exact ⟨rfl,rfl⟩

theorem feed_complete (allocUnsafe : AllocUnsafe) (chunks : List (List Nat)) (clean : LF ∉ sink.content) :
    (feedAll (ConcatSink.appendAndFlushLines allocUnsafe) sink chunks).1 = complete LF (sink.content ++ chunks.flatten) ∧
      (feedAll (ConcatSink.appendAndFlushLines allocUnsafe) sink chunks).2.content = pending LF (sink.content ++ chunks.flatten) := by
  induction chunks generalizing sink with
  | nil =>
    rw [List.flatten_nil, List.append_nil, complete_none clean, pending_none clean]
    exact ⟨rfl,rfl⟩
  | cons chunk rest ih =>
    obtain ⟨out,held⟩ := flush_complete allocUnsafe chunk.length (Nat.le_refl chunk.length) clean
    have clean' : LF ∉ (sink.flushLines allocUnsafe chunk.length chunk).2.content := by
      rw [held]
      exact pending_clean _
    obtain ⟨later,last⟩ := ih clean'
    rw [held] at later last
    rw [List.flatten_cons, ← List.append_assoc, complete_append (sink.content ++ chunk), pending_append (sink.content ++ chunk),
      ← later, ← last, ← out]
    exact ⟨rfl,rfl⟩

theorem feed_events (allocUnsafe : AllocUnsafe) (chunks : List (List Nat)) (reader : SseReader) :
    let (lines, sink) := feedAll (ConcatSink.appendAndFlushLines allocUnsafe) reader.lineBuffer chunks
    feedAll (readChunk allocUnsafe) reader chunks =
      ((pushSseLines reader.state lines).1, ⟨sink,(pushSseLines reader.state lines).2⟩) := by
  induction chunks generalizing reader with
  | nil => rfl
  | cons chunk rest ih => simp only [feedAll, ih, push_append, readChunk]

theorem flush_pending (sink : ConcatSink) : sink.flush.toList = if sink.content = [] then [] else [sink.content] := by
  rw [ConcatSink.flush]
  by_cases empty : sink.length = 0
  · rw [if_pos empty, if_pos ((ConcatSink.content_nil sink).mpr empty)]
    rfl
  · rw [if_neg empty, if_neg (mt (ConcatSink.content_nil sink).mp empty)]
    rfl

theorem readLines_pieces (allocUnsafe : AllocUnsafe) (chunks : List (List Nat)) :
    readLines allocUnsafe chunks = pieces LF chunks.flatten := by
  have clean : LF ∉ ConcatSink.empty.content := List.not_mem_nil
  obtain ⟨out,held⟩ := feed_complete allocUnsafe chunks clean
  rw [readLines, pieces]
  dsimp only
  rw [flush_pending, held, out]
  rfl

/-- However the bytes are cut into chunks, the lines are those of the whole stream and the events
    the blocks of lines between the blank ones, an open line and an open block included. -/
theorem decoded_whole (allocUnsafe : AllocUnsafe) (chunks : List (List Nat)) :
    readLines allocUnsafe chunks = pieces LF chunks.flatten ∧
      readSseEvents allocUnsafe chunks = eventsOf chunks.flatten := by
  refine ⟨readLines_pieces allocUnsafe chunks,?_⟩
  have events := feed_events allocUnsafe chunks ⟨.empty,stateOf []⟩
  have lines := readLines_pieces allocUnsafe chunks
  rw [readLines] at lines
  rw [readSseEvents, ← state_nil, events]
  dsimp only at lines ⊢
  generalize feedAll (ConcatSink.appendAndFlushLines allocUnsafe) ConcatSink.empty chunks = read at lines ⊢
  have all := push_append (stateOf []) read.1 read.2.flush.toList
  rw [lines, push_lines (pieces LF chunks.flatten) List.not_mem_nil, List.nil_append] at all
  rw [← (Prod.mk.inj all).1, ← (Prod.mk.inj all).2, flush_block, eventsOf, splitOn_eq, List.filterMap_append]
  congr 1

example : readSseEvents (fun size => ⟨List.replicate size 0,List.length_replicate⟩)
    (["data: a\r", "\n", ":c\r\ndata:b\n\nevent: e"].map fun chunk => Utf8.bytes chunk.toList) =
      [⟨none,js "a\nb",[js "data: a", js ":c", js "data:b"]⟩, ⟨some (js "e"),[],[js "event: e"]⟩] := by decide +kernel

end ServerSentEvents
