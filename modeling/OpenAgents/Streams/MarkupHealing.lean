import OpenAgents.Lib.HeldScanner
import OpenAgents.Lib.Json
import OpenAgents.Lib.PrefixMatch

/- Healing of template markup that leaks into streamed text. The state keeps the
   buffer from its offset on, and generated call ids are left out. -/
namespace StreamMarkupHealing
open JsText JsJson HeldScanner PrefixMatch

def kimiSectionBegin : JsString := js "<|tool_calls_section_begin|>"
def kimiSectionEnd : JsString := js "<|tool_calls_section_end|>"
def kimiCallBegin : JsString := js "<|tool_call_begin|>"
def kimiCallEnd : JsString := js "<|tool_call_end|>"
def kimiArgBegin : JsString := js "<|tool_call_argument_begin|>"
def kimiTokens : List JsString := [kimiSectionBegin, kimiSectionEnd, kimiCallBegin, kimiCallEnd, kimiArgBegin]

def maxKimiPartialHold : Nat := 64

def thinkOpen : JsString := js "<think>"
def thinkClose : JsString := js "</think>"
def thinkingOpen : JsString := js "<thinking>"
def thinkingClose : JsString := js "</thinking>"

structure ThinkingTag where
  opens : JsString
  closes : JsString
  deriving DecidableEq

def plainThinkingTags : List ThinkingTag := [⟨thinkOpen,thinkClose⟩, ⟨thinkingOpen,thinkingClose⟩]

def maxXmlPartialHold : Nat := 256
def maxXmlParamValueLength : Nat := 1000000

def lessThan : CodeUnit := 60
def greaterThan : CodeUnit := 62
def quotationMark : CodeUnit := 34

inductive Pattern where
  | kimi
  | dsml
  | thinking
  deriving DecidableEq, Repr

structure HealedToolCall where
  name : JsString
  arguments : JsString
  deriving DecidableEq

inductive Event where
  | text (text : JsString)
  | thinking (thinking : JsString)
  | toolCall (call : HealedToolCall)
  deriving DecidableEq

abbrev Args := List (JsString × Json)

inductive XmlToolState where
  | idle
  | inSection
  | invoke (name : JsString) (args : Args)
  | parameter (invokeName : JsString) (args : Args) (paramName : JsString) (isString : Bool) (value : JsString)
  deriving DecidableEq

structure Mode where
  kimiInSection : Bool
  kimiInCall : Bool
  kimiInArgs : Bool
  kimiPendingId : JsString
  kimiPendingArgs : JsString
  xmlState : XmlToolState
  thinkingCloseTag : JsString
  sectionTerminated : Bool
  deriving DecidableEq

def Mode.initial : Mode := ⟨false,false,false,[],[],.idle,[],false⟩

/-- What one turn of a consuming loop does to the events collected so far. -/
inductive Output where
  | nothing
  | clean (text : JsString)
  | thinking (text : JsString)
  | toolCall (call : HealedToolCall)
  | flushClean
  | flushThinking
  deriving DecidableEq

def matchesToken (s token : JsString) : Bool := token.isPrefixOf s

def startsWithPartialToken (s : JsString) (tokens : List JsString) (maxHold : Nat) : Bool :=
  !s.isEmpty && s.length ≤ maxHold && tokens.any fun token => s.length < token.length && s.isPrefixOf token

section Repair
variable (parseJsonWithRepair : JsString → Option Json)

/- Kimi -/

def functionsPrefix : JsString := js "functions."

def normalizeKimiFunctionName (rawId : JsString) : JsString :=
  let stripped := if functionsPrefix.isPrefixOf rawId then rawId.drop functionsPrefix.length else rawId
  stripped.takeWhile (· ≠ 58)

def finalizeKimiCall (mode : Mode) : HealedToolCall :=
  let rawArgs := trim mode.kimiPendingArgs
  let argsJson :=
    if rawArgs.length > 0 then
      match parseJsonWithRepair rawArgs with
      | some value => stringify value
      | none => rawArgs
    else js "\x7b\x7d"
  ⟨normalizeKimiFunctionName (trim mode.kimiPendingId),argsJson⟩

def leaveKimiCall (mode : Mode) : Mode :=
  { mode with kimiInCall := false, kimiInArgs := false, kimiPendingId := [], kimiPendingArgs := [] }

def resetKimi (mode : Mode) : Mode := { leaveKimiCall mode with kimiInSection := false }

def consumeKimi (mode : Mode) (s : JsString) : Option (Taken Mode Output) :=
  if startsWithPartialToken s kimiTokens maxKimiPartialHold then none
  else if matchesToken s kimiSectionBegin then
    some ⟨kimiSectionBegin.length,{ mode with kimiInSection := true },.nothing⟩
  else if matchesToken s kimiSectionEnd then
    some ⟨kimiSectionEnd.length,{ mode with kimiInSection := false, sectionTerminated := true },.nothing⟩
  else if matchesToken s kimiCallBegin then
    if !mode.kimiInSection then some ⟨kimiCallBegin.length,mode,.clean kimiCallBegin⟩
    else some ⟨kimiCallBegin.length,{ leaveKimiCall mode with kimiInCall := true },.nothing⟩
  else if matchesToken s kimiArgBegin then
    if !mode.kimiInSection then some ⟨kimiArgBegin.length,mode,.clean kimiArgBegin⟩
    else some ⟨kimiArgBegin.length,{ mode with kimiInArgs := true },.nothing⟩
  else if matchesToken s kimiCallEnd then
    if !mode.kimiInSection || !mode.kimiInCall then some ⟨kimiCallEnd.length,mode,.clean kimiCallEnd⟩
    else
      some ⟨kimiCallEnd.length,leaveKimiCall mode,.toolCall (finalizeKimiCall parseJsonWithRepair mode)⟩
  else
    match s with
    | [] => none
    | ch :: _ =>
        if mode.kimiInCall then
          if mode.kimiInArgs then
            some ⟨1,{ mode with kimiPendingArgs := mode.kimiPendingArgs ++ [ch] },.nothing⟩
          else some ⟨1,{ mode with kimiPendingId := mode.kimiPendingId ++ [ch] },.nothing⟩
        else if !mode.kimiInSection then some ⟨1,mode,.clean [ch]⟩
        else some ⟨1,mode,.nothing⟩

/- Plain thinking -/

def tryMatchThinkingOpen (s : JsString) : Option ThinkingTag :=
  plainThinkingTags.find? fun tag => matchesToken s tag.opens

def startsWithPartialThinkingOpen (s : JsString) : Bool :=
  plainThinkingTags.any fun tag => startsWithPartialToken s [tag.opens] maxXmlPartialHold

def consumePlainThinking (mode : Mode) (s : JsString) : Option (Taken Mode Output) :=
  match s with
  | [] => none
  | ch :: _ =>
      if mode.thinkingCloseTag ≠ [] then
        if matchesToken s mode.thinkingCloseTag then
          some ⟨mode.thinkingCloseTag.length,{ mode with thinkingCloseTag := [] },.flushThinking⟩
        else if startsWithPartialToken s [mode.thinkingCloseTag] maxXmlPartialHold then none
        else some ⟨1,mode,.thinking [ch]⟩
      else
        match tryMatchThinkingOpen s with
        | some tag => some ⟨tag.opens.length,{ mode with thinkingCloseTag := tag.closes },.flushClean⟩
        | none =>
            if startsWithPartialThinkingOpen s then none
            else some ⟨1,mode,.clean [ch]⟩

/- DSML -/

/- The full-width and the ASCII bar. -/
def isDsmlPipe (c : CodeUnit) : Bool := c = 0xFF5C || c = 124

/- The start of a tag up to its name, as in `<[|]DSML[|]invoke`. -/
def dsmlTag (bracket name : JsString) : Matcher CodeUnit Unit :=
  seq (literal bracket) fun _ => seq (one isDsmlPipe) fun _ => seq (literal (js "DSML")) fun _ =>
    seq (one isDsmlPipe) fun _ => literal name

def toolCallsOpen : Matcher CodeUnit Unit := dsmlTag (js "<") (js "tool_calls>")
def toolCallsClose : Matcher CodeUnit Unit := dsmlTag (js "</") (js "tool_calls>")
def invokeClose : Matcher CodeUnit Unit := dsmlTag (js "</") (js "invoke>")
def parameterClose : Matcher CodeUnit Unit := dsmlTag (js "</") (js "parameter>")

/- `\s+` and a token -/
def blanksThen (token : JsString) : Matcher CodeUnit JsString :=
  accepting (spanned isWhitespace token) fun blanks => !blanks.isEmpty

/- `\s*>` -/
def tagEnd : Matcher CodeUnit JsString := spanned isWhitespace [greaterThan]

/- `\s+name="([^"]*)"` -/
def nameAttribute : Matcher CodeUnit JsString :=
  seq (blanksThen (js "name=\"")) fun _ => spanned (· ≠ quotationMark) [quotationMark]

/- `<[|]DSML[|]invoke\s+name="([^"]*)"\s*>` -/
def invokeOpen : Matcher CodeUnit JsString :=
  seq (dsmlTag (js "<") (js "invoke")) fun _ => seq nameAttribute fun name => mapTo tagEnd fun _ => name

/- `true"` and `false"` -/
def booleanWord : Matcher CodeUnit JsString :=
  choice (mapTo (literal (js "true\"")) fun _ => js "true") (mapTo (literal (js "false\"")) fun _ => js "false")

/- `\s+string="(true|false)"` -/
def stringAttribute : Matcher CodeUnit JsString := seq (blanksThen (js "string=\"")) fun _ => booleanWord

/- `<[|]DSML[|]parameter\s+name="([^"]*)"(?:\s+string="(true|false)")?\s*>` -/
def parameterOpen : Matcher CodeUnit (JsString × Option JsString) :=
  seq (dsmlTag (js "<") (js "parameter")) fun _ => seq nameAttribute fun name =>
    choice (seq stringAttribute fun value => mapTo tagEnd fun _ => (name, some value))
      (mapTo tagEnd fun _ => (name, none))

def coerceXmlParamValue (raw : JsString) (isString : Bool) : Json :=
  if isString then .str raw
  else
    let trimmed := trim raw
    if trimmed.length = 0 then .str raw
    else
      match parseJsonWithRepair trimmed with
      | some value => value
      | none => .str raw

def finalizeXmlToolCall (name : JsString) (args : Args) : HealedToolCall :=
  ⟨trim name,stringify (.obj args)⟩

def startsWithPartialXmlTag (s : JsString) : Bool :=
  s.head? = some lessThan && s.length ≤ maxXmlPartialHold && !(s.drop 1).contains greaterThan

/- A tag is taken as far as it was matched. -/
def takeTag {V : Type} (found : Option (V × JsString)) (s : JsString) (after : V → Mode × Output) :
    Option (Taken Mode Output) :=
  found.map fun (v, rest) => ⟨s.length - rest.length,(after v).1,(after v).2⟩

def matchXmlTag (mode : Mode) (s : JsString) : Option (Taken Mode Output) :=
  let goTo (state : XmlToolState) : Mode := { mode with xmlState := state }
  match mode.xmlState with
  | .idle => takeTag (toolCallsOpen s) s fun _ => (goTo .inSection, .nothing)
  | .inSection =>
      (takeTag (toolCallsClose s) s fun _ => ({ goTo .idle with sectionTerminated := true }, .nothing)).or
        (takeTag (invokeOpen s) s fun name => (goTo (.invoke name []), .nothing))
  | .invoke name args =>
      (takeTag (invokeClose s) s fun _ => (goTo .inSection, .toolCall (finalizeXmlToolCall name args))).or
        (takeTag (parameterOpen s) s fun (paramName, stringAttr) =>
          (goTo (.parameter name args paramName (stringAttr ≠ some (js "false")) []), .nothing))
  | .parameter invokeName args paramName isString value =>
      takeTag (parameterClose s) s fun _ =>
        (goTo (.invoke invokeName
          (assignField args paramName (coerceXmlParamValue parseJsonWithRepair value isString))), .nothing)

/- A unit that belongs to no tag; an overlong parameter abandons the call. -/
def passXmlUnit (mode : Mode) (ch : CodeUnit) : Mode × Output :=
  match mode.xmlState with
  | .idle => (mode, .clean [ch])
  | .parameter invokeName args paramName isString value =>
      if value.length ≥ maxXmlParamValueLength then ({ mode with xmlState := .idle }, .nothing)
      else ({ mode with xmlState := .parameter invokeName args paramName isString (value ++ [ch]) }, .nothing)
  | _ => (mode, .nothing)

def consumeXmlTool (mode : Mode) (s : JsString) : Option (Taken Mode Output) :=
  match matchXmlTag parseJsonWithRepair mode s with
  | some taken => some taken
  | none =>
      if startsWithPartialXmlTag s then none
      else
        match s with
        | [] => none
        | ch :: _ => some ⟨1,(passXmlUnit mode ch).1,(passXmlUnit mode ch).2⟩

/- The stream -/

def consume : Pattern → Decision CodeUnit Mode Output
  | .kimi => consumeKimi parseJsonWithRepair
  | .dsml => consumeXmlTool parseJsonWithRepair
  | .thinking => consumePlainThinking

/-- Events of a feed, and the text and thinking not pushed yet. -/
structure Pending where
  events : List Event
  clean : JsString
  thinking : JsString

def Pending.flushClean (p : Pending) : Pending :=
  if p.clean.length = 0 then p else { p with events := p.events ++ [.text p.clean], clean := [] }

def Pending.flushThinking (p : Pending) : Pending :=
  if p.thinking.length = 0 then p else { p with events := p.events ++ [.thinking p.thinking], thinking := [] }

def Pending.put (p : Pending) : Output → Pending
  | .nothing => p
  | .clean text => { p with clean := p.clean ++ text }
  | .thinking text => { p with thinking := p.thinking ++ text }
  | .toolCall call =>
      let flushed := p.flushClean
      { flushed with events := flushed.events ++ [.toolCall call] }
  | .flushClean => p.flushClean
  | .flushThinking => p.flushThinking

def collectEvents (outputs : List Output) : List Event :=
  (outputs.foldl Pending.put ⟨[],[],[]⟩).flushClean.flushThinking.events

structure Healing where
  pattern : Pattern
  buffer : JsString
  mode : Mode
  deriving DecidableEq

def Healing.start (pattern : Pattern) : Healing := ⟨pattern,[],.initial⟩

def Healing.feedEvents (h : Healing) (text : JsString) : Healing × List Event :=
  if text.length = 0 then (h, [])
  else
    let scanned := scan (consume parseJsonWithRepair h.pattern) h.mode (h.buffer ++ text)
    ({ h with buffer := scanned.rest, mode := scanned.mode }, collectEvents scanned.outputs)

def textEvents (text : JsString) : List Event := if text.length = 0 then [] else [.text text]
def thinkingEvents (text : JsString) : List Event := if text.length = 0 then [] else [.thinking text]

def Healing.flushEvents (h : Healing) : Healing × List Event :=
  let tail := h.buffer
  match h.pattern with
  | .kimi =>
      let inTemplate := h.mode.kimiInCall || h.mode.kimiInSection
      ({ h with buffer := [], mode := resetKimi h.mode }, if inTemplate then [] else textEvents tail)
  | .dsml =>
      ({ h with buffer := [], mode := { h.mode with xmlState := .idle } },
        if h.mode.xmlState ≠ .idle then [] else textEvents tail)
  | .thinking =>
      ({ h with buffer := [], mode := { h.mode with thinkingCloseTag := [] } },
        if h.mode.thinkingCloseTag ≠ [] then thinkingEvents tail else textEvents tail)

def Healing.feedAll (h : Healing) : List JsString → Healing × List Event
  | [] => (h, [])
  | chunk :: rest =>
      let first := h.feedEvents parseJsonWithRepair chunk
      let after := first.1.feedAll rest
      (after.1, first.2 ++ after.2)

/- All events of a stream that arrives in these chunks. -/
def healedEvents (pattern : Pattern) (chunks : List JsString) : List Event :=
  let fed := (Healing.start pattern).feedAll parseJsonWithRepair chunks
  fed.2 ++ fed.1.flushEvents.2

end Repair

end StreamMarkupHealing
