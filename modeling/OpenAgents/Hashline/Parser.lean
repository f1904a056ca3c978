import OpenAgents.Hashline.Tokenizer
import OpenAgents.Lib.BacktrackingRegex
import Mathlib.Data.List.Sort

/- Token-driven state machine that lowers hunks to edits. -/
namespace Hashline
open JsText BacktrackingRegex

def validateRangeOrder (range : ParsedRange) (lineNum : Nat) : Except JsString Unit :=
  if range.stop.line < range.start.line then
    .error (atLine lineNum (js "range " ++ decimal range.start.line ++ js ".." ++
      decimal range.stop.line ++ js " ends before it starts."))
  else .ok ()

/- The lines `start..stop`, ascending; empty when the range is reversed. -/
def spanLines (start stop : Nat) : List Nat := List.range' start (stop + 1 - start)

def expandRange (range : ParsedRange) : List Anchor :=
  (spanLines range.start.line range.stop.line).map Anchor.mk

def isSkippableCommentLine (line : JsString) : Bool := startsWith (trimStart line) (js "#")

def whitespaceRegex : Regex := .set isWhitespace
def digitRegex : Regex := .set isDigit
def lineNumberRegex : Regex := .seq (.set isNonZeroDigit) (.star digitRegex)

/- `^@@\s+[-+]?\d+,\d+\s+[-+]?\d+,\d+\s+@@` -/
def unifiedHunkRegex : Regex :=
  let side := concat [.optional (anyOf (js "-+")), plus digitRegex, .literal (js ","), plus digitRegex]
  concat [.literal (js "@@"), plus whitespaceRegex, side, plus whitespaceRegex, side,
    plus whitespaceRegex, .literal (js "@@")]

/- `^delete\s+[1-9]\d*(?:\s*(?:\.\.|-|…|\s)\s*[1-9]\d*)?\s*:` -/
def deleteColonRegex : Regex :=
  let separator := Regex.alt (.literal (js "..")) (.alt (anyOf (js "-…")) whitespaceRegex)
  concat [.literal (js "delete"), plus whitespaceRegex, lineNumberRegex,
    .optional (concat [.star whitespaceRegex, separator, .star whitespaceRegex, lineNumberRegex]),
    .star whitespaceRegex, .literal (js ":")]

/- `^[1-9]\d*\s*$` -/
def bareNumberRegex : Regex := concat [lineNumberRegex, .star whitespaceRegex, .endOfInput]

/- `^([1-9]\d*)\s*[-. …]+\s*([1-9]\d*)\s*:?$` -/
def bareRangeRegex : Regex :=
  concat [lineNumberRegex, .star whitespaceRegex, plus (anyOf (js "-. …")), .star whitespaceRegex,
    lineNumberRegex, .star whitespaceRegex, .optional (.literal (js ":")), .endOfInput]

/- The capture groups of `bareRangeRegex` are its first and last digit runs. -/
def bareRangeStart (trimmed : JsString) : JsString := trimmed.takeWhile isDigit
def bareRangeStop (trimmed : JsString) : JsString :=
  ((trimmed.dropWhile isDigit).dropWhile (!isDigit ·)).takeWhile isDigit

def preview (trimmed : JsString) : JsString :=
  quote (if trimmed.length > 48 then trimmed.take 48 ++ js "…" else trimmed)

def detectApplyPatchContamination (text : JsString) : Option JsString :=
  let trimmed := trimStart text
  if trimmed.isEmpty then none
  else if startsWith trimmed (js "*** Update File:") || startsWith trimmed (js "*** Add File:") ||
      startsWith trimmed (js "*** Delete File:") || startsWith trimmed (js "*** Move to:") then
    some (js "apply_patch sentinel " ++ preview trimmed ++
      js " is not valid in hashline. File sections start with `¶path#HASH` (no `Update File:` / `Add File:` keyword). Use `replace N..M:`, `delete N..M`, or `insert before|after|head|tail:` ops.")
  else if test unifiedHunkRegex trimmed then
    some (js "unified-diff hunk header (`@@ -N,M +N,M @@`) is not valid in hashline. Use `replace N..M:`, `delete N..M`, or `insert before|after|head|tail:` ops.")
  else if startsWith trimmed (js "@@") then
    some (js "`@@`-bracketed hunk header " ++ preview trimmed ++
      js " is not valid in hashline. Drop the `@@ ... @@` brackets and write a verb header such as `replace N..M:`.")
  else if test deleteColonRegex trimmed then
    some (js "`delete N..M` has no colon and no body. Remove the colon and body rows.")
  else if test bareNumberRegex trimmed then
    some (js "hunk headers need a verb. Use `replace " ++ trimmed ++ js ".." ++ trimmed ++
      js ":` to replace, or `delete " ++ trimmed ++ js "` to delete.")
  else if test bareRangeRegex trimmed then
    some (js "bare range hunk header " ++ quote trimmed ++
      js " is not valid. Hunk headers need a verb: write `replace " ++ bareRangeStart trimmed ++
      js ".." ++ bareRangeStop trimmed ++ js ":` or `delete " ++ bareRangeStart trimmed ++ js ".." ++
      bareRangeStop trimmed ++ js "`.")
  else none

structure PendingComment where
  lineNum : Nat
  text : JsString
  deriving DecidableEq, Repr

structure PayloadRow where
  text : JsString
  lineNum : Nat
  deriving DecidableEq, Repr

structure Pending where
  target : BlockTarget
  lineNum : Nat
  payloads : List PayloadRow
  deriving DecidableEq, Repr

structure Executor where
  edits : List Edit
  warnings : List JsString
  editIndex : Nat
  pending : Option Pending
  terminated : Bool
  skippableComments : List PendingComment
  deriving DecidableEq, Repr

def Executor.new : Executor := ⟨[],[],0,none,false,[]⟩

def Executor.pushInsert (x : Executor) (cursor : Cursor) (text : JsString) (lineNum : Nat)
    (mode : InsertMode) : Executor :=
  { x with
    edits := x.edits ++ [.applied (.insert ⟨cursor,text,lineNum,x.editIndex,mode⟩)]
    editIndex := x.editIndex + 1 }

def Executor.pushDelete (x : Executor) (anchor : Anchor) (lineNum : Nat) : Executor :=
  { x with
    edits := x.edits ++ [.applied (.delete ⟨anchor,lineNum,x.editIndex⟩)]
    editIndex := x.editIndex + 1 }

def Executor.pushBlock (x : Executor) (anchor : Anchor) (payloads : List PayloadRow)
    (lineNum : Nat) : Executor :=
  { x with
    edits := x.edits ++ [.block ⟨anchor,payloads.map PayloadRow.text,lineNum,x.editIndex⟩]
    editIndex := x.editIndex + 1 }

def Executor.emitPayloadRows (x : Executor) (cursor : Cursor) (payloads : List PayloadRow)
    (lineNum : Nat) (mode : InsertMode) : Executor :=
  payloads.foldl (fun x row => x.pushInsert cursor row.text lineNum mode) x

def Executor.emitDeletes (x : Executor) (anchors : List Anchor) (lineNum : Nat) : Executor :=
  anchors.foldl (fun x anchor => x.pushDelete anchor lineNum) x

def Executor.flushTarget (x : Executor) (target : BlockTarget) (lineNum : Nat)
    (payloads : List PayloadRow) : Except JsString Executor :=
  match target with
  | .delete range => .ok (x.emitDeletes (expandRange range) lineNum)
  | .deleteBlock anchor => .ok (x.pushBlock anchor [] lineNum)
  | .block anchor =>
      if payloads.isEmpty then .error (atLine lineNum emptyBlock)
      else .ok (x.pushBlock anchor payloads lineNum)
  | .replace range =>
      if payloads.isEmpty then .error (atLine lineNum emptyReplace)
      else
        .ok ((x.emitPayloadRows (.beforeAnchor range.start) payloads lineNum .replacement).emitDeletes
          (expandRange range) lineNum)
  | .insertBefore anchor => insertAt (.beforeAnchor anchor)
  | .insertAfter anchor => insertAt (.afterAnchor anchor)
  | .bof => insertAt .bof
  | .eof => insertAt .eof
where
  insertAt (cursor : Cursor) : Except JsString Executor :=
    if payloads.isEmpty then .error (atLine lineNum emptyInsert)
    else .ok (x.emitPayloadRows cursor payloads lineNum .literal)

def Executor.flushPending (x : Executor) : Except JsString Executor :=
  match x.pending with
  | none => .ok x
  | some pending =>
      { x with pending := none }.flushTarget pending.target pending.lineNum pending.payloads

/- The two targets that refuse a body, with the text they refuse it with. -/
def BlockTarget.refusesBody : BlockTarget → Option JsString
  | .delete _ => some deleteTakesNoBody
  | .deleteBlock _ => some deleteBlockTakesNoBody
  | _ => none

def Executor.handleLiteralPayload (x : Executor) (text : JsString) (lineNum : Nat) :
    Except JsString Executor :=
  match x.pending with
  | none =>
      .error (atLine lineNum (js "payload line has no preceding hunk header. Got " ++
        quote (payloadReplace :: text) ++ js "."))
  | some pending =>
      match pending.target.refusesBody with
      | some message => .error (atLine lineNum message)
      | none =>
          .ok { x with pending := some { pending with payloads := pending.payloads ++ [⟨text,lineNum⟩] } }

def addWarningOnce (warnings : List JsString) (warning : JsString) : List JsString :=
  if warnings.contains warning then warnings else warnings ++ [warning]

def Executor.handleRaw (x : Executor) (text : JsString) (lineNum : Nat) : Except JsString Executor :=
  match detectApplyPatchContamination text with
  | some contamination => .error (atLine lineNum contamination)
  | none =>
      match x.pending with
      | some pending =>
          if (trim text).isEmpty then .ok x
          else
            match pending.target.refusesBody with
            | some message => .error (atLine lineNum message)
            | none =>
                if (trimStart text).head? = some 45 then .error (atLine lineNum minusRowRejected)
                else
                  .ok { x with
                    warnings := addWarningOnce x.warnings bareBodyAutoPipedWarning
                    pending := some { pending with payloads := pending.payloads ++ [⟨text,lineNum⟩] } }
      | none =>
          if (trim text).isEmpty then .ok x
          else
            .error (atLine lineNum (js "payload line has no preceding hunk header. Use `replace N..M:`, `delete N..M`, or `insert before|after|head|tail:` above the body. Got " ++
              quote text ++ js "."))

def Executor.consumePendingSkippableComments (x : Executor) : Except JsString Executor := do
  let x ← x.skippableComments.foldlM (fun x comment => x.handleRaw comment.text comment.lineNum) x
  .ok { x with skippableComments := [] }

def validateTarget (target : BlockTarget) (lineNum : Nat) : Except JsString Unit :=
  match target with
  | .replace range => validateRangeOrder range lineNum
  | .delete range => validateRangeOrder range lineNum
  | _ => .ok ()

def Executor.feed (x : Executor) (token : Token) : Except JsString Executor :=
  if x.terminated then .ok x
  else
    match token.kind with
    | .envelopeBegin => x.consumePendingSkippableComments
    | .envelopeEnd => do
        let x ← x.consumePendingSkippableComments
        .ok { x with terminated := true }
    | .abort => .ok { x with terminated := true }
    | .header _ _ => do
        let x ← x.consumePendingSkippableComments
        x.flushPending
    | .blank => x.consumePendingSkippableComments
    | .payloadLiteral text => do
        let x ← x.consumePendingSkippableComments
        x.handleLiteralPayload text token.lineNum
    | .raw text =>
        if x.pending.isNone && isSkippableCommentLine text then
          .ok { x with skippableComments := x.skippableComments ++ [⟨token.lineNum,text⟩] }
        else do
          let x ← x.consumePendingSkippableComments
          x.handleRaw text token.lineNum
    | .opBlock target => do
        validateTarget target token.lineNum
        let x ← { x with skippableComments := [] }.flushPending
        .ok { x with pending := some ⟨target,token.lineNum,[]⟩ }

def deleteEdit? : Edit → Option DeleteEdit
  | .applied (.delete d) => some d
  | _ => none

/- Source lines of the hunks that delete `line`, each once, in edit order. -/
def sourceLinesOf (deletes : List DeleteEdit) (line : Nat) : List Nat :=
  deletes.foldl (fun lines d =>
    if d.anchor.line = line && !lines.contains d.lineNum then lines ++ [d.lineNum] else lines) []

/- The first anchor line, in edit order, that two hunks delete. -/
def overlappingAnchor (deletes : List DeleteEdit) : Option Nat :=
  (deletes.map fun d => d.anchor.line).find? fun line => 2 ≤ (sourceLinesOf deletes line).length

def overlapMessage (deletes : List DeleteEdit) (line : Nat) : JsString :=
  match (sourceLinesOf deletes line).insertionSort (· ≤ ·) with
  | firstBlock :: secondBlock :: _ =>
      atLine secondBlock (js "anchor line " ++ decimal line ++
        js " is already targeted by another hunk on line " ++ decimal firstBlock ++
        js ". Issue ONE hunk per range; payload is only the final desired content, never a before/after pair.")
  | _ => []

def validateNoOverlappingDeletes (edits : List Edit) : Except JsString Unit :=
  let deletes := edits.filterMap deleteEdit?
  match overlappingAnchor deletes with
  | some line => .error (overlapMessage deletes line)
  | none => .ok ()

structure ParseResult where
  edits : List Edit
  warnings : List JsString
  deriving DecidableEq, Repr

def Executor.finish (x : Executor) : Except JsString ParseResult := do
  let x ← x.consumePendingSkippableComments
  let x ← x.flushPending
  validateNoOverlappingDeletes x.edits
  .ok ⟨x.edits,x.warnings⟩

/- A hunk that still waits for its body is dropped. -/
def Executor.flushComplete (x : Executor) : Except JsString Executor :=
  match x.pending with
  | some pending =>
      if !pending.payloads.isEmpty then x.flushPending
      else
        match pending.target with
        | .delete _ => x.flushPending
        | .deleteBlock _ => x.flushPending
        | _ => .ok { x with pending := none }
  | none => .ok { x with pending := none }

def Executor.endStreaming (x : Executor) : Except JsString ParseResult := do
  let x ← x.consumePendingSkippableComments
  let x ← x.flushComplete
  validateNoOverlappingDeletes x.edits
  .ok ⟨x.edits,x.warnings⟩

def parseTokens (tokens : List Token) : Except JsString ParseResult := do
  let x ← tokens.foldlM Executor.feed Executor.new
  x.finish

def parsePatch (diff : JsString) : Except JsString ParseResult := parseTokens (tokenizeAll diff)

def parsePatchStreaming (diff : JsString) : Except JsString ParseResult := do
  let x ← (tokenizeAll diff).foldlM Executor.feed Executor.new
  x.endStreaming

end Hashline
