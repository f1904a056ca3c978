import OpenAgents.Hashline.Types

/- Line-oriented classifier. A scan position inside a line is the list of code
   units from it to the end index; the caller has already cut trailing whitespace. -/
namespace Hashline
open JsText

def isWhitespaceCode (c : CodeUnit) : Bool := c == 32 || (9 ≤ c && c ≤ 13)

def isHexDigitCode (c : CodeUnit) : Bool :=
  isDigit c || (65 ≤ c && c ≤ 70) || (97 ≤ c && c ≤ 102)

def skipWhitespace (s : JsString) : JsString := s.dropWhile isWhitespaceCode
def untilTrimEnd (line : JsString) : JsString := line.rdropWhile isWhitespaceCode

def markerLineEquals (line marker : JsString) : Bool := untilTrimEnd line == marker

structure NumberScan where
  line : Nat
  rest : JsString
  deriving DecidableEq, Repr

def digitsValue (digits : JsString) : Nat :=
  digits.foldl (fun value c => value * 10 + (c.toNat - 48)) 0

def scanLineNumber (s : JsString) : Option NumberScan :=
  match s with
  | [] => none
  | c :: _ =>
      if isNonZeroDigit c then some ⟨digitsValue (s.takeWhile isDigit),s.dropWhile isDigit⟩
      else none

/- Consumes whitespace, `-`, `…` and `..` in any mix. -/
def dropRangeSeparator : JsString → JsString
  | [] => []
  | [c] => if isWhitespaceCode c || c == 45 || c == 0x2026 then [] else [c]
  | c :: d :: rest =>
      if isWhitespaceCode c || c == 45 || c == 0x2026 then dropRangeSeparator (d :: rest)
      else if c == 46 && d == 46 then dropRangeSeparator rest
      else c :: d :: rest

def scanRangeSeparator (s : JsString) : Option JsString :=
  let rest := dropRangeSeparator s
  if rest.length = s.length then none
  else
    match rest with
    | [] => none
    | c :: _ => if isNonZeroDigit c then some rest else none

structure RangeScan where
  range : ParsedRange
  rest : JsString
  deriving DecidableEq, Repr

/- Called with `allowSingle`, the only mode the header scanner uses. -/
def scanHeaderRange (s : JsString) : Option RangeScan := do
  let start ← scanLineNumber (skipWhitespace s)
  match scanRangeSeparator start.rest with
  | none => some ⟨⟨⟨start.line⟩,⟨start.line⟩⟩,skipWhitespace start.rest⟩
  | some afterFirst => do
      let stop ← scanLineNumber afterFirst
      some ⟨⟨⟨start.line⟩,⟨stop.line⟩⟩,skipWhitespace stop.rest⟩

inductive BlockTarget where
  | replace (range : ParsedRange)
  | block (anchor : Anchor)
  | delete (range : ParsedRange)
  | deleteBlock (anchor : Anchor)
  | insertBefore (anchor : Anchor)
  | insertAfter (anchor : Anchor)
  | bof
  | eof
  deriving DecidableEq, Repr

structure TargetScan where
  target : BlockTarget
  rest : JsString
  deriving DecidableEq, Repr

def scanKeyword (s keyword : JsString) : Option JsString :=
  if startsWith s keyword then
    match s.drop keyword.length with
    | [] => some []
    | c :: rest => if isWhitespaceCode c || c == headerColon then some (c :: rest) else none
  else none

def consumeOptionalColon (s : JsString) : JsString :=
  match skipWhitespace s with
  | [] => []
  | c :: rest => if c == headerColon then skipWhitespace rest else c :: rest

def scanAnchorTarget (target : Anchor → BlockTarget) (s : JsString) : Option TargetScan := do
  let anchor ← scanLineNumber (skipWhitespace s)
  some ⟨target ⟨anchor.line⟩,consumeOptionalColon anchor.rest⟩

def scanInsertTarget (s : JsString) : Option TargetScan :=
  let cursor := skipWhitespace s
  match scanKeyword cursor insertBefore with
  | some rest => scanAnchorTarget .insertBefore rest
  | none =>
  match scanKeyword cursor insertAfter with
  | some rest => scanAnchorTarget .insertAfter rest
  | none =>
  match scanKeyword cursor insertHead with
  | some rest => some ⟨.bof,consumeOptionalColon rest⟩
  | none =>
  match scanKeyword cursor insertTail with
  | some rest => some ⟨.eof,consumeOptionalColon rest⟩
  | none => none

def scanReplaceTarget (s : JsString) : Option TargetScan :=
  match scanKeyword (skipWhitespace s) blockKeyword with
  | some rest => scanAnchorTarget .block rest
  | none => do
      let range ← scanHeaderRange s
      some ⟨.replace range.range,consumeOptionalColon range.rest⟩

/- Neither delete form accepts a trailing colon. -/
def refuseColon (target : BlockTarget) (s : JsString) : Option TargetScan :=
  match skipWhitespace s with
  | [] => some ⟨target,[]⟩
  | c :: rest => if c == headerColon then none else some ⟨target,c :: rest⟩

def scanDeleteTarget (s : JsString) : Option TargetScan :=
  match scanKeyword (skipWhitespace s) blockKeyword with
  | some rest => do
      let anchor ← scanLineNumber (skipWhitespace rest)
      refuseColon (.deleteBlock ⟨anchor.line⟩) anchor.rest
  | none => do
      let range ← scanHeaderRange s
      refuseColon (.delete range.range) range.rest

def scanHunkAnchor (s : JsString) : Option TargetScan :=
  let cursor := skipWhitespace s
  match scanKeyword cursor replaceKeyword with
  | some rest => scanReplaceTarget rest
  | none =>
  match scanKeyword cursor deleteKeyword with
  | some rest => scanDeleteTarget rest
  | none =>
  match scanKeyword cursor insertKeyword with
  | some rest => scanInsertTarget rest
  | none => none

def tryParseHunkHeader (line : JsString) : Option BlockTarget :=
  let s := skipWhitespace (untilTrimEnd line)
  if s.isEmpty then none
  else do
    let scan ← scanHunkAnchor s
    if scan.rest.isEmpty then some scan.target else none

structure FileHeader where
  path : JsString
  fileHash : Option JsString
  deriving DecidableEq, Repr

def isPathEnd (c : CodeUnit) : Bool := c == 35 || c == 32 || c == 9

def upperHex (c : CodeUnit) : CodeUnit := if 97 ≤ c && c ≤ 102 then c - 32 else c

def tryParseHeader (line : JsString) : Option FileHeader :=
  if startsWith line filePrefix then
    let s := (untilTrimEnd line).drop filePrefix.length
    let path := s.takeWhile (!isPathEnd ·)
    let rest := s.dropWhile (!isPathEnd ·)
    if path.isEmpty then none
    else
      match rest with
      | [] => some ⟨path,none⟩
      | c :: tail =>
          if c == 35 then
            let hash := tail.take fileHashLength
            if hash.length < fileHashLength || hash.any (!isHexDigitCode ·) then none
            else if (skipWhitespace (tail.drop fileHashLength)).isEmpty then
              some ⟨path,some (hash.map upperHex)⟩
            else none
          else if (skipWhitespace rest).isEmpty then some ⟨path,none⟩
          else none
  else none

inductive TokenKind where
  | blank
  | envelopeBegin
  | envelopeEnd
  | abort
  | header (path : JsString) (fileHash : Option JsString)
  | opBlock (target : BlockTarget)
  | payloadLiteral (text : JsString)
  | raw (text : JsString)
  deriving DecidableEq, Repr

structure Token where
  lineNum : Nat
  kind : TokenKind
  deriving DecidableEq, Repr

def isHunkLead (line : JsString) : Bool :=
  let lead := skipWhitespace line
  startsWith lead replaceKeyword || startsWith lead deleteKeyword || startsWith lead insertKeyword

def classifyPlain (line : JsString) : TokenKind :=
  match line with
  | [] => .raw []
  | c :: rest => if c == payloadReplace then .payloadLiteral rest else .raw line

def classifyBody (line : JsString) : TokenKind :=
  if isHunkLead line then
    match tryParseHunkHeader line with
    | some target => .opBlock target
    | none => classifyPlain line
  else classifyPlain line

def classifyKind (line : JsString) : TokenKind :=
  if line.isEmpty then .blank
  else if markerLineEquals line beginPatchMarker then .envelopeBegin
  else if markerLineEquals line endPatchMarker then .envelopeEnd
  else if markerLineEquals line abortMarker then .abort
  else
    match tryParseHeader line with
    | some header => .header header.path header.fileHash
    | none => classifyBody line

def classifyLine (line : JsString) (lineNum : Nat) : Token := ⟨lineNum,classifyKind line⟩

structure Tokenizer where
  buffer : JsString
  nextLineNum : Nat
  closed : Bool
  deriving DecidableEq, Repr

def Tokenizer.new : Tokenizer := ⟨[],1,false⟩

def stripCarriageReturn (line : JsString) : JsString :=
  if line.getLast? = some carriageReturn then line.dropLast else line

def classifyFrom : Nat → List JsString → List Token
  | _, [] => []
  | lineNum, line :: rest =>
      classifyLine (stripCarriageReturn line) lineNum :: classifyFrom (lineNum + 1) rest

theorem classifyFrom_append (lineNum : Nat) (lines more : List JsString) :
    classifyFrom lineNum (lines ++ more) = classifyFrom lineNum lines ++ classifyFrom (lineNum + lines.length) more := by
  induction lines generalizing lineNum with
  | nil => simp [classifyFrom]
  | cons line lines ih =>
    have length : lineNum + 1 + lines.length = lineNum + (line :: lines).length := by
      simp
      omega
    simp [classifyFrom, ih, length]

def Tokenizer.drainCompleteLines (t : Tokenizer) : List Token × Tokenizer :=
  let pieces := splitLines t.buffer
  let complete := pieces.dropLast
  (classifyFrom t.nextLineNum complete,
    { t with buffer := pieces.getLastD [], nextLineNum := t.nextLineNum + complete.length })

def Tokenizer.feed (t : Tokenizer) (chunk : JsString) : Except JsString (List Token × Tokenizer) :=
  if t.closed then .error (js "Tokenizer is closed; call reset() before reusing.")
  else if chunk.isEmpty then .ok ([], t)
  else .ok ({ t with buffer := t.buffer ++ chunk }.drainCompleteLines)

def Tokenizer.finish (t : Tokenizer) : List Token × Tokenizer :=
  if t.closed then ([], t)
  else if t.buffer.isEmpty then ([], { t with closed := true })
  else
    ([classifyLine (stripCarriageReturn t.buffer) t.nextLineNum],
      ⟨[],t.nextLineNum + 1,true⟩)

/- The tokens `parsePatch` reads: one feed of the whole text, then `end()`. -/
def tokenizeAll (text : JsString) : List Token :=
  match Tokenizer.new.feed text with
  | .error _ => []
  | .ok (first, t) => first ++ t.finish.1

end Hashline
