import OpenAgents.Hashline.HeaderRoundTrip

/- The prefixes of read output that an edit's lines may carry over, and how they are taken off. -/
namespace Hashline
open JsText BacktrackingRegex

def digitsRegex : Regex := plus (.set isDigit)
def quotesRegex : Regex := .optional (.alt (.literal (js ">>>")) (.literal (js ">>")))

/- `/^\s*(?:>>>|>>)?\s*(?:[+*-]\s*)?\d+:/` -/
def hlPrefixRegex : Regex :=
  concat [blanksRegex, quotesRegex, blanksRegex, .optional (.seq (anyOf (js "+*-")) blanksRegex), digitsRegex, .literal (js ":")]

/- `/^\s*(?:>>>|>>)?\s*\+\s*\d+:/` -/
def hlPrefixPlusRegex : Regex :=
  concat [blanksRegex, quotesRegex, blanksRegex, .literal (js "+"), blanksRegex, digitsRegex, .literal (js ":")]

def hexRegex : Regex := .set isHexDigitCode

def hlHeaderBodyRegex : Regex :=
  concat [blanksRegex, .literal filePrefix, plus (.set (!isWhitespace ·)), .literal fileHashSep, hexRegex, hexRegex, hexRegex,
    blanksRegex]

/- `/^\s*¶\S+#[0-9a-fA-F]{3}\s*$/` -/
def hlHeaderRegex : Regex := .seq hlHeaderBodyRegex .endOfInput

/- `/^[+](?![+])/`; the rest after the match. -/
def diffPlusRest : JsString → Option JsString
  | 43 :: rest => if rest.head? = some 43 then none else some rest
  | _ => none

def isWordUnit (c : CodeUnit) : Bool := isDigit c || (65 ≤ c && c ≤ 90) || (97 ≤ c && c ≤ 122) || c == 95
def isLineTerminator (c : CodeUnit) : Bool := c == lineFeed || c == carriageReturn || c == 0x2028 || c == 0x2029

/- `\b` before the given rest of a line. -/
def atWordBoundary (line rest : JsString) : Bool :=
  let before := (line.take (line.length - rest.length)).getLast?
  before.any isWordUnit != rest.head?.any isWordUnit

def noticeRangeRegex : Regex :=
  concat [.literal (js "[Showing lines "), digitsRegex, .literal (js "-"), digitsRegex, .literal (js " of "), digitsRegex]

def noticeMoreRegex : Regex :=
  concat [.literal (js "["), digitsRegex, .literal (js " more line"), .optional (.literal (js "s")), .literal (js " in "),
    .alt (.literal (js "file")) (plus (.set (!isWhitespace ·)))]

def noticeUseRegex : Regex := concat [.literal (js "Use :"), .optional (.literal (js "L")), digitsRegex]

/- `/^\[(?:Showing lines \d+-\d+ of \d+|\d+ more lines? in (?:file|\S+))\b.*\bUse :L?\d+/` -/
def isTruncationNotice (line : JsString) : Bool :=
  (run (.alt noticeRangeRegex noticeMoreRegex) line).any fun rest =>
    atWordBoundary line rest && (run (.star (.set (!isLineTerminator ·))) rest).any fun tail =>
      atWordBoundary line tail && test noticeUseRegex tail

def isHlPrefixed (line : JsString) : Bool := test hlPrefixRegex line
def isHlHeader (line : JsString) : Bool := test hlHeaderRegex line

/- `replace` with the empty text. -/
def dropHlPrefix (line : JsString) : JsString := (run hlPrefixRegex line).head?.getD line

/- A prefix that is dropped has a digit and a colon, so the line's length bounds the passes. -/
def stripPasses : Nat → JsString → JsString
  | 0, line => line
  | passes + 1, line =>
      let result := dropHlPrefix line
      if result = line then line else stripPasses passes result

def stripLeadingHashlinePrefixes (line : JsString) : JsString := stripPasses line.length line

structure LinePrefixStats where
  nonEmpty : Nat
  headerCount : Nat
  hashPrefixCount : Nat
  diffPlusHashPrefixCount : Nat
  diffPlusCount : Nat
  truncationNoticeCount : Nat
  deriving DecidableEq, Repr

def countLine (stats : LinePrefixStats) (line : JsString) : LinePrefixStats :=
  if line.isEmpty then stats
  else if isTruncationNotice line then { stats with truncationNoticeCount := stats.truncationNoticeCount + 1 }
  else if isHlHeader line then { stats with nonEmpty := stats.nonEmpty + 1, headerCount := stats.headerCount + 1 }
  else
    { stats with
      nonEmpty := stats.nonEmpty + 1
      hashPrefixCount := stats.hashPrefixCount + (if isHlPrefixed line then 1 else 0)
      diffPlusHashPrefixCount := stats.diffPlusHashPrefixCount + (if test hlPrefixPlusRegex line then 1 else 0)
      diffPlusCount := stats.diffPlusCount + (if (diffPlusRest line).isSome then 1 else 0) }

def collectLinePrefixStats (lines : List JsString) : LinePrefixStats := lines.foldl countLine ⟨0,0,0,0,0,0⟩

def stripNewLinePrefixes (lines : List JsString) : List JsString :=
  let stats := collectLinePrefixStats lines
  if stats.nonEmpty = 0 then lines
  else
    let contentLineCount := stats.nonEmpty - stats.headerCount
    let stripHash : Bool := contentLineCount > 0 && stats.hashPrefixCount == contentLineCount
    let stripPlus : Bool := !stripHash && stats.diffPlusHashPrefixCount == 0 && stats.diffPlusCount > 0 &&
      stats.diffPlusCount * 2 ≥ stats.nonEmpty
    if !stripHash && !stripPlus && stats.diffPlusHashPrefixCount == 0 then lines
    else
      (lines.filter fun line => !isTruncationNotice line && !(stripHash && isHlHeader line)).map fun line =>
        if stripHash then stripLeadingHashlinePrefixes line
        else if stripPlus then (diffPlusRest line).getD line
        else if stats.diffPlusHashPrefixCount > 0 && test hlPrefixPlusRegex line then dropHlPrefix line
        else line

def stripHashlinePrefixes (lines : List JsString) : List JsString :=
  let stats := collectLinePrefixStats lines
  if stats.nonEmpty = 0 then lines
  else
    let contentLineCount := stats.nonEmpty - stats.headerCount
    if contentLineCount = 0 || stats.hashPrefixCount != contentLineCount then lines
    else (lines.filter fun line => !isTruncationNotice line && !isHlHeader line).map stripLeadingHashlinePrefixes

inductive EditText where
  | none
  | text (edit : JsString)
  | lines (edit : List JsString)
  deriving DecidableEq, Repr

def withoutReturns (text : JsString) : JsString := text.filter (· != carriageReturn)

def hashlineParseText : EditText → List JsString
  | .none => []
  | .text edit =>
      let trimmed := if edit.getLast? = some lineFeed then edit.dropLast else edit
      stripNewLinePrefixes (splitLines (withoutReturns trimmed))
  | .lines edit => stripNewLinePrefixes edit

end Hashline
