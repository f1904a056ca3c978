import OpenAgents.Lib.BacktrackingRegex
import OpenAgents.Hashline.Tokenizer

/- White space, punctuation and indentation of the lines an edit compares and inserts. -/
namespace Edit
open JsText

def tabUnit : CodeUnit := 9

def isIndentUnit (c : CodeUnit) : Bool := c == space || c == tabUnit
def getLeadingWhitespace (line : JsString) : JsString := line.takeWhile isIndentUnit
def countLeadingWhitespace (line : JsString) : Nat := (getLeadingWhitespace line).length
def isBlankLine (line : JsString) : Bool := (trim line).isEmpty
def isNonEmptyLine (line : JsString) : Bool := !isBlankLine line

/- Dashes, quotes, odd spaces, `≠`, `½`, and the units that have no width. -/
def unicodeReplacement (c : CodeUnit) : JsString :=
  if (0x2010 ≤ c && c ≤ 0x2015) || c == 0x2212 then js "-"
  else if 0x2018 ≤ c && c ≤ 0x201B then js "'"
  else if 0x201C ≤ c && c ≤ 0x201F then js "\""
  else if c == 0xA0 || (0x2002 ≤ c && c ≤ 0x200A) || c == 0x202F || c == 0x205F || c == 0x3000 then js " "
  else if c == 0x2260 then js "!="
  else if c == 0xBD then js "1/2"
  else if (0x200B ≤ c && c ≤ 0x200D) || c == 0xFEFF then []
  else [c]

/- `normalizeNFC` is the host's composition of characters. -/
def normalizeUnicode (normalizeNFC : JsString → JsString) (s : JsString) : JsString :=
  normalizeNFC ((trim s).flatMap unicodeReplacement)

def fuzzyPunctuation (c : CodeUnit) : CodeUnit :=
  if c == 34 || c == 0x201E || c == 0x201F || c == 0xAB || c == 0xBB then 34
  else if c == 39 || c == 0x201A || c == 0x201B || c == 0x60 || c == 0xB4 then 39
  else if (0x2010 ≤ c && c ≤ 0x2014) || c == 0x2212 then 45
  else c

def collapseBlanks : Bool → JsString → JsString
  | _, [] => []
  | inRun, c :: rest =>
      if isIndentUnit c then (if inRun then collapseBlanks true rest else space :: collapseBlanks true rest)
      else c :: collapseBlanks false rest

def normalizeForFuzzy (line : JsString) : JsString := collapseBlanks false ((trim line).map fuzzyPunctuation)

structure IndentProfile where
  lines : List JsString
  indentCounts : List Nat
  char : Option CodeUnit
  spaceOnly : Bool
  tabOnly : Bool
  mixed : Bool
  unit : Nat
  nonEmptyCount : Nat
  deriving DecidableEq, Repr

def IndentProfile.read (p : IndentProfile) (line : JsString) : IndentProfile :=
  if isBlankLine line then p
  else
    let indent := getLeadingWhitespace line
    let bothKinds := indent.contains space && indent.contains tabUnit
    { p with
      nonEmptyCount := p.nonEmptyCount + 1
      indentCounts := p.indentCounts ++ [indent.length]
      tabOnly := p.tabOnly && !indent.contains space
      spaceOnly := p.spaceOnly && !indent.contains tabUnit
      char := p.char.or indent.head?
      mixed := p.mixed || bothKinds || (indent.head?.isSome && p.char.isSome && p.char != indent.head?) }

/- The greatest common divisor of the indents that are not zero. -/
def indentUnit (indentCounts : List Nat) : Nat := indentCounts.foldl Nat.gcd 0

def buildIndentProfile (text : JsString) : IndentProfile :=
  let lines := splitLines text
  let p := lines.foldl IndentProfile.read ⟨lines,[],none,true,true,false,0,0⟩
  let spaced := if p.spaceOnly && 0 < p.nonEmptyCount then indentUnit p.indentCounts else 0
  { p with unit := if p.tabOnly && 0 < p.nonEmptyCount then 1 else spaced }

def tabsToSpaces (spacesPerTab : Nat) (line : JsString) : JsString :=
  let leading := getLeadingWhitespace line
  if (trimStart line).isEmpty || !leading.contains tabUnit || leading.contains space then line
  else List.replicate (leading.length * spacesPerTab) space ++ trimStart line

def convertLeadingTabsToSpaces (text : JsString) (spacesPerTab : Nat) : JsString :=
  if spacesPerTab = 0 then text else joinLines ((splitLines text).map (tabsToSpaces spacesPerTab))

def isIndentationOnlyRewrite (oldText newText : JsString) : Bool :=
  (splitLines oldText).map trim == (splitLines newText).map trim

def maybeConvertTabIndentation (oldProfile actualProfile newProfile : IndentProfile) (newText : JsString) :
    Option JsString :=
  if !actualProfile.spaceOnly || !oldProfile.tabOnly || !newProfile.tabOnly || actualProfile.unit = 0 then none
  else if (oldProfile.lines.zip actualProfile.lines).all fun (oldLine, actualLine) =>
      isBlankLine oldLine || isBlankLine actualLine || countLeadingWhitespace oldLine = 0 ||
        countLeadingWhitespace actualLine = countLeadingWhitespace oldLine * actualProfile.unit then
    some (convertLeadingTabsToSpaces newText actualProfile.unit)
  else none

/- How much deeper each actual line stands; blank lines do not count. -/
def collectIndentDeltas (oldLines actualLines : List JsString) : List Int :=
  ((oldLines.zip actualLines).filter fun (oldLine, actualLine) =>
      isNonEmptyLine oldLine && isNonEmptyLine actualLine).map fun (oldLine, actualLine) =>
    (countLeadingWhitespace actualLine : Int) - countLeadingWhitespace oldLine

def uniformDelta (deltas : List Int) : Option Int :=
  match deltas with
  | [] => none
  | delta :: rest => if rest.all (· == delta) then some delta else none

def shiftLine (delta : Int) (indentChar : CodeUnit) (line : JsString) : JsString :=
  if isBlankLine line then line
  else if 0 < delta then List.replicate delta.toNat indentChar ++ line
  else line.drop (min (-delta).toNat (countLeadingWhitespace line))

def detectIndentChar (lines : List JsString) : CodeUnit :=
  (lines.findSome? fun line => (getLeadingWhitespace line).head?).getD space

def adjustIndentation (oldText actualText newText : JsString) : JsString :=
  if oldText = actualText then newText
  else if isIndentationOnlyRewrite oldText newText then newText
  else
    let oldProfile := buildIndentProfile oldText
    let actualProfile := buildIndentProfile actualText
    let newProfile := buildIndentProfile newText
    if oldProfile.nonEmptyCount = 0 || actualProfile.nonEmptyCount = 0 || newProfile.nonEmptyCount = 0 then newText
    else if oldProfile.mixed || actualProfile.mixed || newProfile.mixed then newText
    else if oldProfile.char.isSome && actualProfile.char.isSome && oldProfile.char != actualProfile.char then
      (maybeConvertTabIndentation oldProfile actualProfile newProfile newText).getD newText
    else
      match uniformDelta (collectIndentDeltas oldProfile.lines actualProfile.lines) with
      | none => newText
      | some delta =>
          if delta = 0 then newText
          else if newProfile.char.isSome && actualProfile.char.isSome && newProfile.char != actualProfile.char then
            newText
          else
            let indentChar := (actualProfile.char.or oldProfile.char).getD (detectIndentChar (splitLines actualText))
            joinLines ((splitLines newText).map (shiftLine delta indentChar))

end Edit

/- Reading hunks from the text of a diff for one file. An error is its message. -/
namespace Edit
open JsText BacktrackingRegex Hashline

structure DiffHunk where
  changeContext : Option JsString
  oldStartLine : Option Nat
  newStartLine : Option Nat
  hasContextLines : Bool
  oldLines : List JsString
  newLines : List JsString
  isEndOfFile : Bool
  deriving DecidableEq, Repr

def parseError (message : JsString) (lineNumber : Nat) : JsString :=
  js "Line " ++ decimal lineNumber ++ js ": " ++ message

def eofMarker : JsString := js "*** End of File"
def changeContextMarker : JsString := js "@@ "
def emptyChangeContextMarker : JsString := js "@@"

def multiFileMarkers : List JsString :=
  [js "*** Update File:", js "*** Add File:", js "*** Delete File:", js "diff --git "]

def diffMetadataPrefixes : List JsString :=
  multiFileMarkers ++ [js "index ", js "--- ", js "+++ ", js "new file mode ", js "deleted file mode ",
    js "rename from ", js "rename to ", js "similarity index ", js "dissimilarity index ", js "old mode ",
    js "new mode "]

def patchWrapperPrefixes : List JsString := [js "*** Begin Patch", js "*** End Patch"]

def plusUnit : CodeUnit := 43
def minusUnit : CodeUnit := 45

def isDiffContentLine (line : JsString) : Bool :=
  match line.head? with
  | none => false
  | some firstChar =>
      if firstChar = space then true
      else if firstChar = plusUnit then !startsWith line (js "+++ ")
      else if firstChar = minusUnit then !startsWith line (js "--- ")
      else false

def matchesTrimmedPrefix (line : JsString) (prefixes : List JsString) : Bool := prefixes.any (startsWith line ·)

def isPatchWrapperLine (line : JsString) : Bool := line == js "***" || matchesTrimmedPrefix line patchWrapperPrefixes

def isDroppedTail (line : JsString) : Bool := line.isEmpty || ((trim line).isEmpty && !isDiffContentLine line)

def dropFirstIf (p : JsString → Bool) (lines : List JsString) : List JsString :=
  match lines with
  | [] => []
  | first :: rest => if p first then rest else first :: rest

def dropLastIf (p : JsString → Bool) (lines : List JsString) : List JsString :=
  match lines.getLast? with
  | none => []
  | some last => if p last then lines.dropLast else lines

def isKeptLine (line : JsString) : Bool :=
  isDiffContentLine line || !matchesTrimmedPrefix (trim line) diffMetadataPrefixes

def normalizedDiffLines (lines : List JsString) : List JsString :=
  let wrapper (line : JsString) := isPatchWrapperLine (trim line)
  (dropLastIf wrapper (dropFirstIf wrapper (lines.rdropWhile isDroppedTail))).filter isKeptLine

def normalizeDiff (diff : JsString) : JsString := joinLines (normalizedDiffLines (splitLines diff))

def dropPlus (line : JsString) : JsString :=
  if startsWith line (js "+ ") then line.drop 2 else if startsWith line (js "+") then line.drop 1 else line

def normalizeCreateContent (content : JsString) : JsString :=
  let lines := splitLines content
  let nonEmptyLines := lines.filter fun line => !line.isEmpty
  if !nonEmptyLines.isEmpty && nonEmptyLines.all fun line => startsWith line (js "+ ") || startsWith line (js "+") then
    joinLines (lines.map dropPlus)
  else content

/- `split(/\s+/)` without the empty pieces. -/
def splitWords (s : JsString) : List JsString := (s.splitOnP isWhitespace).filter fun word => !word.isEmpty

def dropSide (candidate : JsString) : JsString :=
  if startsWith candidate (js "a/") || startsWith candidate (js "b/") then candidate.drop 2 else candidate

def extractMarkerPath (line : JsString) : Option JsString :=
  if startsWith line (js "diff --git ") then
    let parts := splitWords line
    ((parts[3]?).or parts[2]?).map dropSide
  else if startsWith line (js "*** Update File:") then some (trim (line.drop (js "*** Update File:").length))
  else if startsWith line (js "*** Add File:") then some (trim (line.drop (js "*** Add File:").length))
  else if startsWith line (js "*** Delete File:") then some (trim (line.drop (js "*** Delete File:").length))
  else none

def countMultiFileMarkers (diff : JsString) : Nat :=
  let trimmed := ((splitLines diff).filter fun line => !isDiffContentLine line).map trim
  let found := trimmed.filterMap fun line => (multiFileMarkers.find? (startsWith line ·)).map fun marker => (marker, line)
  let paths := (found.filterMap fun (_, line) => extractMarkerPath line).filter fun path => !path.isEmpty
  if 0 < paths.dedup.length then paths.dedup.length
  else (multiFileMarkers.map fun marker => (found.map (·.1)).count marker).foldl max 0

structure UnifiedHunkHeader where
  oldStartLine : Nat
  newStartLine : Nat
  changeContext : Option JsString
  deriving DecidableEq, Repr

/- `\d+`, with the number read. What follows never begins with a digit. -/
def readNumber (s : JsString) : Option (Nat × JsString) :=
  match s.takeWhile isDigit with
  | [] => none
  | d :: digits => some (digitsValue (d :: digits), s.drop (d :: digits).length)

def readLiteral (token s : JsString) : Option JsString := if startsWith s token then some (s.drop token.length) else none
def readBlanks (s : JsString) : Option JsString := if (s.head?.map isWhitespace).getD false then some (trimStart s) else none

/- `(?:,\d+)?` -/
def skipCount (s : JsString) : JsString :=
  match readLiteral (js ",") s with
  | none => s
  | some rest => ((readNumber rest).map (·.2)).getD s

def isLineTerminator (c : CodeUnit) : Bool := c == 10 || c == 13 || c == 0x2028 || c == 0x2029
def isDotText (s : JsString) : Bool := s.all fun c => !isLineTerminator c
def nonEmptyText (s : JsString) : Option JsString := if s.isEmpty then none else some s

def parseUnifiedHunkHeader (line : JsString) : Option UnifiedHunkHeader := do
  let afterOpen ← readLiteral (js "@@") line
  let afterMinus ← readLiteral (js "-") (trimStart afterOpen)
  let (oldStartLine, afterOld) ← readNumber afterMinus
  let blanks ← readBlanks (skipCount afterOld)
  let afterPlus ← readLiteral (js "+") blanks
  let (newStartLine, afterNew) ← readNumber afterPlus
  let afterClose ← readLiteral (js "@@") (trimStart (skipCount afterNew))
  let changeContext := trimStart afterClose
  if isDotText changeContext then some ⟨oldStartLine,newStartLine,nonEmptyText (trim changeContext)⟩ else none

def isUnifiedDiffMetadataLine (line : JsString) : Bool :=
  matchesTrimmedPrefix line (diffMetadataPrefixes.filter fun token => !startsWith token (js "*** "))

def blanksRegex : Regex := .set isWhitespace
def numberRegex : Regex := plus (.set isDigit)

def emptyContextRegex : Regex := concat [.literal (js "@@"), .star blanksRegex, .literal (js "@@"), .endOfInput]

def lineHintOpening : Regex := concat [ignoreCase (js "line"), .optional (ignoreCase (js "s")), plus blanksRegex]

def lineHintRest : Regex :=
  concat [.optional (concat [.star blanksRegex, one minusUnit, .star blanksRegex, numberRegex]),
    .optional (concat [.star blanksRegex, .literal (js "@@")]), .endOfInput]

def lineHint (value : JsString) : Option Nat := do
  let afterOpening ← (run lineHintOpening value).head?
  let (number, rest) ← readNumber afterOpening
  if test lineHintRest rest then some number else none

def topOfFileRegex : Regex :=
  concat [.alt (ignoreCase (js "top")) (.alt (ignoreCase (js "start")) (ignoreCase (js "beginning"))), plus blanksRegex,
    ignoreCase (js "of"), plus blanksRegex, ignoreCase (js "file"), .endOfInput]

structure HunkHeader where
  changeContexts : List JsString
  startLines : Option (Nat × Nat)
  startIndex : Nat
  deriving DecidableEq, Repr

def atStartLines (oldStartLine newStartLine : Nat) (changeContexts : List JsString) : HunkHeader :=
  ⟨changeContexts,some (oldStartLine, newStartLine),1⟩

def parseHunkHeader (headerLine : JsString) (lineNumber : Nat) (allowMissingContext : Bool) : Except JsString HunkHeader :=
  let headerTrimmed := trimEnd headerLine
  if startsWith headerLine (js "@@") then
    if headerTrimmed = emptyChangeContextMarker || test emptyContextRegex headerTrimmed then .ok ⟨[],none,1⟩
    else
      match parseUnifiedHunkHeader headerTrimmed with
      | some header =>
          if header.oldStartLine < 1 || header.newStartLine < 1 then
            .error (parseError (js "Line numbers in @@ header must be >= 1") lineNumber)
          else .ok (atStartLines header.oldStartLine header.newStartLine header.changeContext.toList)
      | none =>
          if startsWith headerTrimmed changeContextMarker then
            let contextValue := headerTrimmed.drop changeContextMarker.length
            let trimmedContextValue := trim contextValue
            let normalizedContextValue :=
              ((readLiteral (js "@@") trimmedContextValue).map trimStart).getD trimmedContextValue
            match lineHint normalizedContextValue with
            | some number =>
                if number < 1 then .error (parseError (js "Line hint must be >= 1") lineNumber)
                else .ok (atStartLines number number [])
            | none =>
                if test topOfFileRegex normalizedContextValue then .ok (atStartLines 1 1 [])
                else .ok ⟨if trimmedContextValue.isEmpty then [] else [contextValue],none,1⟩
          else .ok ⟨(nonEmptyText (trim (headerTrimmed.drop 2))).toList,none,1⟩
  else if allowMissingContext then .ok ⟨[],none,0⟩
  else .error (parseError (js "Expected hunk to start with @@ context marker, got: '" ++ headerLine ++ js "'") lineNumber)

/- Further `@@` lines before the body, with the lines that are left. -/
def nestedContexts : List JsString → List JsString × List JsString
  | [] => ([], [])
  | nextLine :: rest =>
      let trimmed := trimEnd nextLine
      let nestedContext := trimmed.drop changeContextMarker.length
      if !startsWith nextLine (js "@@") then ([], nextLine :: rest)
      else if startsWith trimmed changeContextMarker then
        let (contexts, left) := nestedContexts rest
        (if (trim nestedContext).isEmpty then contexts else nestedContext :: contexts, left)
      else if trimmed = emptyChangeContextMarker then nestedContexts rest
      else ([], nextLine :: rest)

structure HunkBody where
  hasContextLines : Bool
  oldLines : List JsString
  newLines : List JsString
  isEndOfFile : Bool
  parsedLines : Nat
  deriving DecidableEq, Repr

def HunkBody.context (body : HunkBody) (line : JsString) : HunkBody :=
  { body with
    hasContextLines := true
    oldLines := body.oldLines ++ [line]
    newLines := body.newLines ++ [line]
    parsedLines := body.parsedLines + 1 }

def HunkBody.added (body : HunkBody) (line : JsString) : HunkBody :=
  { body with newLines := body.newLines ++ [line], parsedLines := body.parsedLines + 1 }

def HunkBody.removed (body : HunkBody) (line : JsString) : HunkBody :=
  { body with oldLines := body.oldLines ++ [line], parsedLines := body.parsedLines + 1 }

def isElision (line : JsString) : Bool := trim line == js "..." || trim line == js "…"

def isEofLine (line : JsString) : Bool :=
  !isDiffContentLine line && trimEnd line == eofMarker && startsWith line eofMarker

def noLines : JsString := js "Hunk does not contain any lines"

def unexpectedLine (line : JsString) : JsString :=
  js "Unexpected line in hunk: '" ++ line ++ js "'. Lines must start with ' ' (context), '+' (add), or '-' (remove)"

def scanBody (lineNumber : Nat) (body : HunkBody) : List JsString → Except JsString HunkBody
  | [] => .ok body
  | line :: rest =>
      if line.isEmpty && 0 < body.parsedLines && startsWith (trimStart (rest.headD [])) (js "@@") then .ok body
      else if isEofLine line then
        if body.parsedLines = 0 then .error (parseError noLines (lineNumber + 1))
        else .ok { body with isEndOfFile := true, parsedLines := body.parsedLines + 1 }
      else if isElision line then
        scanBody lineNumber { body with hasContextLines := true, parsedLines := body.parsedLines + 1 } rest
      else if line.isEmpty then scanBody lineNumber (body.context []) rest
      else if line.head? = some space then scanBody lineNumber (body.context (line.drop 1)) rest
      else if line.head? = some plusUnit then scanBody lineNumber (body.added (line.drop 1)) rest
      else if line.head? = some minusUnit then scanBody lineNumber (body.removed (line.drop 1)) rest
      else if !startsWith line (js "@@") then scanBody lineNumber (body.context line) rest
      else if body.parsedLines = 0 then .error (parseError (unexpectedLine line) (lineNumber + 1))
      else .ok body

/- `^\s*\d{1,6}\s+` -/
def lineNumberPrefix : Regex := concat [.star blanksRegex, .set isDigit, upTo 5 (.set isDigit), plus blanksRegex]

/- What `(.+)$` takes after the prefix. -/
def afterLineNumber (line : JsString) : Option JsString :=
  (run lineNumberPrefix line).find? fun rest => !rest.isEmpty && isDotText rest

def prefixNumber (line : JsString) : Nat := digitsValue ((trimStart line).takeWhile isDigit)

def countSequential : List Nat → Nat
  | a :: b :: rest => (if b = a + 1 then 1 else 0) + countSequential (b :: rest)
  | _ => 0

/- Six tenths of the lines that are not blank carry a number, and most numbers follow on. -/
def looksNumbered (oldLines newLines : List JsString) : Bool :=
  let allLines := (oldLines ++ newLines).filter isNonEmptyLine
  let numbers := (allLines.filter fun line => (afterLineNumber line).isSome).map prefixNumber
  2 ≤ allLines.length && max 2 ((3 * allLines.length + 4) / 5) ≤ numbers.length &&
    !(3 ≤ numbers.length && countSequential numbers < max 1 (numbers.length - 2))

def stripNumber (line : JsString) : JsString := (afterLineNumber line).getD line

def stripLineNumberPrefixes (hunk : DiffHunk) : DiffHunk :=
  if looksNumbered hunk.oldLines hunk.newLines then
    { hunk with oldLines := hunk.oldLines.map stripNumber, newLines := hunk.newLines.map stripNumber }
  else hunk

structure ParseHunkResult where
  hunk : DiffHunk
  linesConsumed : Nat
  deriving DecidableEq, Repr

def joinContexts (contexts : List JsString) : Option JsString :=
  if contexts.isEmpty then none else some (joinLines contexts)

def parseOneHunk (lines : List JsString) (lineNumber : Nat) (allowMissingContext : Bool) : Except JsString ParseHunkResult :=
  match lines with
  | [] => .error (parseError (js "Diff does not contain any lines") lineNumber)
  | headerLine :: _ => do
      let header ← parseHunkHeader headerLine lineNumber allowMissingContext
      let (nested, bodyLines) := nestedContexts (lines.drop header.startIndex)
      let startIndex := lines.length - bodyLines.length
      if bodyLines.isEmpty then .error (parseError noLines (lineNumber + 1))
      else
        let body ← scanBody lineNumber ⟨false,[],[],false,0⟩ bodyLines
        if body.parsedLines = 0 then .error (parseError noLines (lineNumber + startIndex))
        else
          let hunk : DiffHunk :=
            ⟨joinContexts (header.changeContexts ++ nested),header.startLines.map (·.1),header.startLines.map (·.2),
              body.hasContextLines,body.oldLines,body.newLines,body.isEndOfFile⟩
          .ok ⟨stripLineNumberPrefixes hunk,body.parsedLines + startIndex⟩

/- A hunk takes at least one line, so the number of lines is fuel enough. -/
def parseHunks : Nat → Nat → List JsString → Except JsString (List DiffHunk)
  | 0, _, _ => .ok []
  | _ + 1, _, [] => .ok []
  | fuel + 1, i, line :: rest =>
      let isDiffContent := line.head? = some space || line.head? = some plusUnit || line.head? = some minusUnit
      if isBlankLine line then parseHunks fuel (i + 1) rest
      else if !isDiffContent && isUnifiedDiffMetadataLine (trim line) then parseHunks fuel (i + 1) rest
      else if startsWith (trim line) (js "@@") && rest.all isBlankLine then .ok []
      else do
        let parsed ← parseOneHunk (line :: rest) (i + 1) true
        let hunks ← parseHunks fuel (i + parsed.linesConsumed) ((line :: rest).drop parsed.linesConsumed)
        .ok (parsed.hunk :: hunks)

def parseDiffHunks (diff : JsString) : Except JsString (List DiffHunk) :=
  let multiFileCount := countMultiFileMarkers diff
  if 1 < multiFileCount then
    .error (js "Diff contains " ++ decimal multiFileCount ++
      js " file markers. Single-file patches cannot contain multi-file markers.")
  else
    let lines := splitLines (normalizeDiff diff)
    parseHunks lines.length 0 lines

end Edit
