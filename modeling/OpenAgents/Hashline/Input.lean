import OpenAgents.Hashline.Patcher

/- The patch splitter: file headers, the noise that is taken off their paths, and the sections
   between them. -/
namespace Hashline
open JsText BacktrackingRegex

/-- What the host answers about paths. -/
structure NodePath where
  isAbsolute : JsString → Bool
  resolve : JsString → JsString
  relative : JsString → JsString → JsString

structure SplitOptions where
  cwd : Option JsString
  path : Option JsString
  deriving DecidableEq, Repr

structure RawSection where
  path : JsString
  fileHash : Option JsString
  diff : JsString
  deriving DecidableEq, Repr

def isQuoteMark (c : CodeUnit) : Bool := c == 34 || c == 39

def unquoteHashlinePath (pathText : JsString) : JsString :=
  if pathText.length < 2 then pathText
  else if pathText.head?.any isQuoteMark && pathText.head? == pathText.getLast? then pathText.tail.dropLast
  else pathText

def isAlphanumeric (c : CodeUnit) : Bool :=
  isDigit c || (65 ≤ c && c ≤ 90) || (97 ≤ c && c ≤ 122)

def separatorsRegex : Regex := .star (.set (!isAlphanumeric ·))

/- `(?:update|add|delete|move)[^A-Za-z0-9]*(?:file|to)?[^A-Za-z0-9]*:` -/
def applyPatchKeywordRegex : Regex :=
  let keyword := Regex.alt (ignoreCase (js "update")) (.alt (ignoreCase (js "add"))
    (.alt (ignoreCase (js "delete")) (ignoreCase (js "move"))))
  let object := Regex.optional (.alt (ignoreCase (js "file")) (ignoreCase (js "to")))
  .seq keyword (.seq separatorsRegex (.seq object (.seq separatorsRegex (one headerColon))))

def starsRegex : Regex := upTo 3 (one 42)
def blanksRegex : Regex := .star (.set isWhitespace)

/- `^\*{0,3}\s*(?:…)?\s*\*{0,3}\s*`, the keyword in place of the dots. -/
def applyPatchPathNoiseRegex : Regex :=
  .seq starsRegex (.seq blanksRegex (.seq (.optional applyPatchKeywordRegex)
    (.seq blanksRegex (.seq starsRegex blanksRegex))))

def stripApplyPatchPathNoise (pathText : JsString) : JsString :=
  (run applyPatchPathNoiseRegex pathText).head?.getD pathText

def isWithinCwd (np : NodePath) (relative : JsString) : Bool :=
  relative.isEmpty || (!startsWith relative (js "..") && !np.isAbsolute relative)

/- An absent and an empty `cwd` are the same here. -/
def relativeToCwd (np : NodePath) (cwd : Option JsString) (unquoted : JsString) : JsString :=
  match cwd with
  | none => unquoted
  | some dir =>
      if dir.isEmpty || !np.isAbsolute unquoted then unquoted
      else
        let relative := np.relative (np.resolve dir) (np.resolve unquoted)
        if isWithinCwd np relative then (if relative.isEmpty then js "." else relative) else unquoted

def normalizeHashlinePath (np : NodePath) (cwd : Option JsString) (rawPath : JsString) : JsString :=
  relativeToCwd np cwd (stripApplyPatchPathNoise (unquoteHashlinePath (trim rawPath)))

/- `(?:#([0-9A-Fa-f]{4}))?\s*$`; the result is the capture. -/
def headerTail (s : JsString) : Option (Option JsString) :=
  let hash := s.tail.take fileHashLength
  if s.head? = some 35 && hash.length == fileHashLength && hash.all isHexDigitCode &&
      (s.drop (fileHashLength + 1)).all isWhitespace then
    some (some hash)
  else if s.all isWhitespace then some none
  else none

/- `^(\S+?)` before it: the shortest path that leaves such a tail. -/
def shortestPath : JsString → JsString → Option FileHeader
  | _, [] => none
  | taken, c :: rest =>
      if isWhitespace c then none
      else
        match headerTail rest with
        | some fileHash => some ⟨taken ++ [c],fileHash⟩
        | none => shortestPath (taken ++ [c]) rest

def tryParseRecoveryHeader (np : NodePath) (cwd : Option JsString) (line : JsString) : Option RawSection :=
  if startsWith line filePrefix then
    let body := stripApplyPatchPathNoise (trim (line.drop filePrefix.length))
    if body.isEmpty then none
    else
      match shortestPath [] body with
      | none => none
      | some found =>
          let path := normalizeHashlinePath np cwd found.path
          if path.isEmpty then none else some ⟨path,found.fileHash.map (·.map upperHex),[]⟩
  else none

def malformedHeader (trimmed : JsString) : JsString :=
  js "Input header must be ¶PATH or ¶PATH#TAG with a 4-hex content-hash tag; got " ++ quote trimmed ++ js "."

def emptyHeader : JsString := js "Input header \"¶\" is empty; provide a file path."

def parseHashlineHeaderLine (np : NodePath) (cwd : Option JsString) (line : JsString) :
    Except JsString (Option RawSection) :=
  let trimmed := trimEnd line
  if startsWith trimmed filePrefix then
    match classifyKind trimmed with
    | .header path fileHash =>
        let parsedPath := normalizeHashlinePath np cwd path
        if parsedPath.isEmpty then .error emptyHeader else .ok (some ⟨parsedPath,fileHash,[]⟩)
    | _ =>
        match tryParseRecoveryHeader np cwd trimmed with
        | some recovered => .ok (some recovered)
        | none => .error (malformedHeader trimmed)
  else .ok none

def isLeadingBlank (line : JsString) : Bool :=
  let head := stripCarriageReturn line
  (trim head).isEmpty || classifyKind head == .envelopeBegin

def stripLeadingBlankLines (input : JsString) : JsString :=
  joinLines ((splitLines (stripBom input).text).dropWhile isLeadingBlank)

/- `split(/\r?\n/)`: the last piece keeps a carriage return at its end. -/
def stripAllButLast : List JsString → List JsString
  | [] => []
  | [last] => [last]
  | line :: next :: rest => stripCarriageReturn line :: stripAllButLast (next :: rest)

def splitRows (input : JsString) : List JsString := stripAllButLast (splitLines input)

def isOp (line : JsString) : Bool := (tryParseHunkHeader line).isSome

def containsRecognizableHashlineOperations (input : JsString) : Bool := (splitRows input).any isOp

def hasExplicitHeader (np : NodePath) (cwd : Option JsString) : List JsString → Except JsString Bool
  | [] => .ok false
  | rawLine :: rest => do
      match ← parseHashlineHeaderLine np cwd rawLine with
      | some _ => .ok true
      | none => hasExplicitHeader np cwd rest

def normalizeFallbackInput (np : NodePath) (input : JsString) (options : SplitOptions) :
    Except JsString JsString := do
  if ← hasExplicitHeader np options.cwd (splitRows (stripBom input).text) then .ok input
  else
    match options.path with
    | none => .ok input
    | some fallback =>
        if fallback.isEmpty || !containsRecognizableHashlineOperations input then .ok input
        else
          let fallbackPath := normalizeHashlinePath np options.cwd fallback
          if fallbackPath.isEmpty then .ok input
          else .ok (filePrefix ++ fallbackPath ++ lineFeed :: input)

structure Splitting where
  sections : List RawSection
  current : Option RawSection
  currentLines : List JsString
  deriving DecidableEq, Repr

def Splitting.flush (s : Splitting) : Splitting :=
  match s.current with
  | none => s
  | some current =>
      if s.currentLines.any fun line => !(trim line).isEmpty then
        ⟨s.sections ++ [{ current with diff := joinLines s.currentLines }],s.current,[]⟩
      else { s with currentLines := [] }

def Splitting.push (s : Splitting) (line : JsString) : Splitting :=
  { s with currentLines := s.currentLines ++ [line] }

def splitFrom (np : NodePath) (cwd : Option JsString) : Splitting → List JsString → Except JsString Splitting
  | s, [] => .ok s
  | s, line :: rest =>
      match classifyKind line with
      | .envelopeEnd => .ok s
      | .abort => .ok s
      | .envelopeBegin => splitFrom np cwd s rest
      | _ =>
          if startsWith (trimEnd line) filePrefix then do
            match ← parseHashlineHeaderLine np cwd line with
            | some header => splitFrom np cwd { s.flush with current := some header, currentLines := [] } rest
            | none => splitFrom np cwd (s.push line) rest
          else splitFrom np cwd (s.push line) rest

def unifiedDiffHeader : JsString :=
  js "unified-diff hunk header (`@@ -N,M +N,M @@`) is not valid in hashline. File sections start with `¶path#HASH`; use `replace`, `delete`, or `insert` ops."

def missingHeader (firstLine : JsString) : JsString :=
  js "input must begin with \"¶PATH#HASH\" on the first non-blank line for anchored edits; got: " ++
    quote (firstLine.take 120) ++ js ". Example: \"¶src/foo.ts#0A3\" then edit ops."

def splitRawSections (np : NodePath) (input : JsString) (options : SplitOptions) :
    Except JsString (List RawSection) := do
  let normalized ← normalizeFallbackInput np input options
  let lines := splitRows (stripLeadingBlankLines normalized)
  let firstLine := lines.headD []
  match ← parseHashlineHeaderLine np options.cwd firstLine with
  | none =>
      if test unifiedHunkRegex (trimEnd firstLine) then .error unifiedDiffHeader
      else .error (missingHeader firstLine)
  | some _ => do
      let last ← splitFrom np options.cwd ⟨[],none,[]⟩ lines
      .ok last.flush.sections

structure MergedSection where
  path : JsString
  fileHash : Option JsString
  diffs : List JsString
  deriving DecidableEq, Repr

def conflictingTags (path known given : JsString) : JsString :=
  js "Conflicting hashline snapshot tags for " ++ path ++ js ": #" ++ known ++ js " and #" ++ given ++
    js ". Re-read the file and retry with one current header."

/- The entry of the path takes the section up; a new path goes to the end. -/
def mergeSection (raw : RawSection) : List MergedSection → Except JsString (List MergedSection)
  | [] => .ok [⟨raw.path,raw.fileHash,[raw.diff]⟩]
  | existing :: rest =>
      if existing.path = raw.path then
        match existing.fileHash, raw.fileHash with
        | some known, some given =>
            if known = given then .ok ({ existing with diffs := existing.diffs ++ [raw.diff] } :: rest)
            else .error (conflictingTags raw.path known given)
        | none, given => .ok (⟨existing.path,given,existing.diffs ++ [raw.diff]⟩ :: rest)
        | some known, none => .ok (⟨existing.path,some known,existing.diffs ++ [raw.diff]⟩ :: rest)
      else (mergeSection raw rest).map (existing :: ·)

def mergeSamePathSections (sections : List RawSection) : Except JsString (List RawSection) := do
  let merged ← sections.foldlM (fun byPath raw => mergeSection raw byPath) []
  .ok (merged.map fun entry => ⟨entry.path,entry.fileHash,joinLines entry.diffs⟩)

/- `Patch.parse`: the sections of the patch. -/
def Patch.parse (np : NodePath) (input : JsString) (options : SplitOptions) : Except JsString (List PatchSection) := do
  let raw ← splitRawSections np input options
  let merged ← mergeSamePathSections raw
  .ok (merged.map fun sec => ⟨sec.path,sec.fileHash,sec.diff⟩)

end Hashline
