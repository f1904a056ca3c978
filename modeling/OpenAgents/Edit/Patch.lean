import Mathlib.Data.List.Sort
import OpenAgents.Edit.HunkVariants
import OpenAgents.Lib.TextLines

/- Locating the hunks of a patch in the lines of a file and replacing what they match. -/
namespace Edit
open JsText TextLines Hashline

structure Replacement where
  startIndex : Nat
  oldLen : Nat
  newLines : List JsString
  deriving DecidableEq, Repr

/- After the index, else the nearest before it. -/
def findContextRelativeMatch (lines : List JsString) (patternLine : JsString) (contextIndex : Nat)
    (preferSecondForwardMatch : Bool) : Option Nat :=
  let same (i : Nat) := trim (lines.getD i []) == trim patternLine
  let forwardMatches := (List.range' (contextIndex + 1) (lines.length - (contextIndex + 1))).filter same
  match forwardMatches with
  | [] => (List.range contextIndex).reverse.find? same
  | [only] => some only
  | first :: second :: _ => some (if preferSecondForwardMatch then second else first)

def ambiguityHintWindow : Nat := 200
def matchPreviewContext : Nat := 2
def matchPreviewMaxLen : Nat := 80

def formatSequenceMatchPreview (lines : List JsString) (startIdx : Nat) : JsString :=
  formatPreviewWindow lines startIdx matchPreviewContext matchPreviewMaxLen

def blankLine : JsString := [lineFeed, lineFeed]

def formatSequenceMatchPreviews (lines : List JsString) (matchIndices : List Nat) (matchCount : Nat) : Option JsString :=
  let moreMsg :=
    if matchIndices.length < matchCount then
      js " (showing first " ++ decimal matchIndices.length ++ js " of " ++ decimal matchCount ++ js ")"
    else []
  if matchIndices.isEmpty then none
  else some (blankLine.intercalate (matchIndices.map (formatSequenceMatchPreview lines)) ++ moreMsg)

def chooseHintedMatch (matchIndices : List Nat) (hintIndex : Option Nat) (window : Nat) : Option Nat :=
  match hintIndex with
  | none => none
  | some hint =>
      match matchIndices.filter fun index => index ≤ hint + window && hint ≤ index + window with
      | [only] => some only
      | _ => none

def getHunkHintIndex (hunk : DiffHunk) (currentIndex : Nat) : Option Nat :=
  match hunk.oldStartLine with
  | none => none
  | some oldStartLine => if currentIndex ≤ oldStartLine - 1 then some (oldStartLine - 1) else none

def hasSignatureChars (context : JsString) : Bool := context.any fun c => (js "()\x7b\x7d[]").contains c

section locating
variable {Score : Type} (sc : Scoring Score)

def SearchResult.many (result : SearchResult Score) : Bool := 1 < result.matchCount.getD 0

/- One match after all, at the index found. -/
def SearchResult.asSingle (result : SearchResult Score) : SearchResult Score :=
  { result with matchCount := some 1, matchIndices := result.index.toList }

def SearchResult.withoutIndex (result : SearchResult Score) : SearchResult Score := { result with index := none }

def findHinted (lines : List JsString) (context : JsString) (hintStart : Nat) (allowFuzzy : Bool) :
    Option (SearchResult Score) :=
  let hintedResult := findContextLine sc lines context hintStart allowFuzzy
  if hintedResult.index.isSome then some hintedResult.asSingle else none

/- Each part is searched for after the one before it; the hint is for the last. -/
def findNestedContext (lines : List JsString) (lineHint : Option Nat) (allowFuzzy : Bool) :
    Nat → List JsString → SearchResult Score
  | _, [] => ⟨none,sc.const 0,none,[],none⟩
  | currentStart, part :: later =>
      let result := findContextLine sc lines part currentStart allowFuzzy
      let hinted :=
        match lineHint with
        | none => none
        | some hint =>
            if later.isEmpty && currentStart ≤ hint - 1 then findHinted sc lines part (hint - 1) allowFuzzy else none
      if result.many then hinted.getD result.withoutIndex
      else
        match result.index with
        | none => hinted.getD ⟨none,result.confidence,none,[],none⟩
        | some index => if later.isEmpty then result else findNestedContext lines lineHint allowFuzzy (index + 1) later

/- The last word, after the line on which the words before it stand. -/
def findInner (lines : List JsString) (inner : JsString) (outerIndex : Nat) (allowFuzzy : Bool) :
    Option (SearchResult Score) :=
  let innerResult := findContextLine sc lines inner (outerIndex + 1) allowFuzzy
  if innerResult.index.isSome then some (if innerResult.many then innerResult.asSingle else innerResult)
  else if innerResult.many then some { innerResult with matchCount := some 1 }
  else none

def joinWords (words : List JsString) : JsString := [space].intercalate words

def findByWords (lines : List JsString) (spaceParts : List JsString) (startFrom : Nat) (allowFuzzy : Bool) :
    Option (SearchResult Score) :=
  let outerResult := findContextLine sc lines (joinWords spaceParts.dropLast) startFrom allowFuzzy
  if outerResult.many then some outerResult.withoutIndex
  else
    match outerResult.index with
    | none => none
    | some outerIndex => findInner sc lines (spaceParts.getLast?.getD []) outerIndex allowFuzzy

def findHierarchicalContext (lines : List JsString) (context : JsString) (startFrom : Nat) (lineHint : Option Nat)
    (allowFuzzy : Bool) : SearchResult Score :=
  if context.contains lineFeed then
    findNestedContext sc lines lineHint allowFuzzy startFrom
      (((splitLines context).map trim).filter fun part => !part.isEmpty)
  else
    let spaceParts := splitWords context
    let signature := hasSignatureChars context
    let byWords := findByWords sc lines spaceParts startFrom allowFuzzy
    match if !signature && 2 < spaceParts.length then byWords else none with
    | some found => found
    | none =>
        let result := findContextLine sc lines context startFrom allowFuzzy
        let hinted :=
          match lineHint with
          | none => none
          | some hint =>
              if result.index.isNone || result.many then findHinted sc lines context (hint - 1) allowFuzzy else none
        let fromStart := findContextLine sc lines context 0 allowFuzzy
        match hinted with
        | some found => found
        | none =>
            if result.index.isSome || result.many then result
            else if startFrom ≠ 0 && (fromStart.index.isSome || fromStart.many) then fromStart
            else if !signature && 1 < spaceParts.length then
              let outerResult := findContextLine sc lines (joinWords spaceParts.dropLast) startFrom allowFuzzy
              if outerResult.index.isNone && !outerResult.many then ⟨none,outerResult.confidence,none,[],none⟩
              else byWords.getD result
            else result

def findSequenceWithHint (lines pattern : List JsString) (currentIndex : Nat) (hintIndex : Option Nat)
    (eof allowFuzzy : Bool) : SearchResult Score :=
  let decided (result : SearchResult Score) : Bool := result.index.isSome || result.many
  let primaryResult := seekSequence sc lines pattern currentIndex eof allowFuzzy
  let hintedResult :=
    match hintIndex with
    | none => none
    | some hint =>
        if hint = currentIndex then none
        else
          let hintedResult := seekSequence sc lines pattern hint eof allowFuzzy
          if decided hintedResult then some hintedResult else none
  let fromStartResult := seekSequence sc lines pattern 0 eof allowFuzzy
  match hintedResult with
  | some hinted =>
      if primaryResult.many then hinted else if decided primaryResult then primaryResult else hinted
  | none =>
      if decided primaryResult then primaryResult
      else if currentIndex ≠ 0 && decided fromStartResult then fromStartResult
      else primaryResult

/- The first variant with something to search for that is found once. -/
def firstVariant (lines : List JsString) (variants : List HunkVariant) (currentIndex : Nat) (hintIndex : Option Nat)
    (eof allowFuzzy : Bool) : Option (HunkVariant × SearchResult Score) :=
  (variants.map fun variant =>
      (variant, findSequenceWithHint sc lines variant.oldLines currentIndex hintIndex eof allowFuzzy)).find?
    fun (variant, result) => !variant.oldLines.isEmpty && result.index.isSome && !result.many

def attemptSequenceFallback (lines : List JsString) (hunk : DiffHunk) (currentIndex : Nat) (lineHint : Option Nat)
    (allowFuzzy allowAggressiveFallbacks : Bool) : Option Nat :=
  let hint := (getHunkHintIndex hunk currentIndex).or lineHint
  let fallbackResult := findSequenceWithHint sc lines hunk.oldLines currentIndex hint false allowFuzzy
  let again (index : Nat) : Bool :=
    index + 1 + hunk.oldLines.length ≤ lines.length &&
      (seekSequence sc lines hunk.oldLines (index + 1) false allowFuzzy).index.isSome
  let variants := filterFallbackVariants (buildFallbackVariants hunk) allowAggressiveFallbacks
  if hunk.oldLines.isEmpty then none
  else
    match fallbackResult.many, fallbackResult.index with
    | false, some index => if again index then none else some index
    | _, _ => (firstVariant sc lines variants currentIndex hint false allowFuzzy).bind fun (_, result) => result.index

structure PatchedText where
  content : JsString
  warnings : List JsString
  deriving DecidableEq, Repr

def dominantWarning (path : JsString) (line percent : Nat) : JsString :=
  js "Dominant fuzzy match selected in " ++ path ++ js " near line " ++ decimal line ++ js " (" ++ decimal percent ++
    js "% similar)."

def occurrencesError (path : JsString) (occurrences : Nat) (previews : JsString) (moreMsg : JsString) : JsString :=
  js "Found " ++ decimal occurrences ++ js " occurrences in " ++ path ++ moreMsg ++ js ":" ++ blankLine ++ previews ++
    blankLine ++ js "Add more context lines to disambiguate."

/- The search again with the lower threshold, if the threshold was above it. -/
def characterOutcome (content oldText : JsString) (fuzzyThreshold : Score) (allowFuzzy : Bool) : MatchOutcome Score :=
  let matchOutcome := findMatch sc content oldText allowFuzzy fuzzyThreshold
  let relaxedOutcome := findMatch sc content oldText allowFuzzy (sc.const 920)
  if matchOutcome.found.isNone && allowFuzzy && sc.gt fuzzyThreshold (sc.const 920) && relaxedOutcome.found.isSome then
    relaxedOutcome
  else matchOutcome

def applyCharacterMatch (originalContent path : JsString) (hunk : DiffHunk) (fuzzyThreshold : Score)
    (allowFuzzy : Bool) : Except JsString PatchedText :=
  let oldText := joinLines hunk.oldLines
  let newText := joinLines hunk.newLines
  let normalizedContent := normalizeToLF originalContent
  let normalizedOldText := normalizeToLF oldText
  let matchOutcome := characterOutcome sc normalizedContent normalizedOldText fuzzyThreshold allowFuzzy
  let occurrences := matchOutcome.occurrences.getD 0
  let fuzzyMatches := matchOutcome.fuzzyMatches.getD 0
  if 1 < occurrences then
    let moreMsg := if 5 < occurrences then js " (showing first 5 of " ++ decimal occurrences ++ js ")" else []
    .error (occurrencesError path occurrences (blankLine.intercalate matchOutcome.occurrencePreviews) moreMsg)
  else if 1 < fuzzyMatches then
    .error (js "Found " ++ decimal fuzzyMatches ++ js " high-confidence matches in " ++ path ++
      js ". The text must be unique. Please provide more context to make it unique.")
  else
    match matchOutcome.found with
    | none =>
        match matchOutcome.closest with
        | some closest =>
            .error (js "Could not find a close enough match in " ++ path ++ js ". Closest match (" ++
              decimal (sc.percent closest.confidence) ++ js "% similar) at line " ++ decimal closest.startLine ++ js ".")
        | none => .error (js "Failed to find expected lines in " ++ path ++ js ":\n" ++ oldText)
    | some found =>
        let adjustedNewText := adjustIndentation normalizedOldText found.actualText newText
        let warnings :=
          if matchOutcome.dominantFuzzy then [dominantWarning path found.startLine (sc.percent found.confidence)] else []
        let before := normalizedContent.take found.startIndex
        let after := normalizedContent.drop (found.startIndex + found.actualText.length)
        .ok ⟨before ++ adjustedNewText ++ after,warnings⟩

def applyTrailingNewlinePolicy (content : JsString) (hadFinalNewline : Bool) : JsString :=
  if hadFinalNewline then if endsWithLineFeed content then content else content ++ [lineFeed]
  else content.rdropWhile (· == lineFeed)

structure ComputeState where
  lineIndex : Nat
  replacements : List Replacement
  warnings : List JsString
  deriving DecidableEq, Repr

def strategyHint (strategy : Option Strategy) : JsString :=
  match strategy with
  | none => []
  | some strategy => js " Matching strategy: " ++ strategy.text ++ js "."

def ambiguousError (lines : List JsString) (path subject : JsString) (result : SearchResult Score) : JsString :=
  let count := result.matchCount.getD 0
  let previewText := ((formatSequenceMatchPreviews lines result.matchIndices count).map (blankLine ++ ·)).getD []
  js "Found " ++ decimal count ++ js " matches for " ++ subject ++ js " in " ++ path ++ js "." ++
    strategyHint result.strategy ++ previewText ++ blankLine ++
    js "Add more surrounding context or additional @@ anchors to make it unique."

def lastContext (changeContext : JsString) : JsString := ((splitLines changeContext).getLast?).getD []

/- The search starts on the context line when the hunk repeats it, else after it. -/
def startAfterContext (hunk : DiffHunk) (changeContext : JsString) (idx : Nat) : Nat :=
  let isHierarchicalContext := changeContext.contains lineFeed || 2 < (splitWords changeContext).length
  match hunk.oldLines with
  | [] => idx + 1
  | firstOldLine :: _ =>
      if trim firstOldLine = trim (lastContext changeContext) || isHierarchicalContext then idx else idx + 1

def allowsAggressive (hunk : DiffHunk) : Bool :=
  hunk.changeContext.isSome || hunk.oldStartLine.isSome || hunk.isEndOfFile

/- The index of the context line, if any, and where the search starts. -/
def locateContext (originalLines : List JsString) (path : JsString) (hunk : DiffHunk) (lineIndex : Nat)
    (allowFuzzy : Bool) : Except JsString (Option Nat × Nat) :=
  match hunk.changeContext with
  | none =>
      match hunk.oldStartLine with
      | none => .ok (none, lineIndex)
      | some lineHint =>
          if hunk.hasContextLines then .ok (none, lineIndex)
          else .ok (none, min (lineHint - 1) (originalLines.length - 1))
  | some changeContext =>
      let result := findHierarchicalContext sc originalLines changeContext lineIndex hunk.oldStartLine allowFuzzy
      let fallback :=
        attemptSequenceFallback sc originalLines hunk lineIndex hunk.oldStartLine allowFuzzy (allowsAggressive hunk)
      match result.many, result.index with
      | false, some idx => .ok (some idx, startAfterContext hunk changeContext idx)
      | many, idx =>
          match fallback with
          | some index => .ok (idx, index)
          | none =>
              if many then
                .error (ambiguousError originalLines path (js "context '" ++ lastContext changeContext ++ js "'") result)
              else
                .error (js "Failed to find context '" ++ (js " > ").intercalate (splitLines changeContext) ++
                  js "' in " ++ path)

def insertionIndex (originalLines : List JsString) (path : JsString) (hunk : DiffHunk) (lineIndex : Nat) :
    Except JsString Nat :=
  if hunk.changeContext.isSome then .ok lineIndex
  else
    match hunk.oldStartLine.or hunk.newStartLine with
    | some hint =>
        if hint < 1 then
          .error (js "Line hint " ++ decimal hint ++ js " is out of range for insertion in " ++ path ++
            js " (line numbers start at 1)")
        else if originalLines.length + 1 < hint then
          .error (js "Line hint " ++ decimal hint ++ js " is out of range for insertion in " ++ path ++
            js " (file has " ++ decimal originalLines.length ++ js " lines)")
        else .ok (hint - 1)
    | none =>
        .ok (if originalLines.getLast? = some [] then originalLines.length - 1 else originalLines.length)

structure Located (Score : Type) where
  pattern : List JsString
  newSlice : List JsString
  searchResult : SearchResult Score

def dropBlankLast (lines : List JsString) : List JsString := if lines.getLast? = some [] then lines.dropLast else lines

/- Without its last line when that is empty and the whole was not found. -/
def searchTrimmed (originalLines : List JsString) (hunk : DiffHunk) (lineIndex : Nat) (allowFuzzy : Bool) :
    Located Score :=
  let matchHint := getHunkHintIndex hunk lineIndex
  let seek (pattern : List JsString) :=
    findSequenceWithHint sc originalLines pattern lineIndex matchHint hunk.isEndOfFile allowFuzzy
  let whole : Located Score := ⟨hunk.oldLines,hunk.newLines,seek hunk.oldLines⟩
  if whole.searchResult.index.isNone && hunk.oldLines.getLast? = some [] then
    ⟨hunk.oldLines.dropLast,dropBlankLast hunk.newLines,seek hunk.oldLines.dropLast⟩
  else whole

def hunkVariants (hunk : DiffHunk) : List HunkVariant :=
  filterFallbackVariants (buildFallbackVariants hunk) (allowsAggressive hunk)

def searchVariants (originalLines : List JsString) (hunk : DiffHunk) (lineIndex : Nat) (allowFuzzy : Bool)
    (located : Located Score) : Located Score :=
  if located.searchResult.index.isSome && !located.searchResult.many then located
  else
    match firstVariant sc originalLines (hunkVariants hunk) lineIndex (getHunkHintIndex hunk lineIndex)
        hunk.isEndOfFile allowFuzzy with
    | some (variant, result) => ⟨variant.oldLines,variant.newLines,result⟩
    | none => located

def bare (index : Nat) (confidence : Score) : SearchResult Score := ⟨some index,confidence,none,[],none⟩

def sharesLine (hunk : DiffHunk) (line : JsString) : Bool := hunk.newLines.any fun newLine => trim newLine == trim line

/- A change of one line, next to the context line. -/
def searchAdjacent (originalLines : List JsString) (hunk : DiffHunk) (contextIndex : Option Nat)
    (located : Located Score) : Located Score :=
  match located.searchResult.index, contextIndex with
  | none, some context =>
      let found := (hunkVariants hunk).findSome? fun variant =>
        match variant.oldLines, variant.newLines with
        | [removedLine], [_] =>
            (findContextRelativeMatch originalLines removedLine context (sharesLine hunk removedLine)).map fun index =>
              (variant, index)
        | _, _ => none
      match found with
      | some (variant, index) => ⟨variant.oldLines,variant.newLines,bare index (sc.const 950)⟩
      | none => located
  | _, _ => located

/- One line that stands in several places is taken next to the context line. -/
def searchRepeated (originalLines : List JsString) (hunk : DiffHunk) (contextIndex : Option Nat)
    (located : Located Score) : Located Score :=
  match located.searchResult.index, contextIndex, located.pattern with
  | some _, some context, [line] =>
      if 1 < originalLines.countP fun other => trim other == trim line then
        match findContextRelativeMatch originalLines line context (sharesLine hunk line) with
        | some index => { located with searchResult := bare index located.searchResult.confidence }
        | none => located
      else located
  | _, _, _ => located

def chooseHinted (hunk : DiffHunk) (lineIndex : Nat) (located : Located Score) : Located Score :=
  let hintIndex := (getHunkHintIndex hunk lineIndex).or (hunk.oldStartLine.map (· - 1))
  if located.searchResult.many then
    match chooseHintedMatch located.searchResult.matchIndices hintIndex ambiguityHintWindow with
    | some hinted =>
        { located with searchResult := { located.searchResult with index := some hinted, matchCount := some 1 } }
    | none => located
  else located

def locateHunk (originalLines : List JsString) (hunk : DiffHunk) (contextIndex : Option Nat) (lineIndex : Nat)
    (allowFuzzy : Bool) : Located Score :=
  chooseHinted hunk lineIndex
    (searchRepeated originalLines hunk contextIndex
      (searchAdjacent sc originalLines hunk contextIndex
        (searchVariants sc originalLines hunk lineIndex allowFuzzy
          (searchTrimmed sc originalLines hunk lineIndex allowFuzzy))))

def notFoundError (originalLines : List JsString) (path : JsString) (hunk : DiffHunk) (lineIndex : Nat)
    (pattern : List JsString) : JsString :=
  let message := js "Failed to find expected lines in " ++ path ++ js ":\n" ++ joinLines hunk.oldLines
  match findClosestSequenceMatch sc originalLines pattern lineIndex hunk.isEndOfFile with
  | (some index, confidence) =>
      if sc.gt confidence (sc.const 0) then
        message ++ blankLine ++ js "Closest match (" ++ decimal (sc.percent confidence) ++ js "% similar) near line " ++
          decimal (index + 1) ++ js ":\n" ++ formatSequenceMatchPreview originalLines index
      else message
  | (none, _) => message

/- A hunk without context or hints must not match a second time. -/
def secondOccurrence (originalLines : List JsString) (hunk : DiffHunk) (pattern : List JsString) (found : Nat)
    (allowFuzzy : Bool) : Option Nat :=
  if hunk.changeContext.isNone && !hunk.hasContextLines && !hunk.isEndOfFile && hunk.oldStartLine.isNone then
    (seekSequence sc originalLines pattern (found + 1) false allowFuzzy).index
  else none

def replaceLocated (originalLines : List JsString) (path : JsString) (hunk : DiffHunk) (state : ComputeState)
    (lineIndex : Nat) (allowFuzzy : Bool) (located : Located Score) : Except JsString ComputeState :=
  let pattern := located.pattern
  let searchResult := located.searchResult
  match searchResult.index with
  | none =>
      if searchResult.many then .error (ambiguousError originalLines path (js "the text") searchResult)
      else .error (notFoundError sc originalLines path hunk lineIndex pattern)
  | some found =>
      let warnings :=
        if searchResult.strategy = some .fuzzyDominant then
          state.warnings ++ [dominantWarning path (found + 1) (sc.percent searchResult.confidence)]
        else state.warnings
      if searchResult.many then .error (ambiguousError originalLines path (js "the text") searchResult)
      else
        match secondOccurrence sc originalLines hunk pattern found allowFuzzy with
        | some second =>
            .error (occurrencesError path 2 (blankLine.intercalate
              [formatSequenceMatchPreview originalLines found, formatSequenceMatchPreview originalLines second]) [])
        | none =>
            let actualMatchedLines := (originalLines.drop found).take pattern.length
            let lineIndex := found + pattern.length
            if pattern = located.newSlice then .ok { state with lineIndex := lineIndex, warnings := warnings }
            else
              let adjustedNewLines := adjustLinesIndentation pattern actualMatchedLines located.newSlice
              .ok ⟨lineIndex,state.replacements ++ [⟨found,pattern.length,adjustedNewLines⟩],warnings⟩

def computeHunk (originalLines : List JsString) (path : JsString) (allowFuzzy : Bool) (state : ComputeState)
    (hunk : DiffHunk) : Except JsString ComputeState :=
  match (hunk.oldStartLine.toList ++ hunk.newStartLine.toList).find? (· < 1) with
  | some hint =>
      .error (js "Line hint " ++ decimal hint ++ js " is out of range for " ++ path ++ js " (line numbers start at 1)")
  | none => do
      let (contextIndex, lineIndex) ← locateContext sc originalLines path hunk state.lineIndex allowFuzzy
      if hunk.oldLines.isEmpty then
        let insertionIdx ← insertionIndex originalLines path hunk lineIndex
        .ok ⟨lineIndex,state.replacements ++ [⟨insertionIdx,0,hunk.newLines⟩],state.warnings⟩
      else
        replaceLocated sc originalLines path hunk state lineIndex allowFuzzy
          (locateHunk sc originalLines hunk contextIndex lineIndex allowFuzzy)

def formatRange (replacement : Replacement) : JsString :=
  if replacement.oldLen = 0 then decimal (replacement.startIndex + 1) ++ js " (insertion)"
  else decimal (replacement.startIndex + 1) ++ js "-" ++ decimal (replacement.startIndex + replacement.oldLen)

def findOverlap : List Replacement → Option (Replacement × Replacement)
  | prev :: next :: rest =>
      if next.startIndex < prev.startIndex + prev.oldLen then some (prev, next) else findOverlap (next :: rest)
  | _ => none

def startsBefore (a b : Replacement) : Prop := a.startIndex ≤ b.startIndex

instance : DecidableRel startsBefore := fun a b => inferInstanceAs (Decidable (a.startIndex ≤ b.startIndex))

def computeReplacements (originalLines : List JsString) (path : JsString) (hunks : List DiffHunk) (allowFuzzy : Bool) :
    Except JsString (List Replacement × List JsString) := do
  let state ← hunks.foldlM (computeHunk sc originalLines path allowFuzzy) ⟨0,[],[]⟩
  let replacements := state.replacements.insertionSort startsBefore
  match findOverlap replacements with
  | some (prev, next) =>
      .error (js "Overlapping hunks detected in " ++ path ++ js " at lines " ++ formatRange prev ++ js " and " ++
        formatRange next ++ js ". Split hunks or add more context to avoid overlap.")
  | none => .ok (replacements, state.warnings)

/- The last replacement is made first, so that the indices of the others stay right. -/
def applyReplacements (lines : List JsString) (replacements : List Replacement) : List JsString :=
  replacements.foldr
    (fun r result => result.take r.startIndex ++ r.newLines ++ result.drop (r.startIndex + r.oldLen)) lines

def isSimpleReplace (hunk : DiffHunk) : Bool :=
  hunk.changeContext.isNone && !hunk.hasContextLines && !hunk.oldLines.isEmpty && hunk.oldStartLine.isNone &&
    !hunk.isEndOfFile

def applyByLines (originalContent path : JsString) (hunks : List DiffHunk) (allowFuzzy : Bool) :
    Except JsString PatchedText := do
  let hadFinalNewline := endsWithLineFeed originalContent
  let originalLines := splitLines originalContent
  let lines := if hadFinalNewline then originalLines.dropLast else originalLines
  let (replacements, warnings) ← computeReplacements sc lines path hunks allowFuzzy
  let newLines := applyReplacements lines replacements ++ if hadFinalNewline then [[]] else []
  .ok ⟨applyTrailingNewlinePolicy (joinLines newLines) hadFinalNewline,warnings⟩

def applyHunksToContent (originalContent path : JsString) (hunks : List DiffHunk) (fuzzyThreshold : Score)
    (allowFuzzy : Bool) : Except JsString PatchedText :=
  match hunks with
  | [hunk] =>
      if isSimpleReplace hunk then do
        let matched ← applyCharacterMatch sc originalContent path hunk fuzzyThreshold allowFuzzy
        .ok { matched with
          content := applyTrailingNewlinePolicy matched.content (endsWithLineFeed originalContent) }
      else applyByLines sc originalContent path [hunk] allowFuzzy
  | _ => applyByLines sc originalContent path hunks allowFuzzy

/- An update of a text whose line endings are line feeds. -/
def patchText (normalizedContent path diff : JsString) (fuzzyThreshold : Score) (allowFuzzy : Bool) :
    Except JsString PatchedText := do
  let hunks ← parseDiffHunks diff
  if hunks.isEmpty then .error (js "Diff contains no hunks")
  else applyHunksToContent sc normalizedContent path hunks fuzzyThreshold allowFuzzy

end locating

end Edit
