import OpenAgents.Edit.Replace

/- What is inserted for a hunk that matched inexactly, and the smaller hunks tried when
   the whole one does not match. -/
namespace Edit
open JsText Hashline

def areEqualTrimmedLines (left right : List JsString) : Bool := left.map trim == right.map trim

/- The indentations of the lines that are not blank. -/
def indents (lines : List JsString) : List JsString := (lines.filter isNonEmptyLine).map getLeadingWhitespace

def isTabOnly (lines : List JsString) : Bool := (indents lines).all fun ws => !ws.contains space
def isSpaceOnly (lines : List JsString) : Bool := (indents lines).all fun ws => !ws.contains tabUnit
def isMixed (lines : List JsString) : Bool := (indents lines).any fun ws => ws.contains space && ws.contains tabUnit

/- The indentations of the lines that stand opposite each other, blank ones aside. -/
def indentPairs (patternLines actualLines : List JsString) : List (Nat × Nat) :=
  ((patternLines.zip actualLines).filter fun (pattern, actual) => isNonEmptyLine pattern && isNonEmptyLine actual).map
    fun (pattern, actual) => (countLeadingWhitespace pattern, countLeadingWhitespace actual)

def canConvertTabsToSpaces (oldLines actualLines : List JsString) (spacesPerTab : Nat) : Bool :=
  (indentPairs oldLines actualLines).all fun (old, actual) => old = 0 || actual = old * spacesPerTab

/- One ratio for all pairs; a ratio of zero counts as none. -/
def indentRatio : Nat → List (Nat × Nat) → Option Nat
  | ratio, [] => some ratio
  | ratio, (pattern, actual) :: rest =>
      if pattern = 0 then indentRatio ratio rest
      else if actual % pattern ≠ 0 then none
      else if ratio = 0 then indentRatio (actual / pattern) rest
      else if ratio = actual / pattern then indentRatio ratio rest
      else none

def convertTabs (patternLines actualLines newLines : List JsString) : Option (List JsString) :=
  match indentRatio 0 (indentPairs patternLines actualLines) with
  | none => none
  | some ratio =>
      if 0 < ratio && canConvertTabsToSpaces patternLines actualLines ratio then
        some (splitLines (convertLeadingTabsToSpaces (joinLines newLines) ratio))
      else none

/- Tabs of an actual line with the spaces of its pattern line, one entry for each number of tabs. -/
def collectSamples : List (Nat × Nat) → List (Nat × Nat) → Option (List (Nat × Nat))
  | samples, [] => some samples
  | samples, (spaces, tabs) :: rest =>
      if tabs = 0 then collectSamples samples rest
      else
        match samples.lookup tabs with
        | none => collectSamples (samples ++ [(tabs, spaces)]) rest
        | some known => if known = spaces then collectSamples samples rest else none

/- `spaces = tabs * width + offset`; one sample is taken to have no offset. -/
def tabModel (samples : List (Nat × Nat)) : Option (Int × Int) :=
  match samples with
  | [] => none
  | [(tabs, spaces)] => if spaces % tabs = 0 && 0 < spaces / tabs then some (↑(spaces / tabs), 0) else none
  | (t1, s1) :: (t2, s2) :: _ =>
      let rise := (s2 : Int) - s1
      let run := (t2 : Int) - t1
      let width := rise / run
      let offset := s1 - t1 * width
      if rise % run = 0 && 0 < width && samples.all (fun (t, s) => t * width + offset = s) then some (width, offset)
      else none

def tabsForSpaces (tabWidth offset : Int) (line : JsString) : JsString :=
  let ws := countLeadingWhitespace line
  let adjusted := ws - offset
  let tabCount := adjusted / tabWidth
  if isBlankLine line || ws = 0 then line
  else if 0 ≤ adjusted && adjusted % tabWidth = 0 then List.replicate tabCount.toNat tabUnit ++ line.drop ws
  else if 0 ≤ tabCount then
    List.replicate tabCount.toNat tabUnit ++ List.replicate (adjusted - tabCount * tabWidth).toNat space ++ line.drop ws
  else line

def convertSpaces (patternLines actualLines newLines : List JsString) : Option (List JsString) := do
  let samples ← collectSamples [] (indentPairs patternLines actualLines)
  let (tabWidth, offset) ← tabModel samples
  some (newLines.map (tabsForSpaces tabWidth offset))

/- `used` holds the trimmed text of each repeated line already taken from the file. -/
def alignLine (actualLines : List JsString) (patternMin : Nat) (delta : Option Int) (indentChar : CodeUnit)
    (used : List JsString) (newLine : JsString) : JsString × List JsString :=
  let trimmed := trim newLine
  let matching := actualLines.filter fun line => isNonEmptyLine line && trim line == trimmed
  let shifted :=
    if delta.getD 0 ≠ 0 && countLeadingWhitespace newLine = patternMin then shiftLine (delta.getD 0) indentChar newLine
    else newLine
  if isBlankLine newLine then (newLine, used)
  else
    match matching with
    | [] => (shifted, used)
    | [only] => (only, used)
    | _ =>
        if matching.contains newLine then (newLine, used)
        else
          match matching[used.count trimmed]? with
          | some line => (line, trimmed :: used)
          | none => (shifted, used)

def alignLines (align : List JsString → JsString → JsString × List JsString) :
    List JsString → List JsString → List JsString
  | _, [] => []
  | used, newLine :: rest => (align used newLine).1 :: alignLines align (align used newLine).2 rest

def adjustLinesIndentation (patternLines actualLines newLines : List JsString) : List JsString :=
  if patternLines.isEmpty || actualLines.isEmpty || newLines.isEmpty then newLines
  else if patternLines = actualLines then newLines
  else if areEqualTrimmedLines patternLines newLines then newLines
  else
    let unmixed := !isMixed patternLines && !isMixed actualLines
    let fromTabs :=
      if unmixed && isTabOnly patternLines && isSpaceOnly actualLines then convertTabs patternLines actualLines newLines
      else none
    let fromSpaces :=
      if unmixed && isSpaceOnly patternLines && isTabOnly actualLines then convertSpaces patternLines actualLines newLines
      else none
    match fromTabs.or fromSpaces with
    | some converted => converted
    | none =>
        let patternMin := ((patternLines.filter isNonEmptyLine).map countLeadingWhitespace).min?.getD 0
        let delta := uniformDelta (collectIndentDeltas patternLines actualLines)
        alignLines (alignLine actualLines patternMin delta (detectIndentChar actualLines)) [] newLines

inductive HunkVariantKind where
  | trimCommon
  | dedupeShared
  | collapseRepeated
  | singleLine
  deriving DecidableEq, Repr

structure HunkVariant where
  oldLines : List JsString
  newLines : List JsString
  kind : HunkVariantKind
  deriving DecidableEq, Repr

def commonLead : List JsString → List JsString → Nat
  | a :: left, b :: right => if a = b then commonLead left right + 1 else 0
  | _, _ => 0

def trimCommonContext (oldLines newLines : List JsString) : Option HunkVariant :=
  let start := commonLead oldLines newLines
  let oldRest := oldLines.drop start
  let newRest := newLines.drop start
  let tail := commonLead oldRest.reverse newRest.reverse
  let trimmedOld := oldRest.take (oldRest.length - tail)
  let trimmedNew := newRest.take (newRest.length - tail)
  if start = 0 && tail = 0 then none
  else if trimmedOld.isEmpty && trimmedNew.isEmpty then none
  else some ⟨trimmedOld,trimmedNew,.trimCommon⟩

def sharedLines (oldLines newLines : List JsString) : List JsString := oldLines.filter (newLines.contains ·)

def collapseConsecutive (shared : List JsString) : List JsString → List JsString
  | [] => []
  | [line] => [line]
  | line :: next :: rest =>
      if line = next && shared.contains line then collapseConsecutive shared (next :: rest)
      else line :: collapseConsecutive shared (next :: rest)

def collapseConsecutiveSharedLines (oldLines newLines : List JsString) : Option HunkVariant :=
  let shared := sharedLines oldLines newLines
  let collapsedOld := collapseConsecutive shared oldLines
  let collapsedNew := collapseConsecutive shared newLines
  if collapsedOld.length = oldLines.length && collapsedNew.length = newLines.length then none
  else some ⟨collapsedOld,collapsedNew,.dedupeShared⟩

/- The largest size from two on at which a shared block stands twice in a row. -/
def repeatedSize (shared lines : List JsString) : Option Nat :=
  (List.range' 2 (lines.length / 2 - 1)).reverse.find? fun size =>
    (lines.take size).all (shared.contains ·) && lines.take size = (lines.drop size).take size

/- Each step leaves a shorter rest, so the length is fuel enough. -/
def collapseBlocks (shared : List JsString) : Nat → List JsString → List JsString
  | 0, lines => lines
  | _ + 1, [] => []
  | fuel + 1, line :: rest =>
      match repeatedSize shared (line :: rest) with
      | some size => collapseBlocks shared fuel ((line :: rest).take size ++ (line :: rest).drop (size * 2))
      | none => line :: collapseBlocks shared fuel rest

def collapseRepeatedBlocks (oldLines newLines : List JsString) : Option HunkVariant :=
  let shared := sharedLines oldLines newLines
  let collapsedOld := collapseBlocks shared oldLines.length oldLines
  let collapsedNew := collapseBlocks shared newLines.length newLines
  if collapsedOld.length = oldLines.length && collapsedNew.length = newLines.length then none
  else some ⟨collapsedOld,collapsedNew,.collapseRepeated⟩

def reduceToSingleLineChange (oldLines newLines : List JsString) : Option HunkVariant :=
  if oldLines.length ≠ newLines.length then none
  else
    match (oldLines.zip newLines).filter fun (old, new) => old ≠ new with
    | [(old, new)] => some ⟨[old],[new],.singleLine⟩
    | _ => none

def HunkVariant.key (variant : HunkVariant) : JsString :=
  joinLines variant.oldLines ++ js "||" ++ joinLines variant.newLines

def uniqueVariants : List JsString → List HunkVariant → List HunkVariant
  | _, [] => []
  | seen, variant :: rest =>
      if variant.oldLines.isEmpty && variant.newLines.isEmpty then uniqueVariants seen rest
      else if seen.contains variant.key then uniqueVariants seen rest
      else variant :: uniqueVariants (variant.key :: seen) rest

def buildFallbackVariants (hunk : DiffHunk) : List HunkVariant :=
  let base : HunkVariant := ⟨hunk.oldLines,hunk.newLines,.trimCommon⟩
  let trimmed := trimCommonContext base.oldLines base.newLines
  let afterTrim := trimmed.getD base
  let deduped := collapseConsecutiveSharedLines afterTrim.oldLines afterTrim.newLines
  let afterDedupe := deduped.getD afterTrim
  let collapsed := collapseRepeatedBlocks afterDedupe.oldLines afterDedupe.newLines
  let singleLine := reduceToSingleLineChange afterTrim.oldLines afterTrim.newLines
  uniqueVariants [] (trimmed.toList ++ deduped.toList ++ collapsed.toList ++ singleLine.toList)

def filterFallbackVariants (variants : List HunkVariant) (allowAggressive : Bool) : List HunkVariant :=
  if allowAggressive then variants
  else variants.filter fun variant => variant.kind != .collapseRepeated && variant.kind != .singleLine

end Edit
