import OpenAgents.Edit.Diff
import OpenAgents.Hashline.Normalize

/- Finding a text or a sequence of lines: exactly, then more and more leniently. Scores are
   floating point numbers; the model keeps what is compared with what, not the arithmetic. -/
namespace Edit
open JsText Hashline

/- `const n` is `n` thousandths; `average` is of scores in the order they are added up. -/
structure Scoring (Score : Type) where
  normalizeNFC : JsString → JsString
  similarity : JsString → JsString → Score
  average : List Score → Score
  const : Int → Score
  gt : Score → Score → Bool
  ge : Score → Score → Bool
  gap : Score → Score → Score
  percent : Score → Nat

inductive Strategy where
  | exact
  | trimTrailing
  | trim
  | commentPrefix
  | unicode
  | leading
  | substring
  | fuzzy
  | fuzzyDominant
  | character
  deriving DecidableEq, Repr

def Strategy.text : Strategy → JsString
  | .exact => js "exact"
  | .trimTrailing => js "trim-trailing"
  | .trim => js "trim"
  | .commentPrefix => js "comment-prefix"
  | .unicode => js "unicode"
  | .leading => js "prefix"
  | .substring => js "substring"
  | .fuzzy => js "fuzzy"
  | .fuzzyDominant => js "fuzzy-dominant"
  | .character => js "character"

structure FuzzyMatch (Score : Type) where
  actualText : JsString
  startIndex : Nat
  startLine : Nat
  confidence : Score

structure MatchOutcome (Score : Type) where
  found : Option (FuzzyMatch Score)
  closest : Option (FuzzyMatch Score)
  occurrences : Option Nat
  occurrencePreviews : List JsString
  fuzzyMatches : Option Nat
  dominantFuzzy : Bool

structure SearchResult (Score : Type) where
  index : Option Nat
  confidence : Score
  matchCount : Option Nat
  matchIndices : List Nat
  strategy : Option Strategy

def partialMatchMinLength : Nat := 6
def occurrencePreviewContext : Nat := 5
def previewMaxLen : Nat := 80
def maxRecordedMatches : Nat := 5

structure IndexedMatches where
  firstMatch : Option Nat
  matchCount : Nat
  matchIndices : List Nat
  deriving DecidableEq, Repr

/- The indices from `start` on and before `stop`. -/
def collectIndexedMatches (start stop : Nat) (predicate : Nat → Bool) : IndexedMatches :=
  let found := (List.range' start (stop - start)).filter predicate
  ⟨found.head?,found.length,found.take maxRecordedMatches⟩

section
variable {Score : Type}

def toSingleMatchResult (matches' : IndexedMatches) (confidence : Score) (strategy : Strategy) :
    Option (SearchResult Score) :=
  matches'.firstMatch.map fun index => ⟨some index,confidence,none,[],some strategy⟩

def toAmbiguousMatchResult (matches' : IndexedMatches) (confidence : Score) (strategy : Strategy) :
    Option (SearchResult Score) :=
  matches'.firstMatch.map fun index =>
    ⟨some index,confidence,some matches'.matchCount,matches'.matchIndices,some strategy⟩

end

def previewLine (maxLen number : Nat) (line : JsString) : JsString :=
  js "  " ++ decimal number ++ js " | " ++
    (if line.length > maxLen then line.take (maxLen - 1) ++ js "…" else line)

def formatPreviewWindow (lines : List JsString) (centerIndex context maxLen : Nat) : JsString :=
  let start := centerIndex - context
  let stop := min lines.length (centerIndex + context + 1)
  joinLines (((lines.take stop).drop start).mapIdx fun index line => previewLine maxLen (start + index + 1) line)

/- `split(target).length - 1`: occurrences that do not overlap. -/
def countFrom (target : JsString) : Nat → JsString → Nat
  | 0, _ => 0
  | fuel + 1, content =>
      match indexOf target content with
      | none => 0
      | some idx => countFrom target fuel (content.drop (idx + target.length)) + 1

def countOccurrences (content target : JsString) : Nat := countFrom target (content.length + 1) content

def lineNumberAt (content : JsString) (idx : Nat) : Nat := (splitLines (content.take idx)).length

/- Where the next occurrence begins, overlapping or not. -/
def occurrenceStarts (content target : JsString) : Nat → Nat → List Nat
  | 0, _ => []
  | fuel + 1, searchStart =>
      match indexOf target (content.drop searchStart) with
      | none => []
      | some idx => (searchStart + idx) :: occurrenceStarts content target fuel (searchStart + idx + 1)

section matching
variable {Score : Type} (sc : Scoring Score)

def findExactMatchOutcome (content target : JsString) : Option (MatchOutcome Score) :=
  match indexOf target content with
  | none => none
  | some exactIndex =>
      if 1 < countOccurrences content target then
        let starts := occurrenceStarts content target maxRecordedMatches 0
        let previews := starts.map fun idx =>
          formatPreviewWindow (splitLines content) (lineNumberAt content idx - 1) occurrencePreviewContext previewMaxLen
        some ⟨none,none,some (countOccurrences content target),previews,none,false⟩
      else
        some ⟨some ⟨target,exactIndex,lineNumberAt content exactIndex,sc.const 1000⟩,none,none,[],none,false⟩

/- Depths in steps of the smallest indentation, rounded to the nearest. -/
def computeRelativeIndentDepths (lines : List JsString) : List Nat :=
  let nonEmptyIndents := (lines.filter isNonEmptyLine).map countLeadingWhitespace
  let minIndent := nonEmptyIndents.min?.getD 0
  let steps := (nonEmptyIndents.map (· - minIndent)).filter (0 < ·)
  let indentUnit := steps.min?.getD 1
  lines.map fun line =>
    if isBlankLine line then 0
    else (2 * (countLeadingWhitespace line - minIndent) + indentUnit) / (2 * indentUnit)

def normalizeLines (lines : List JsString) (includeDepth : Bool) : List JsString :=
  (lines.zip (computeRelativeIndentDepths lines)).map fun (line, depth) =>
    (if includeDepth then decimal depth ++ js "|" else js "|") ++
      (if isBlankLine line then [] else normalizeForFuzzy (trim line))

def computeLineOffsets : Nat → List JsString → List Nat
  | _, [] => []
  | offset, line :: rest => offset :: computeLineOffsets (offset + line.length + 1) rest

structure BestFuzzyMatchResult (Score : Type) where
  best : Option (FuzzyMatch Score)
  bestScore : Score
  aboveThresholdCount : Nat
  secondBestScore : Score

def scoreWindow (contentLines targetLines : List JsString) (offsets : List Nat) (threshold : Score)
    (includeDepth : Bool) (r : BestFuzzyMatchResult Score) (start : Nat) : BestFuzzyMatchResult Score :=
  let windowLines := (contentLines.drop start).take targetLines.length
  let score := sc.average (((normalizeLines targetLines includeDepth).zip
    (normalizeLines windowLines includeDepth)).map fun (target, window) => sc.similarity target window)
  let counted := { r with
    aboveThresholdCount := if sc.ge score threshold then r.aboveThresholdCount + 1 else r.aboveThresholdCount }
  if sc.gt score r.bestScore then
    { counted with
      best := some ⟨joinLines windowLines,offsets.getD start 0,start + 1,score⟩
      bestScore := score
      secondBestScore := r.bestScore }
  else if sc.gt score r.secondBestScore then { counted with secondBestScore := score }
  else counted

def findBestFuzzyMatchCore (contentLines targetLines : List JsString) (offsets : List Nat) (threshold : Score)
    (includeDepth : Bool) : BestFuzzyMatchResult Score :=
  (List.range (contentLines.length + 1 - targetLines.length)).foldl
    (scoreWindow sc contentLines targetLines offsets threshold includeDepth)
    ⟨none,sc.const (-1000),0,sc.const (-1000)⟩

def findBestFuzzyMatch (content target : JsString) (threshold : Score) : BestFuzzyMatchResult Score :=
  let contentLines := splitLines content
  let targetLines := splitLines target
  let nothing : BestFuzzyMatchResult Score := ⟨none,sc.const 0,0,sc.const 0⟩
  if target.isEmpty || contentLines.length < targetLines.length then nothing
  else
    let offsets := computeLineOffsets 0 contentLines
    let result := findBestFuzzyMatchCore sc contentLines targetLines offsets threshold true
    match result.best with
    | none => result
    | some best =>
        if !sc.ge best.confidence threshold && sc.ge best.confidence (sc.const 800) then
          let noDepth := findBestFuzzyMatchCore sc contentLines targetLines offsets threshold false
          match noDepth.best with
          | some other => if sc.gt other.confidence best.confidence then noDepth else result
          | none => result
        else result

def noMatch : MatchOutcome Score := ⟨none,none,none,[],none,false⟩

def findMatch (content target : JsString) (allowFuzzy : Bool) (threshold : Score) : MatchOutcome Score :=
  if target.isEmpty then noMatch
  else
    match findExactMatchOutcome sc content target with
    | some exactMatch => exactMatch
    | none =>
        let result := findBestFuzzyMatch sc content target threshold
        match result.best with
        | none => noMatch
        | some best =>
            let count := result.aboveThresholdCount
            let accepted := allowFuzzy && sc.ge best.confidence threshold
            if accepted && count = 1 then ⟨some best,some best,none,[],none,false⟩
            else if accepted && 1 < count && sc.ge best.confidence (sc.const 970) &&
                sc.ge (sc.gap best.confidence result.secondBestScore) (sc.const 80) then
              ⟨some best,some best,none,[],some count,true⟩
            else ⟨none,some best,none,[],some count,false⟩

def matchesAt (lines pattern : List JsString) (i : Nat) (compare : JsString → JsString → Bool) : Bool :=
  ((lines.drop i).zip pattern).all fun (line, expected) => compare line expected

def fuzzyScoreAt (lines pattern : List JsString) (i : Nat) : Score :=
  sc.average (((lines.drop i).zip pattern).map fun (line, expected) =>
    sc.similarity (normalizeForFuzzy line) (normalizeForFuzzy expected))

def lineStartsWithPattern (line pattern : JsString) : Bool :=
  let lineNorm := normalizeForFuzzy line
  let patternNorm := normalizeForFuzzy pattern
  if patternNorm.isEmpty then lineNorm.isEmpty else startsWith lineNorm patternNorm

/- The pattern must make up three tenths of the line. -/
def reachesRatio (patternNorm lineNorm : JsString) : Bool := 3 * max 1 lineNorm.length ≤ 10 * patternNorm.length

def lineIncludesPattern (line pattern : JsString) : Bool :=
  let lineNorm := normalizeForFuzzy line
  let patternNorm := normalizeForFuzzy pattern
  if patternNorm.isEmpty then lineNorm.isEmpty
  else if patternNorm.length < partialMatchMinLength then false
  else (indexOf patternNorm lineNorm).isSome && reachesRatio patternNorm lineNorm

def stripCommentPrefix (line : JsString) : JsString :=
  let trimmed := trimStart line
  trimStart
    (if startsWith trimmed (js "/*") || startsWith trimmed (js "*/") || startsWith trimmed (js "//") then trimmed.drop 2
    else if startsWith trimmed (js "*") || startsWith trimmed (js "#") || startsWith trimmed (js ";") ||
        startsWith trimmed (js "/ ") then trimmed.drop 1
    else trimmed)

/- The passes that take their first hit, then, if allowed, those that count their hits. -/
def runExactPasses (lines pattern : List JsString) (allowFuzzy : Bool) (start stop : Nat) : Option (SearchResult Score) :=
  let hits (compare : JsString → JsString → Bool) :=
    collectIndexedMatches start stop fun i => matchesAt lines pattern i compare
  let single (compare : JsString → JsString → Bool) (confidence : Int) (strategy : Strategy) :=
    toSingleMatchResult (hits compare) (sc.const confidence) strategy
  let ambiguous (compare : JsString → JsString → Bool) (confidence : Int) (strategy : Strategy) :=
    toAmbiguousMatchResult (hits compare) (sc.const confidence) strategy
  let unicode := normalizeUnicode sc.normalizeNFC
  (single (fun a b => a == b) 1000 .exact).or <|
  (single (fun a b => trimEnd a == trimEnd b) 990 .trimTrailing).or <|
  (single (fun a b => JsText.trim a == JsText.trim b) 980 .trim).or <|
  (single (fun a b => stripCommentPrefix a == stripCommentPrefix b) 975 .commentPrefix).or <|
  (single (fun a b => unicode a == unicode b) 970 .unicode).or <|
  if allowFuzzy then
    (ambiguous lineStartsWithPattern 965 .leading).or (ambiguous lineIncludesPattern 940 .substring)
  else none

structure FuzzyScan (Score : Type) where
  bestScore : Score
  secondBestScore : Score
  bestIndex : Option Nat
  hits : List Nat

def scoreAt (lines pattern : List JsString) (scan : FuzzyScan Score) (i : Nat) : FuzzyScan Score :=
  let score := fuzzyScoreAt sc lines pattern i
  let counted := { scan with hits := if sc.ge score (sc.const 920) then scan.hits ++ [i] else scan.hits }
  if sc.gt score scan.bestScore then
    { counted with bestScore := score, secondBestScore := scan.bestScore, bestIndex := some i }
  else if sc.gt score scan.secondBestScore then { counted with secondBestScore := score }
  else counted

/- The last resort: the whole text, compared window by window. -/
def characterSearch (lines pattern : List JsString) (start : Nat) (bestScore : Score) : SearchResult Score :=
  let contentText := joinLines (lines.drop start)
  let outcome := findMatch sc contentText (joinLines pattern) true (sc.const 920)
  match outcome.found with
  | some found =>
      ⟨some (start + lineNumberAt contentText found.startIndex - 1),found.confidence,
        some ((outcome.occurrences.or outcome.fuzzyMatches).getD 1),[],some .character⟩
  | none => ⟨none,bestScore,outcome.occurrences.or outcome.fuzzyMatches,[],none⟩

def seekSequence (lines pattern : List JsString) (start : Nat) (eof allowFuzzy : Bool) : SearchResult Score :=
  if pattern.isEmpty then ⟨some start,sc.const 1000,none,[],some .exact⟩
  else if lines.length < pattern.length then ⟨none,sc.const 0,none,[],none⟩
  else
    let maxStart := lines.length - pattern.length
    let searchStart := if eof then maxStart else start
    let fromStart :=
      if eof && start < searchStart then runExactPasses sc lines pattern allowFuzzy start (maxStart + 1) else none
    match (runExactPasses sc lines pattern allowFuzzy searchStart (maxStart + 1)).or fromStart with
    | some result => result
    | none =>
        if !allowFuzzy then ⟨none,sc.const 0,none,[],none⟩
        else
          let earlier := if eof && start < searchStart then List.range' start (searchStart - start) else []
          let scan := (List.range' searchStart (maxStart + 1 - searchStart) ++ earlier).foldl
            (scoreAt sc lines pattern) ⟨sc.const 0,sc.const 0,none,[]⟩
          if scan.bestIndex.isSome && sc.ge scan.bestScore (sc.const 920) then
            if 1 < scan.hits.length && sc.ge scan.bestScore (sc.const 970) &&
                sc.ge (sc.gap scan.bestScore scan.secondBestScore) (sc.const 80) then
              ⟨scan.bestIndex,scan.bestScore,some 1,scan.hits.take maxRecordedMatches,some .fuzzyDominant⟩
            else
              ⟨scan.bestIndex,scan.bestScore,some scan.hits.length,scan.hits.take maxRecordedMatches,some .fuzzy⟩
          else characterSearch sc lines pattern start scan.bestScore

def closestAt (lines pattern : List JsString) (best : Option Nat × Score) (i : Nat) : Option Nat × Score :=
  let score := fuzzyScoreAt sc lines pattern i
  if sc.gt score best.2 then (some i, score) else best

def findClosestSequenceMatch (lines pattern : List JsString) (start : Nat) (eof : Bool) : Option Nat × Score :=
  if pattern.isEmpty then (some start, sc.const 1000)
  else if lines.length < pattern.length then (none, sc.const 0)
  else
    let maxStart := lines.length - pattern.length
    let searchStart := if eof then maxStart else start
    let earlier := if eof && start < searchStart then List.range' start (searchStart - start) else []
    (List.range' searchStart (maxStart + 1 - searchStart) ++ earlier).foldl (closestAt sc lines pattern) (none, sc.const 0)

/- Lines that contain the context: one is enough, of several the long ones count. -/
def substringContext (lines : List JsString) (contextNorm : JsString) (startFrom : Nat) : Option (SearchResult Score) :=
  let normAt (i : Nat) := normalizeForFuzzy (lines.getD i [])
  let all := (List.range' startFrom (lines.length - startFrom)).filter fun i => (indexOf contextNorm (normAt i)).isSome
  let indices := all.take maxRecordedMatches
  let result (index : Option Nat) (count : Nat) : SearchResult Score :=
    ⟨index,sc.const 940,some count,indices,some .substring⟩
  let passing := all.filter fun i => reachesRatio contextNorm (normAt i)
  if contextNorm.length < partialMatchMinLength then none
  else if all.length = 1 then some (result all.head? 1)
  else if 0 < passing.length then some (result passing.head? passing.length)
  else if 1 < all.length then some (result all.head? all.length)
  else none

def scoreContext (lines : List JsString) (contextNorm : JsString) (scan : FuzzyScan Score) (i : Nat) : FuzzyScan Score :=
  let score := sc.similarity (normalizeForFuzzy (lines.getD i [])) contextNorm
  let counted := { scan with hits := if sc.ge score (sc.const 800) then scan.hits ++ [i] else scan.hits }
  if sc.gt score scan.bestScore then { counted with bestScore := score, bestIndex := some i } else counted

/- All passes but the last, which is about `name()`. -/
def findContextPasses (lines : List JsString) (context : JsString) (startFrom : Nat) (allowFuzzy : Bool) :
    SearchResult Score ⊕ Score :=
  let ambiguous (predicate : JsString → Bool) (confidence : Int) (strategy : Strategy) :=
    toAmbiguousMatchResult (collectIndexedMatches startFrom lines.length fun i => predicate (lines.getD i []))
      (sc.const confidence) strategy
  let unicode := normalizeUnicode sc.normalizeNFC
  let contextNorm := normalizeForFuzzy context
  let strict := (ambiguous (· == context) 1000 .exact).or <|
    (ambiguous (fun line => JsText.trim line == JsText.trim context) 990 .trim).or
      (ambiguous (fun line => unicode line == unicode context) 980 .unicode)
  match strict with
  | some result => .inl result
  | none =>
      if !allowFuzzy then .inl ⟨none,sc.const 0,none,[],none⟩
      else
        let leading :=
          if contextNorm.isEmpty then none
          else ambiguous (fun line => startsWith (normalizeForFuzzy line) contextNorm) 960 .leading
        match leading.or (substringContext sc lines contextNorm startFrom) with
        | some result => .inl result
        | none =>
            let scan := (List.range' startFrom (lines.length - startFrom)).foldl (scoreContext sc lines contextNorm)
              ⟨sc.const 0,sc.const 0,none,[]⟩
            if scan.bestIndex.isSome && sc.ge scan.bestScore (sc.const 800) then
              .inl ⟨scan.bestIndex,scan.bestScore,some scan.hits.length,scan.hits.take maxRecordedMatches,some .fuzzy⟩
            else .inr scan.bestScore

def withoutFallback (outcome : SearchResult Score ⊕ Score) : SearchResult Score :=
  match outcome with
  | .inl result => result
  | .inr bestScore => ⟨none,bestScore,none,[],none⟩

def findContextLine (lines : List JsString) (context : JsString) (startFrom : Nat) (allowFuzzy : Bool) :
    SearchResult Score :=
  match findContextPasses sc lines context startFrom allowFuzzy with
  | .inl result => result
  | .inr bestScore =>
      let trimmedContext := JsText.trim context
      if (js "()").isSuffixOf trimmedContext then
        let withoutParen := trimmedContext.take (trimmedContext.length - 2)
        let parenResult := withoutFallback (findContextPasses sc lines (withoutParen ++ js "(") startFrom allowFuzzy)
        if parenResult.index.isSome || 0 < parenResult.matchCount.getD 0 then parenResult
        else withoutFallback (findContextPasses sc lines withoutParen startFrom allowFuzzy)
      else ⟨none,bestScore,none,[],none⟩

end matching

end Edit
