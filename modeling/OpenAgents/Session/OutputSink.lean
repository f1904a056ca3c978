import OpenAgents.Session.ByteWindows

/- Output captured from a stream of chunks: a head that is kept, a rolling tail, a cap on the bytes
   of a line, and an artifact file that is opened when something is about to be lost. -/
namespace OutputSink
open JsText Utf8 ByteWindows

/-- The library and the locale: `Bun.stripANSI`, the texts of numbers in the elision marker, and the
    passthrough of a text that holds a SIXEL sequence, when it is enabled. -/
structure Runtime where
  stripANSI : JsString → JsString
  sixelPassthrough : JsString → Option JsString
  toLocaleString : Nat → JsString
  formatBytes : Nat → JsString

def escapeChar : CodeUnit := 0x1B

def toWellFormed (text : JsString) : JsString := (points text).flatMap units

/- `[\x00-\x08\x0B-\x1F\x7F-\x9F]` -/
def isControl (c : CodeUnit) : Bool := c ≤ 8 || (0x0B ≤ c && c ≤ 0x1F) || (0x7F ≤ c && c ≤ 0x9F)

def sanitizeWellFormedText (runtime : Runtime) (text : JsString) : JsString :=
  if text.any isControl then
    (if text.contains escapeChar then runtime.stripANSI text else text).filter fun c => !isControl c
  else text

def sanitizeText (runtime : Runtime) (text : JsString) : JsString :=
  if toWellFormed text ≠ text then sanitizeWellFormedText runtime ((toWellFormed text).filter (· != 0xFFFD))
  else sanitizeWellFormedText runtime text

def sanitize (runtime : Runtime) (text : JsString) : JsString := (runtime.sixelPassthrough text).getD (sanitizeText runtime text)

structure Options where
  artifactPath : Option JsString
  artifactId : Option JsString
  spillThreshold : Nat
  headLimit : Nat
  maxColumns : Nat

/-- Of the column cap, between chunks. -/
structure Columns where
  currentLineBytes : Nat
  ellipsisAdded : Bool
  droppedBytes : Nat
  truncatedLines : Nat
  deriving DecidableEq

structure Sink where
  buffer : JsString
  bufferBytes : Nat
  head : JsString
  headBytes : Nat
  headLines : Nat
  headRetentionDisabled : Bool
  totalLines : Nat
  totalBytes : Nat
  sawData : Bool
  truncated : Bool
  columns : Columns
  /- What has been written to the artifact, once it is open. -/
  file : Option JsString
  deriving DecidableEq

def empty : Sink := ⟨[],0,[],0,0,false,0,0,false,false,⟨0,false,0,0⟩,none⟩

def countNewlines (text : JsString) : Nat := text.count lineFeed

def ellipsis : JsString := js "…"

/- A stretch of one line. -/
def capSegment (max : Nat) (columns : Columns) (segment : JsString) : JsString × Columns :=
  if segment.isEmpty then ([], columns)
  else if columns.ellipsisAdded then ([], { columns with droppedBytes := columns.droppedBytes + byteLength segment })
  else
    let remaining := max - columns.currentLineBytes
    if byteLength segment ≤ remaining then
      (segment, { columns with currentLineBytes := columns.currentLineBytes + byteLength segment })
    else
      let kept := if 0 < remaining - 3 then truncateHeadBytes segment (remaining - 3) else ⟨[],0⟩
      (kept.text ++ ellipsis,
        { currentLineBytes := columns.currentLineBytes + kept.bytes + 3
          ellipsisAdded := true
          droppedBytes := columns.droppedBytes + (byteLength segment - kept.bytes)
          truncatedLines := columns.truncatedLines + 1 })

def nextLine (columns : Columns) : Columns := { columns with currentLineBytes := 0, ellipsisAdded := false }

def capSegments (max : Nat) : Columns → List JsString → JsString × Columns
  | columns, [] => ([], columns)
  | columns, [segment] => capSegment max columns segment
  | columns, segment :: rest =>
      let here := capSegment max columns segment
      let later := capSegments max (nextLine here.2) rest
      (here.1 ++ lineFeed :: later.1, later.2)

def applyColumnCap (max : Nat) (columns : Columns) (chunk : JsString) : JsString × Columns :=
  capSegments max columns (splitLines chunk)

/- The chunk that is kept in memory. -/
def cap (o : Options) (columns : Columns) (chunk : JsString) : JsString × Columns :=
  if 0 < o.maxColumns then applyColumnCap o.maxColumns columns chunk else (chunk, columns)

def willOverflow (o : Options) (sink : Sink) (dataBytes : Nat) : Bool := o.spillThreshold < sink.bufferBytes + dataBytes

/- The file is opened with the buffer in front. -/
def writeToFile (sink : Sink) (chunk : JsString) : Sink :=
  match sink.file with
  | some written => { sink with file := some (written ++ chunk) }
  | none => { sink with file := some (sink.buffer ++ chunk) }

def pushTail (o : Options) (sink : Sink) (chunk : JsString) (dataBytes : Nat) : Sink :=
  if dataBytes = 0 then sink
  else if !willOverflow o sink dataBytes then
    { sink with buffer := sink.buffer ++ chunk, bufferBytes := sink.bufferBytes + dataBytes }
  else
    let kept := if o.spillThreshold ≤ dataBytes then truncateTailBytes chunk o.spillThreshold
      else truncateTailBytes (sink.buffer ++ chunk) o.spillThreshold
    { sink with truncated := true, buffer := kept.text, bufferBytes := kept.bytes }

/- Into the head as far as there is room, and the rest into the tail. -/
def retain (o : Options) (sink : Sink) (capped : JsString) (cappedBytes : Nat) : Sink :=
  if 0 < o.headLimit && !sink.headRetentionDisabled && sink.headBytes < o.headLimit then
    let room := o.headLimit - sink.headBytes
    if cappedBytes ≤ room then
      { sink with
        head := sink.head ++ capped
        headBytes := sink.headBytes + cappedBytes
        headLines := sink.headLines + countNewlines capped }
    else
      let slice := truncateHeadBytes capped room
      if 0 < slice.bytes then
        pushTail o
          { sink with
            head := sink.head ++ slice.text
            headBytes := sink.headBytes + slice.bytes
            headLines := sink.headLines + countNewlines slice.text }
          (capped.drop slice.text.length) (cappedBytes - slice.bytes)
      else pushTail o sink capped cappedBytes
  else pushTail o sink capped cappedBytes

def count (sink : Sink) (chunk : JsString) : Sink :=
  { sink with
    totalBytes := sink.totalBytes + byteLength chunk
    sawData := sink.sawData || !chunk.isEmpty
    totalLines := sink.totalLines + countNewlines chunk }

def hasArtifact (o : Options) : Bool := o.artifactPath.any fun path => !path.isEmpty

def mirrors (o : Options) (sink : Sink) (cappedThisChunk : Bool) (cappedBytes : Nat) : Bool :=
  hasArtifact o && (sink.file.isSome || cappedThisChunk || willOverflow o sink cappedBytes)

def pushSanitized (o : Options) (sink : Sink) (chunk : JsString) : Sink :=
  let rawBytes := byteLength chunk
  let capped := (cap o sink.columns chunk).1
  let cappedBytes := if capped = chunk then rawBytes else byteLength capped
  let cappedThisChunk : Bool := cappedBytes < rawBytes
  let counted : Sink :=
    { count sink chunk with columns := (cap o sink.columns chunk).2, truncated := sink.truncated || cappedThisChunk }
  let mirrored := if mirrors o counted cappedThisChunk cappedBytes then writeToFile counted chunk else counted
  if cappedBytes = 0 then mirrored else retain o mirrored capped cappedBytes

def push (runtime : Runtime) (o : Options) (sink : Sink) (chunk : JsString) : Sink := pushSanitized o sink (sanitize runtime chunk)

/- What is buffered becomes the given text, and the head is given up. -/
def replace (sink : Sink) (text : JsString) : Sink :=
  { sink with
    buffer := text
    bufferBytes := byteLength text
    head := []
    headBytes := 0
    headLines := 0
    headRetentionDisabled := true
    totalBytes := byteLength text
    totalLines := countNewlines text
    sawData := !text.isEmpty
    truncated := false
    columns := ⟨0,false,0,0⟩ }

structure OutputSummary where
  output : JsString
  truncated : Bool
  totalLines : Nat
  totalBytes : Nat
  outputLines : Nat
  outputBytes : Nat
  elidedBytes : Option Nat
  elidedLines : Option Nat
  columnDroppedBytes : Option Nat
  columnTruncatedLines : Option Nat
  artifactId : Option JsString

def formatMiddleElisionMarker (runtime : Runtime) (elidedLines elidedBytes : Nat) : JsString :=
  js "[… " ++ runtime.toLocaleString elidedLines ++ js " line" ++ (if elidedLines = 1 then [] else js "s") ++ js " elided (" ++
    runtime.formatBytes elidedBytes ++ js ") …]"

def endsWithLine (text : JsString) : Bool := text.getLast? == some lineFeed

def lineCount (text : JsString) : Nat := if text.isEmpty then 0 else countNewlines text + 1

def nonZero (n : Nat) : Option Nat := if 0 < n then some n else none

def dump (runtime : Runtime) (o : Options) (sink : Sink) (notice : Option JsString) : OutputSummary :=
  let noticeLine := match notice with
    | some text => if text.isEmpty then [] else js "[" ++ text ++ js "]\n"
    | none => []
  let totalLines := if sink.sawData then sink.totalLines + 1 else 0
  let headLines := sink.headLines + if 0 < sink.headBytes && !endsWithLine sink.head then 1 else 0
  let tailLines := lineCount sink.buffer
  let effectiveTotalBytes := sink.totalBytes - sink.columns.droppedBytes
  let summary (body : JsString) (outputBytes outputLines : Nat) (truncated : Bool) (elidedBytes elidedLines : Option Nat) :
      OutputSummary :=
    { output := noticeLine ++ body
      truncated := truncated
      totalLines := totalLines
      totalBytes := sink.totalBytes
      outputLines := outputLines
      outputBytes := outputBytes
      elidedBytes := elidedBytes
      elidedLines := elidedLines
      columnDroppedBytes := nonZero sink.columns.droppedBytes
      columnTruncatedLines := nonZero sink.columns.truncatedLines
      artifactId := if sink.file.isSome then o.artifactId else none }
  if 0 < sink.headBytes then
    if sink.headBytes + sink.bufferBytes < effectiveTotalBytes then
      let elidedBytes := effectiveTotalBytes - sink.headBytes - sink.bufferBytes
      let elidedLines := totalLines - headLines - tailLines
      let marker := formatMiddleElisionMarker runtime elidedLines elidedBytes
      let headSep := if endsWithLine sink.head then [] else [lineFeed]
      let tailSep := if startsWith sink.buffer [lineFeed] then [] else [lineFeed]
      summary (sink.head ++ headSep ++ marker ++ tailSep ++ sink.buffer)
        (sink.headBytes + byteLength marker + sink.bufferBytes + byteLength headSep + byteLength tailSep)
        (headLines + 1 + tailLines) true (some elidedBytes) (some elidedLines)
    else
      summary (sink.head ++ sink.buffer) (sink.headBytes + sink.bufferBytes) (lineCount (sink.head ++ sink.buffer)) sink.truncated
        none none
  else summary sink.buffer sink.bufferBytes tailLines sink.truncated none none

/-- The parts of the sanitizer outside the repository keep pairs of surrogates together. -/
structure Lawful (runtime : Runtime) : Prop where
  strips : ∀ text, WellFormed text → WellFormed (runtime.stripANSI text)
  passes : ∀ text kept, runtime.sixelPassthrough text = some kept → WellFormed kept

theorem points_valid (text : JsString) : ∀ v ∈ points text, v.isValidChar := by
  have unit : ∀ c : CodeUnit, (if isSurrogate c then replacementCharacter else c.toNat).isValidChar := by
    intro c
    split
    · decide
    · rename_i other
      rw [Bool.not_eq_true, isSurrogate, Bool.or_eq_false_iff, ← Bool.not_eq_true, ← Bool.not_eq_true, high_iff, low_iff] at other
      have bound := c.toNat_lt
      rw [Nat.isValidChar]
      omega
  fun_induction points text with
  | case1 => simp
  | case2 c => simpa using unit c
  | case3 c d rest pair ih =>
    rw [Bool.and_eq_true, high_iff, low_iff] at pair
    rw [List.forall_mem_cons]
    refine ⟨?_,ih⟩
    rw [Nat.isValidChar]
    omega
  | case4 c d rest other ih => exact List.forall_mem_cons.mpr ⟨unit c,ih⟩

/- The characters of a string, as they are written in UTF-8. -/
def characters (s : JsString) : List Char := (points s).map Char.ofNat

theorem characters_points (s : JsString) : (characters s).map Char.toNat = points s := by
  rw [characters, List.map_map]
  conv => rhs; rw [← List.map_id (points s)]
  apply List.map_congr_left
  intro v mem
  rw [Function.comp_apply, Char.ofNat, dif_pos (points_valid s v mem)]
  rfl

theorem text_characters (s : JsString) : toWellFormed s = text (characters s) := by
  rw [toWellFormed, ← characters_points, List.flatMap_map, text]
  exact List.flatMap_congr fun c _ => (utf16_eq c).symm

theorem toWellFormed_wellFormed (s : JsString) : WellFormed (toWellFormed s) := ⟨characters s,text_characters s⟩

theorem wellFormed_filter {keep : CodeUnit → Bool} (keeps : ∀ c, isSurrogate c = true → keep c = true) {s : JsString}
    (wellFormed : WellFormed s) : WellFormed (s.filter keep) := by
  obtain ⟨chars,is⟩ := wellFormed
  rw [is]
  clear is
  induction chars with
  | nil => exact ⟨[],rfl⟩
  | cons c rest ih =>
    obtain ⟨kept,is⟩ := ih
    rw [text_cons, List.filter_append, is]
    by_cases one : (utf16 c).length = 1
    · obtain ⟨u,single⟩ := List.length_eq_one_iff.mp one
      rw [single]
      cases passes : keep u with
      | true => exact ⟨c :: kept,by rw [List.filter_singleton, passes, text_cons, single]; rfl⟩
      | false => exact ⟨kept,by rw [List.filter_singleton, passes]; rfl⟩
    · obtain ⟨high,low,pair,isHigh,isLow⟩ := utf16_pair one
      have both : (utf16 c).filter keep = utf16 c := by
        rw [pair]
        simp [keeps high (by rw [isSurrogate, isHigh, Bool.true_or]), keeps low (by rw [isSurrogate, isLow, Bool.or_true])]
      exact ⟨c :: kept,by rw [both, text_cons]⟩

theorem surrogate_range {c : CodeUnit} (surrogate : isSurrogate c = true) : 0xD800 ≤ c.toNat ∧ c.toNat ≤ 0xDFFF := by
  rw [isSurrogate, Bool.or_eq_true, high_iff, low_iff] at surrogate
  omega

theorem sanitize_wellFormed {runtime : Runtime} (lawful : Lawful runtime) (chunk : JsString) : WellFormed (sanitize runtime chunk) := by
  have inner : ∀ s, WellFormed s → WellFormed (sanitizeWellFormedText runtime s) := by
    intro s wellFormed
    rw [sanitizeWellFormedText]
    split
    · apply wellFormed_filter
      · intro c surrogate
        have range := surrogate_range surrogate
        simp only [isControl, UInt16.le_iff_toNat_le, Bool.not_eq_true', Bool.or_eq_false_iff, Bool.and_eq_false_iff, decide_eq_false_iff_not]
        simp
        omega
      · split
        · exact lawful.strips s wellFormed
        · exact wellFormed
    · exact wellFormed
  rw [sanitize]
  cases found : runtime.sixelPassthrough chunk with
  | some kept => exact lawful.passes chunk kept found
  | none =>
    rw [Option.getD_none, sanitizeText]
    split
    · apply inner
      apply wellFormed_filter _ (toWellFormed_wellFormed chunk)
      intro c surrogate
      have range := surrogate_range surrogate
      rw [bne_iff_ne]
      intro same
      rw [same] at range
      exact absurd range.2 (by decide)
    · rename_i same
      apply inner
      rw [← not_not.mp same]
      exact toWellFormed_wellFormed chunk

/- For texts without control characters; numbers stand without groups. -/
def plain : Runtime := ⟨id,fun _ => none,decimal,fun n => decimal n ++ js "B"⟩

theorem plain_lawful : Lawful plain := ⟨fun _ same => same,fun _ _ none' => absurd none' (by simp [plain])⟩

end OutputSink
