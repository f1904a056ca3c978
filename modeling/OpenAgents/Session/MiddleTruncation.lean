import OpenAgents.Session.Truncation

/- Content of which the head and the tail are kept and the middle is elided. The two windows are cut
   apart from each other and put together by the number of their lines. -/
namespace Truncation
open JsText Utf8 ByteWindows OutputSink TextLines LongestPart

/- What is left of each limit for the head, and for the tail. -/
def headByteLimit (options : TruncationOptions) : Nat := options.maxHeadBytes.getD (byteLimit options / 2)
def tailByteLimit (options : TruncationOptions) : Nat := byteLimit options - headByteLimit options
def headLineLimit (options : TruncationOptions) : Nat := options.maxHeadLines.getD (max 1 (lineLimit options / 2))
def tailLineLimit (options : TruncationOptions) : Nat := lineLimit options - headLineLimit options

def headOptions (options : TruncationOptions) : TruncationOptions :=
  { maxBytes := some (headByteLimit options), maxLines := some (headLineLimit options) }

def tailOptions (options : TruncationOptions) : TruncationOptions :=
  { maxBytes := some (tailByteLimit options), maxLines := some (tailLineLimit options) }

def orElse (limit other : Nat) : Nat := if limit = 0 then other else limit

/- For a tail alone. -/
def tailOnlyOptions (options : TruncationOptions) : TruncationOptions :=
  { maxBytes := some (orElse (tailByteLimit options) (byteLimit options))
    maxLines := some (orElse (tailLineLimit options) (lineLimit options)) }

/-- What is shown of the content. -/
inductive Windows where
  | whole
  | headOnly (result : TruncationResult)
  | tailOnly (result : TruncationResult)
  | both (head tail : TruncationResult)
  deriving DecidableEq

def middleWindows (content : JsString) (options : TruncationOptions) : Windows :=
  let maxBytes := byteLimit options
  let maxLines := lineLimit options
  let headBytes := headByteLimit options
  let tailBytes := tailByteLimit options
  let headLines := headLineLimit options
  let tailLines := tailLineLimit options
  let totalBytes := byteLength content
  let totalLines := countNewlines content + 1
  if totalBytes ≤ maxBytes ∧ totalLines ≤ maxLines then .whole
  else if headBytes = 0 ∨ headLines = 0 then
    .tailOnly (truncateTail content (tailOnlyOptions options))
  else if tailBytes = 0 ∨ tailLines = 0 then
    .headOnly (truncateHead content (headOptions options))
  else
    let head := truncateHead content (headOptions options)
    let tail := truncateTail content (tailOptions options)
    let headLinesKept := head.outputLines.getD 0
    let tailLinesKept := tail.outputLines.getD 0
    if headLinesKept = 0 ∨ head.firstLineExceedsLimit = some true then .tailOnly tail
    else if tailLinesKept = 0 then .headOnly head
    else if totalLines ≤ headLinesKept + tailLinesKept then .whole
    else .both head tail

def truncateMiddle (runtime : Runtime) (content : JsString) (options : TruncationOptions) : TruncationResult :=
  let totalBytes := byteLength content
  let totalLines := countNewlines content + 1
  match middleWindows content options with
  | .whole => noTruncResult content totalLines totalBytes
  | .headOnly result => result
  | .tailOnly result => result
  | .both head tail =>
      let headLinesKept := head.outputLines.getD 0
      let tailLinesKept := tail.outputLines.getD 0
      let headBytesKept := head.outputBytes.getD (byteLength head.content)
      let tailBytesKept := tail.outputBytes.getD (byteLength tail.content)
      let elidedLines := totalLines - headLinesKept - tailLinesKept
      let elidedBytes := totalBytes - headBytesKept - tailBytesKept
      let marker := formatMiddleElisionMarker runtime elidedLines elidedBytes
      let markerBytes := byteLength marker
      { content := head.content ++ [lineFeed] ++ marker ++ [lineFeed] ++ tail.content
        truncated := some true
        truncatedBy := some .middle
        totalLines := totalLines
        totalBytes := totalBytes
        outputLines := some (headLinesKept + tailLinesKept + 1)
        outputBytes := some (headBytesKept + tailBytesKept + markerBytes + 2)
        elidedLines := some elidedLines
        elidedBytes := some elidedBytes
        lastLinePartial := tail.lastLinePartial
        firstLineExceedsLimit := some false }

/- The parts of the content in a result. -/
def Windows.headPart (content : JsString) : Windows → JsString
  | .whole => content
  | .headOnly result => result.content
  | .tailOnly _ => []
  | .both head _ => head.content

def Windows.tailPart : Windows → JsString
  | .whole => []
  | .headOnly _ => []
  | .tailOnly result => result.content
  | .both _ tail => tail.content

/-- Content is cut, to a head and a tail that are its own, apart and within the bytes, and every line
    is kept or counted as elided. -/
structure CutWithin (content headPart tailPart : JsString) (maxBytes : Nat) (result : TruncationResult) : Prop where
  truncated : result.truncated = some true
  begins : headPart <+: content
  ends : tailPart <:+ content
  apart : headPart.length + tailPart.length ≤ content.length
  budget : byteLength headPart + byteLength tailPart ≤ maxBytes
  counted : ∀ elided ∈ result.elidedLines,
    elided + ((countNewlines headPart + 1) + (countNewlines tailPart + 1)) = countNewlines content + 1
  alone : result.elidedLines = none → result.content = headPart ++ tailPart
  marked : ∀ elided ∈ result.elidedLines, ∃ marker, result.content = headPart ++ [lineFeed] ++ marker ++ [lineFeed] ++ tailPart

/- What is promised of content that exceeds a limit. -/
def RespectsBudget (runtime : Runtime) (content : JsString) (options : TruncationOptions) : Prop :=
  ¬ Fits options content →
    CutWithin content ((middleWindows content options).headPart content) (middleWindows content options).tailPart (byteLimit options)
      (truncateMiddle runtime content options)

/- The last line fits, or no half of a surrogate pair is among its last characters that fit. -/
def TailWhole (content : JsString) (maxLines maxBytes : Nat) : Prop :=
  0 < maxLines → maxBytes < byteLength (lastLine content) →
    ∀ back, back <:+ characters (lastLine content) → (bytes back).length ≤ maxBytes → text back <:+ lastLine content

/- No head of whole lines within the limits of the head is all of the content, or too much. -/
def HeadSmall (content : JsString) (options : TruncationOptions) : Prop :=
  ∀ front, front <+: splitLines content → Within (headLineLimit options) (headByteLimit options) front →
    front ≠ splitLines content ∧ byteLength (joinLines front) ≤ byteLimit options

/- A line feed with lines in front of it that fit the head, and one line, or lines that fit the tail, behind it. -/
def Seam (content : JsString) (options : TruncationOptions) : Prop :=
  ∃ front back, splitLines content = front ++ back ∧ front ≠ [] ∧ back ≠ [] ∧
    Within (headLineLimit options) (headByteLimit options) front ∧
    (back.length = 1 ∨ Within (tailLineLimit options) (tailByteLimit options) back)

def Separable (content : JsString) (options : TruncationOptions) : Prop :=
  Fits options content ∨
    if headByteLimit options = 0 ∨ headLineLimit options = 0 then
      TailWhole content (orElse (tailLineLimit options) (lineLimit options)) (orElse (tailByteLimit options) (byteLimit options))
    else if tailByteLimit options = 0 ∨ tailLineLimit options = 0 then HeadSmall content options
    else ¬ Seam content options ∧ TailWhole content (tailLineLimit options) (tailByteLimit options)

section windows
variable {content : JsString} {options : TruncationOptions}

theorem fits_within : Fits options content ↔ Within (lineLimit options) (byteLimit options) (splitLines content) := by
  rw [Fits, Within, splitLines_length, join_split]
  rfl

theorem join_prefix {front lines : List JsString} (part : front <+: lines) : joinLines front <+: joinLines lines := by
  obtain ⟨rest,is⟩ := part
  by_cases none' : front = []
  · rw [none']
    exact List.nil_prefix
  · rw [← is, join_append_precede none']
    exact List.prefix_append _ _

theorem join_suffix {back lines : List JsString} (part : back <:+ lines) : joinLines back <:+ joinLines lines := by
  obtain ⟨rest,is⟩ := part
  by_cases none' : back = []
  · rw [none']
    exact List.nil_suffix
  · rw [← is, join_append rest none']
    exact List.suffix_append _ _

theorem text_suffix {back chars : List Char} (part : back <:+ chars) : text back <:+ text chars := by
  obtain ⟨front,is⟩ := part
  rw [← is, text_append]
  exact List.suffix_append _ _

theorem lastLine_suffix (content : JsString) : lastLine content <:+ content := by
  conv => rhs; rw [← text_whole_last content]
  exact List.suffix_append _ _

/-- A tail that is cut is a tail of the content, but for halves of surrogate pairs. -/
theorem tail_cut (tooMuch : ¬ Fits options content) : (truncateTail content options).truncated = some true ∧
    (truncateTail content options).elidedLines = none ∧
    byteLength (truncateTail content options).content ≤ byteLimit options ∧
    ((truncateTail content options).content <:+ content ↔ TailWhole content (lineLimit options) (byteLimit options)) := by
  have longest := tail_longest tooMuch
  split at longest
  · rename_i long
    obtain ⟨⟨kept,is,most⟩,_,_,truncated,elided⟩ := longest
    refine ⟨truncated,elided,by rw [is, byteLength_text]; exact most.holds,?_⟩
    rw [is]
    constructor
    · intro part _ _ back within small
      have length := (text_suffix most.part).length_le
      rw [← text_characters, wellFormed_length] at length
      exact (text_suffix (most.longest back within small)).trans
        (List.suffix_of_suffix_length_le part (lastLine_suffix content) length)
    · intro whole
      exact (whole long.1 long.2 kept most.part most.holds).trans (lastLine_suffix content)
  · rename_i short
    obtain ⟨kept,most,made⟩ := longest
    refine ⟨made.truncated,made.elided,by rw [made.content]; exact most.holds.2,?_⟩
    rw [made.content]
    have part := join_suffix most.part
    rw [join_split] at part
    exact ⟨fun _ some' large => absurd ⟨some',large⟩ short,fun _ => part⟩

variable {runtime : Runtime} {kept taken : List JsString}

/-- A tail alone. -/
theorem tail_alone {options' : TruncationOptions} (tooMuch : ¬ Fits options content)
    (is : middleWindows content options = .tailOnly (truncateTail content options'))
    (few : lineLimit options' ≤ lineLimit options) (small : byteLimit options' ≤ byteLimit options) :
    RespectsBudget runtime content options ↔ TailWhole content (lineLimit options') (byteLimit options') := by
  have tooMuch' : ¬ Fits options' content := fun fits => tooMuch ⟨Nat.le_trans fits.1 few,Nat.le_trans fits.2 small⟩
  obtain ⟨truncated,elided,budget,part⟩ := tail_cut tooMuch'
  rw [← part, RespectsBudget, truncateMiddle, is]
  dsimp only [Windows.headPart, Windows.tailPart]
  constructor
  · intro respects
    exact (respects tooMuch).ends
  · intro ends _
    have none' : byteLength [] = 0 := rfl
    refine ⟨truncated,List.nil_prefix,ends,?_,?_,?_,fun _ => rfl,?_⟩
    · rw [List.length_nil, Nat.zero_add]
      exact ends.length_le
    · omega
    · rw [elided]
      exact fun _ mem => absurd mem (Option.not_mem_none _)
    · rw [elided]
      exact fun _ mem => absurd mem (Option.not_mem_none _)

/-- A head alone. -/
theorem head_alone (tooMuch : ¬ Fits options content)
    (is : middleWindows content options = .headOnly (truncateHead content (headOptions options))) :
    RespectsBudget runtime content options ↔ HeadSmall content options := by
  rw [RespectsBudget, truncateMiddle, is]
  dsimp only [Windows.headPart, Windows.tailPart]
  by_cases fits : Fits (headOptions options) content
  · rw [(whole_fits fits).1]
    constructor
    · intro respects
      exact absurd (respects tooMuch).truncated (by simp [noTruncResult])
    · intro small
      exact absurd rfl (small _ (List.prefix_refl _) (fits_within.mp fits)).1
  · obtain ⟨kept,most,made,_⟩ := head_longest fits
    have none' : byteLength [] = 0 := rfl
    constructor
    · intro respects front part within
      have budget := (respects tooMuch).budget
      have less := within_prefix (most.longest front part within) (⟨Nat.le_refl _,Nat.le_refl _⟩ : Within kept.length _ kept)
      rw [made.content] at budget
      refine ⟨?_,Nat.le_trans less.2 (by omega)⟩
      intro same
      rw [same] at within
      exact fits (fits_within.mpr within)
    · intro small _
      have begins := join_prefix most.part
      rw [join_split, ← made.content] at begins
      refine ⟨made.truncated,begins,List.nil_suffix,begins.length_le,?_,?_,fun _ => (List.append_nil _).symm,?_⟩
      · rw [made.content, none']
        exact (small kept most.part most.holds).2
      · rw [made.elided]
        exact fun _ mem => absurd mem (Option.not_mem_none _)
      · rw [made.elided]
        exact fun _ mem => absurd mem (Option.not_mem_none _)

theorem count_join {lines : List JsString} (some' : lines ≠ []) (clean : ∀ line ∈ lines, lineFeed ∉ line) :
    countNewlines (joinLines lines) + 1 = lines.length := by
  have count := splitLines_length (joinLines lines)
  rw [split_join lines clean some'] at count
  exact count.symm

/-- The lines that a cut tail takes, whole or in part. -/
theorem tail_lines (tooMuch : ¬ Fits options content) (wanted : 0 < lineLimit options) :
    ∃ taken, taken <:+ splitLines content ∧ taken ≠ [] ∧
      (truncateTail content options).outputLines = some taken.length ∧
      (taken.length = 1 ∨ Within (lineLimit options) (byteLimit options) taken) ∧
      (∀ back, back <:+ splitLines content → Within (lineLimit options) (byteLimit options) back → back.length ≤ taken.length) ∧
      (TailWhole content (lineLimit options) (byteLimit options) →
        (truncateTail content options).content <:+ joinLines taken ∧
          countNewlines (truncateTail content options).content + 1 = taken.length) := by
  have split := split_whole_last content
  have part : [lastLine content] <:+ splitLines content := by
    rw [split]
    exact List.suffix_append _ _
  have longest := tail_longest tooMuch
  split at longest
  · rename_i long
    obtain ⟨⟨kept,is,most⟩,lines,_⟩ := longest
    refine ⟨[lastLine content],part,List.cons_ne_nil _ _,lines,.inl rfl,?_,?_⟩
    · intro back within few
      by_contra longer
      have last : [lastLine content] <:+ back := List.suffix_of_suffix_length_le part within (by omega)
      have small := (within_suffix last few).2
      rw [join_single] at small
      omega
    · intro whole
      have own := whole long.1 long.2 kept most.part most.holds
      have none' : lineFeed ∉ text kept := fun mem => lastLine_clean content (own.subset mem)
      rw [is, join_single, countNewlines, List.count_eq_zero_of_not_mem none']
      exact ⟨own,rfl⟩
  · rename_i short
    obtain ⟨kept,most,made⟩ := longest
    have some' : kept ≠ [] := by
      intro none'
      have fits : Within (lineLimit options) (byteLimit options) [lastLine content] := by
        refine ⟨wanted,?_⟩
        rw [join_single]
        omega
      have within := (most.longest _ part fits).length_le
      rw [none'] at within
      exact absurd within (Nat.not_succ_le_zero 0)
    refine ⟨kept,most.part,some',made.outputLines,.inr most.holds,fun back within few => (most.longest back within few).length_le,
      fun _ => ⟨by rw [made.content],?_⟩⟩
    rw [made.content]
    exact count_join some' fun line mem => split_clean content line (most.part.subset mem)

/-- A head and a tail that take fewer lines than there are. -/
theorem windows_apart {headPart tailPart : JsString} (is : headPart = joinLines kept) (some' : kept ≠ [])
    (front : kept <+: splitLines content) (back : taken <:+ splitLines content) (within : tailPart <:+ joinLines taken)
    (few : kept.length + taken.length < (splitLines content).length) : headPart.length + tailPart.length ≤ content.length := by
  obtain ⟨rest,parts⟩ := front
  rw [← parts, List.length_append] at few
  have left : rest ≠ [] := List.length_pos_iff.mp (by omega)
  have later : taken <:+ rest := List.suffix_of_suffix_length_le back ⟨kept,parts⟩ (by omega)
  have whole : content = joinLines kept ++ [lineFeed] ++ joinLines rest := by
    rw [← terminate_join some', ← join_append kept left, parts, join_split]
  have short := within.length_le
  have short' := (join_suffix later).length_le
  rw [whole, is, List.length_append, List.length_append]
  omega

theorem seam_meets (tooMuch : ¬ Fits options content)
    (most : LongestPrefix (Within (headLineLimit options) (headByteLimit options)) (splitLines content) kept)
    (some' : kept ≠ []) (few : headLineLimit options ≤ lineLimit options) (small : headByteLimit options ≤ byteLimit options)
    (part : taken <:+ splitLines content) (more : taken ≠ [])
    (oneOr : taken.length = 1 ∨ Within (tailLineLimit options) (tailByteLimit options) taken)
    (longest : ∀ back, back <:+ splitLines content → Within (tailLineLimit options) (tailByteLimit options) back →
      back.length ≤ taken.length) : Seam content options ↔ countNewlines content + 1 ≤ kept.length + taken.length := by
  have total : (splitLines content).length = countNewlines content + 1 := splitLines_length content
  have positive : 0 < taken.length := List.length_pos_iff.mpr more
  constructor
  · rintro ⟨front,back,is,_,_,within,single⟩
    have front' := (most.longest front (is ▸ List.prefix_append front back) within).length_le
    have back' : back.length ≤ taken.length := by
      rcases single with one | fits
      · omega
      · exact longest back (is ▸ List.suffix_append front back) fits
    rw [is, List.length_append] at total
    omega
  · intro enough
    obtain ⟨rest,is⟩ := most.part
    have left : rest ≠ [] := by
      intro none'
      rw [none', List.append_nil] at is
      have within := most.holds
      rw [is] at within
      exact tooMuch (fits_within.mpr ⟨Nat.le_trans within.1 few,Nat.le_trans within.2 small⟩)
    have count : rest.length ≤ taken.length := by
      rw [← is, List.length_append] at total
      omega
    refine ⟨kept,rest,is.symm,some',left,most.holds,?_⟩
    rcases oneOr with one | fits
    · have positive' : 0 < rest.length := List.length_pos_iff.mpr left
      exact .inl (by omega)
    · exact .inr (within_suffix (List.suffix_of_suffix_length_le ⟨kept,is⟩ part count) fits)

/-- Two windows leave something out, unless there is a seam. -/
theorem both_windows (tooMuch : ¬ Fits options content)
    (headBudget : ¬ (headByteLimit options = 0 ∨ headLineLimit options = 0))
    (tailBudget : ¬ (tailByteLimit options = 0 ∨ tailLineLimit options = 0)) :
    RespectsBudget runtime content options ↔
      ¬ Seam content options ∧ TailWhole content (tailLineLimit options) (tailByteLimit options) := by
  have lines : tailLineLimit options = lineLimit options - headLineLimit options := rfl
  have bytes' : tailByteLimit options = byteLimit options - headByteLimit options := rfl
  have fewer : ∀ few, few ≤ lineLimit options → ∀ small, small ≤ byteLimit options →
      ¬ (countNewlines content + 1 ≤ few ∧ byteLength content ≤ small) :=
    fun _ few _ small fits => tooMuch ⟨Nat.le_trans fits.1 few,Nat.le_trans fits.2 small⟩
  have overHead : ¬ Fits (headOptions options) content := fewer (headLineLimit options) (by omega) (headByteLimit options) (by omega)
  have overTail : ¬ Fits (tailOptions options) content := fewer (tailLineLimit options) (by omega) (tailByteLimit options) (by omega)
  obtain ⟨kept,most,made,first⟩ := head_longest overHead
  obtain ⟨taken,part,some',count,oneOr,longest,tailIs⟩ :=
    tail_lines overTail (Nat.pos_of_ne_zero fun zero => tailBudget (.inr zero))
  change LongestPrefix (Within (headLineLimit options) (headByteLimit options)) _ _ at most
  change _ ∨ Within (tailLineLimit options) (tailByteLimit options) taken at oneOr
  change ∀ back, _ → Within (tailLineLimit options) (tailByteLimit options) back → _ at longest
  have positive : 0 < taken.length := List.length_pos_iff.mpr some'
  have windows : middleWindows content options =
      if kept = [] then .tailOnly (truncateTail content (tailOptions options))
      else if countNewlines content + 1 ≤ kept.length + taken.length then .whole
      else .both (truncateHead content (headOptions options)) (truncateTail content (tailOptions options)) := by
    have tooMuch' : ¬ (byteLength content ≤ byteLimit options ∧ countNewlines content + 1 ≤ lineLimit options) :=
      fun fits => tooMuch ⟨fits.2,fits.1⟩
    rw [middleWindows, if_neg tooMuch', if_neg headBudget, if_neg tailBudget]
    dsimp only
    rw [made.outputLines, count, Option.getD_some, Option.getD_some, if_neg (Nat.ne_of_gt positive)]
    by_cases none' : kept = []
    · rw [if_pos none', if_pos (.inl (by rw [none']; rfl))]
    · rw [if_neg none', if_neg]
      rintro (zero | exceeds)
      · exact none' (List.eq_nil_of_length_eq_zero zero)
      · rw [first none'] at exceeds
        cases exceeds
  by_cases none' : kept = []
  · rw [if_pos none'] at windows
    have seamless : ¬ Seam content options := by
      rintro ⟨front,back,is,some'',_,within,_⟩
      have fits := most.longest front (is ▸ List.prefix_append front back) within
      rw [none', List.prefix_nil] at fits
      exact some'' fits
    rw [tail_alone tooMuch windows (by change tailLineLimit options ≤ _; omega) (by change tailByteLimit options ≤ _; omega)]
    exact ⟨fun whole => ⟨seamless,whole⟩,fun both => both.2⟩
  · rw [if_neg none'] at windows
    have meet := seam_meets tooMuch most none' (by omega) (by omega) part some' oneOr longest
    by_cases enough : countNewlines content + 1 ≤ kept.length + taken.length
    · rw [if_pos enough] at windows
      constructor
      · intro respects
        have truncated := (respects tooMuch).truncated
        rw [truncateMiddle, windows] at truncated
        cases truncated
      · exact fun both => absurd (meet.mpr enough) both.1
    · rw [if_neg enough] at windows
      obtain ⟨truncated,elided,budget,ends⟩ := tail_cut overTail
      change _ ↔ TailWhole content (tailLineLimit options) (tailByteLimit options) at ends
      change byteLength _ ≤ tailByteLimit options at budget
      rw [RespectsBudget, truncateMiddle, windows]
      dsimp only [Windows.headPart, Windows.tailPart]
      constructor
      · intro respects
        exact ⟨fun seam => enough (meet.mp seam),ends.mp (respects tooMuch).ends⟩
      · intro ⟨_,whole⟩ _
        obtain ⟨within,lines'⟩ := tailIs whole
        have begins := join_prefix most.part
        rw [join_split, ← made.content] at begins
        refine ⟨rfl,begins,ends.mpr whole,?_,?_,?_,fun none'' => (nomatch none''),fun _ _ => ⟨_,rfl⟩⟩
        · exact windows_apart made.content none' most.part part within (by rw [splitLines_length]; rw [countNewlines] at enough; omega)
        · have small := most.holds.2
          rw [← made.content] at small
          omega
        · intro elided' mem
          have clean := fun line (mem : line ∈ kept) => split_clean content line (most.part.subset mem)
          have count' := count_join none' clean
          rw [← made.content] at count'
          rw [made.outputLines, count, Option.getD_some, Option.getD_some, Option.mem_some_iff] at mem
          omega

end windows

end Truncation
