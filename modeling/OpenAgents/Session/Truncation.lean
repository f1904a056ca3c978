import OpenAgents.Lib.TextLines
import OpenAgents.Session.LoneSurrogates

/- Content cut to a number of lines and of bytes: whole lines from its head, or from its tail, and a
   part of the last line when that alone is too long. -/
namespace Truncation
open JsText Utf8 ByteWindows OutputSink TextLines LastIndex LongestPart

def DEFAULT_MAX_LINES : Nat := 3000
def DEFAULT_MAX_BYTES : Nat := 50 * 1024

inductive TruncatedBy where
  | lines
  | bytes
  | middle
  deriving DecidableEq, Repr

structure TruncationResult where
  content : JsString
  truncated : Option Bool := none
  truncatedBy : Option TruncatedBy := none
  totalLines : Nat
  totalBytes : Nat
  outputLines : Option Nat := none
  outputBytes : Option Nat := none
  elidedBytes : Option Nat := none
  elidedLines : Option Nat := none
  lastLinePartial : Option Bool := none
  firstLineExceedsLimit : Option Bool := none
  deriving DecidableEq, Repr

structure TruncationOptions where
  maxLines : Option Nat := none
  maxBytes : Option Nat := none
  maxHeadBytes : Option Nat := none
  maxHeadLines : Option Nat := none

/- The limits that count. -/
def lineLimit (options : TruncationOptions) : Nat := options.maxLines.getD DEFAULT_MAX_LINES
def byteLimit (options : TruncationOptions) : Nat := options.maxBytes.getD DEFAULT_MAX_BYTES

def noTruncResult (content : JsString) (totalLines totalBytes : Nat) : TruncationResult :=
  { content := content, totalLines := totalLines, totalBytes := totalBytes }

/- What a scan over the lines has come to: `index` is where the head ends, or where the tail starts. -/
structure Scan where
  includedLines : Nat
  bytesUsed : Nat
  index : Nat
  truncatedBy : TruncatedBy

def indexOfNewline (content : JsString) (fromIndex : Nat) : Option Nat :=
  ((content.drop fromIndex).findIdx? (· == lineFeed)).map (fromIndex + ·)

def lastIndexOfNewline (content : JsString) (fromIndex : Nat) : Option Nat :=
  lastIndex (· == lineFeed) (content.take (fromIndex + 1))

/- The lines one after the other; nothing is returned when the first one is too long. -/
def headLoop (content : JsString) (maxBytes : Nat) : Nat → Nat → Scan → Option Scan
  | 0, _, scan => some scan
  | linesLeft + 1, cursor, scan =>
      let nl := indexOfNewline content cursor
      let lineEnd := nl.getD content.length
      let sepBytes := if 0 < scan.includedLines then 1 else 0
      let stop := { scan with truncatedBy := .bytes }
      if maxBytes < scan.bytesUsed + sepBytes then some stop
      else
        let remaining := maxBytes - scan.bytesUsed - sepBytes
        let tooLong := if scan.includedLines = 0 then none else some stop
        if remaining < lineEnd - cursor then tooLong
        else
          let lineText := (content.take lineEnd).drop cursor
          let lineBytes := byteLength lineText
          if remaining < lineBytes then tooLong
          else
            let included := { scan with
              includedLines := scan.includedLines + 1
              bytesUsed := scan.bytesUsed + (sepBytes + lineBytes)
              index := lineEnd }
            match nl with
            | none => some included
            | some nl => headLoop content maxBytes linesLeft (nl + 1) included

/- What limited the output in the end. -/
def limitedBy (maxLines maxBytes : Nat) (scan : Scan) : TruncatedBy :=
  if maxLines ≤ scan.includedLines ∧ scan.bytesUsed ≤ maxBytes then .lines else scan.truncatedBy

def truncateHead (content : JsString) (options : TruncationOptions) : TruncationResult :=
  let maxLines := lineLimit options
  let maxBytes := byteLimit options
  let totalBytes := byteLength content
  let totalLines := countNewlines content + 1
  if totalLines ≤ maxLines ∧ totalBytes ≤ maxBytes then noTruncResult content totalLines totalBytes
  else
    match headLoop content maxBytes maxLines 0 ⟨0,0,0,.lines⟩ with
    | none =>
        { content := []
          truncated := some true
          truncatedBy := some .bytes
          totalLines := totalLines
          totalBytes := totalBytes
          outputLines := some 0
          outputBytes := some 0
          lastLinePartial := some false
          firstLineExceedsLimit := some true }
    | some scan =>
        { content := content.take scan.index
          truncated := some true
          truncatedBy := some (limitedBy maxLines maxBytes scan)
          totalLines := totalLines
          totalBytes := totalBytes
          outputLines := some scan.includedLines
          outputBytes := some scan.bytesUsed
          lastLinePartial := some false
          firstLineExceedsLimit := some false }

/- The lines from the last one on; a part of that one when it is too long. -/
def tailLoop (content : JsString) (maxBytes : Nat) : Nat → Nat → Scan → ByteTruncationResult ⊕ Scan
  | 0, _, scan => .inr scan
  | linesLeft + 1, stop, scan =>
      let nl := lastIndexOfNewline content (stop - 1)
      let lineStart := (nl.map (· + 1)).getD 0
      let sepBytes := if 0 < scan.includedLines then 1 else 0
      let stopped := { scan with truncatedBy := .bytes }
      if maxBytes < scan.bytesUsed + sepBytes then .inr stopped
      else
        let remaining := maxBytes - scan.bytesUsed - sepBytes
        if remaining < stop - lineStart then
          if scan.includedLines = 0 then
            let windowStart := max lineStart (stop - maxBytes)
            let window := (content.take stop).drop windowStart
            .inl (truncateTailBytes window maxBytes)
          else .inr stopped
        else
          let lineText := (content.take stop).drop lineStart
          let lineBytes := byteLength lineText
          if remaining < lineBytes then
            if scan.includedLines = 0 then .inl (truncateTailBytes lineText maxBytes) else .inr stopped
          else
            let included := { scan with
              includedLines := scan.includedLines + 1
              bytesUsed := scan.bytesUsed + (sepBytes + lineBytes)
              index := lineStart }
            match nl with
            | none => .inr included
            | some nl => tailLoop content maxBytes linesLeft nl included

def truncateTail (content : JsString) (options : TruncationOptions) : TruncationResult :=
  let maxLines := lineLimit options
  let maxBytes := byteLimit options
  let totalBytes := byteLength content
  let totalLines := countNewlines content + 1
  if totalLines ≤ maxLines ∧ totalBytes ≤ maxBytes then noTruncResult content totalLines totalBytes
  else
    match tailLoop content maxBytes maxLines content.length ⟨0,0,content.length,.lines⟩ with
    | .inl tail =>
        { content := tail.text
          truncated := some true
          truncatedBy := some .bytes
          totalLines := totalLines
          totalBytes := totalBytes
          outputLines := some 1
          outputBytes := some tail.bytes
          lastLinePartial := some true
          firstLineExceedsLimit := some false }
    | .inr scan =>
        { content := content.drop scan.index
          truncated := some true
          truncatedBy := some (limitedBy maxLines maxBytes scan)
          totalLines := totalLines
          totalBytes := totalBytes
          outputLines := some scan.includedLines
          outputBytes := some scan.bytesUsed
          lastLinePartial := some false
          firstLineExceedsLimit := some false }

/- Both limits, of lines that are joined. -/
def Within (maxLines maxBytes : Nat) (lines : List JsString) : Prop :=
  lines.length ≤ maxLines ∧ byteLength (joinLines lines) ≤ maxBytes

section joined
variable {lines front back : List JsString} {maxLines maxBytes k : Nat}

theorem bytes_append_lines (some' : front ≠ []) (more : back ≠ []) :
    byteLength (joinLines (front ++ back)) = byteLength (joinLines front) + 1 + byteLength (joinLines back) := by
  rw [join_append front more, terminate_join some', List.append_assoc, List.singleton_append, byteLength_lineFeed]

theorem within_prefix (part : front <+: lines) (within : Within maxLines maxBytes lines) : Within maxLines maxBytes front := by
  obtain ⟨rest,is⟩ := part
  subst is
  obtain ⟨few,small⟩ := within
  rw [List.length_append] at few
  refine ⟨by omega,?_⟩
  by_cases none' : front = []
  · rw [none']
    exact Nat.zero_le _
  · by_cases alone : rest = []
    · rwa [alone, List.append_nil] at small
    · rw [bytes_append_lines none' alone] at small
      omega

theorem within_suffix (part : back <:+ lines) (within : Within maxLines maxBytes lines) : Within maxLines maxBytes back := by
  obtain ⟨rest,is⟩ := part
  subst is
  obtain ⟨few,small⟩ := within
  rw [List.length_append] at few
  refine ⟨by omega,?_⟩
  by_cases none' : back = []
  · rw [none']
    exact Nat.zero_le _
  · by_cases alone : rest = []
    · rwa [alone, List.nil_append] at small
    · rw [bytes_append_lines alone none'] at small
      omega

theorem take_some (positive : 0 < k) (inside : k < lines.length) : lines.take k ≠ [] := by
  rw [Ne, List.take_eq_nil_iff]
  rintro (zero | empty)
  · omega
  · rw [empty] at inside
    exact Nat.not_lt_zero k inside

/- One line more in front of the rest. -/
theorem bytes_take_next (inside : k < lines.length) : byteLength (joinLines (lines.take (k + 1))) =
    byteLength (joinLines (lines.take k)) + ((if 0 < k then 1 else 0) + byteLength lines[k]) := by
  rw [List.take_succ_eq_append_getElem inside]
  by_cases first : k = 0
  · subst first
    rw [List.take_zero, List.nil_append, join_single, if_neg (Nat.lt_irrefl 0), Nat.zero_add]
    exact (Nat.zero_add _).symm
  · rw [bytes_append_lines (take_some (Nat.pos_of_ne_zero first) inside) (List.cons_ne_nil _ _), join_single, if_pos (Nat.pos_of_ne_zero first), Nat.add_assoc]

theorem bytes_drop_next (inside : k < lines.length) : byteLength (joinLines (lines.drop k)) =
    byteLength (joinLines (lines.drop (k + 1))) + ((if 0 < lines.length - (k + 1) then 1 else 0) + byteLength lines[k]) := by
  rw [List.drop_eq_getElem_cons inside]
  by_cases last : lines.length ≤ k + 1
  · rw [List.drop_of_length_le last, join_single, if_neg (by omega), Nat.zero_add]
    exact (Nat.zero_add _).symm
  · have some' : lines.drop (k + 1) ≠ [] := by
      rw [Ne, List.drop_eq_nil_iff]
      exact last
    rw [← List.singleton_append, bytes_append_lines (List.cons_ne_nil _ _) some', join_single, if_pos (by omega)]
    omega

end joined

section scanning
variable {content : JsString} {maxBytes k : Nat}

/-- The content around one of its lines. -/
theorem content_at (inside : k < (splitLines content).length) : content =
    terminate ((splitLines content).take k) ++ ((splitLines content)[k] ++ precede ((splitLines content).drop (k + 1))) := by
  have more : (splitLines content).drop k ≠ [] := by
    rw [Ne, List.drop_eq_nil_iff]
    omega
  conv => lhs; rw [← join_split content, ← List.take_append_drop k (splitLines content), join_append _ more,
    List.drop_eq_getElem_cons inside, join_cons]

theorem drop_at (inside : k < (splitLines content).length) :
    content.drop (terminate ((splitLines content).take k)).length =
      (splitLines content)[k] ++ precede ((splitLines content).drop (k + 1)) :=
  (congrArg (List.drop _) (content_at inside)).trans List.drop_left

theorem line_clean (inside : k < (splitLines content).length) : lineFeed ∉ (splitLines content)[k] :=
  split_clean content _ (List.getElem_mem inside)

/- Where the line ends that begins at the cursor. -/
theorem newline_after (inside : k < (splitLines content).length) :
    indexOfNewline content (terminate ((splitLines content).take k)).length =
      if k + 1 < (splitLines content).length then
        some ((terminate ((splitLines content).take k)).length + (splitLines content)[k].length)
      else none := by
  have clean := line_clean inside
  have found : ∀ rest : List JsString, ((splitLines content)[k] ++ precede rest).findIdx? (· == lineFeed) =
      if rest = [] then none else some (splitLines content)[k].length := by
    intro rest
    have none' : (splitLines content)[k].findIdx? (· == lineFeed) = none := by
      rw [List.findIdx?_eq_none_iff]
      intro c mem
      rw [beq_eq_false_iff_ne]
      exact fun same => clean (same ▸ mem)
    rw [List.findIdx?_append, none']
    cases rest with
    | nil => rfl
    | cons line rest => simp [precede, List.findIdx?_cons]
  rw [indexOfNewline, drop_at inside, found]
  by_cases more : k + 1 < (splitLines content).length
  · rw [if_pos more, if_neg (by rw [List.drop_eq_nil_iff]; omega)]
    rfl
  · rw [if_neg more, if_pos (by rw [List.drop_eq_nil_iff]; omega)]
    rfl

theorem lineEnd_eq (inside : k < (splitLines content).length) :
    (indexOfNewline content (terminate ((splitLines content).take k)).length).getD content.length =
      (terminate ((splitLines content).take k)).length + (splitLines content)[k].length := by
  rw [newline_after inside]
  by_cases more : k + 1 < (splitLines content).length
  · rw [if_pos more, Option.getD_some]
  · have split := congrArg List.length (content_at inside)
    rw [List.drop_of_length_le (by omega)] at split
    rw [if_neg more, Option.getD_none, split]
    simp [precede]

theorem take_line (inside : k < (splitLines content).length) :
    content.take ((terminate ((splitLines content).take k)).length + (splitLines content)[k].length) =
      terminate ((splitLines content).take k) ++ (splitLines content)[k] := by
  refine (congrArg (List.take _) (content_at inside)).trans ?_
  rw [← List.append_assoc, ← List.length_append, List.take_left]

theorem joined_front (inside : k < (splitLines content).length) :
    joinLines ((splitLines content).take (k + 1)) =
      terminate ((splitLines content).take k) ++ (splitLines content)[k] := by
  rw [List.take_succ_eq_append_getElem inside, join_append _ (List.cons_ne_nil _ _), join_single]

theorem terminate_next (inside : k < (splitLines content).length) :
    (terminate ((splitLines content).take (k + 1))).length =
      (terminate ((splitLines content).take k)).length + (splitLines content)[k].length + 1 := by
  rw [List.take_succ_eq_append_getElem inside, terminate, List.flatMap_append, List.length_append, List.flatMap_singleton,
    List.length_append, ← terminate, List.length_singleton, Nat.add_assoc]

/-- So many lines are in the head. -/
structure HeadScan (content : JsString) (maxBytes : Nat) (scan : Scan) (k : Nat) : Prop where
  bound : k ≤ (splitLines content).length
  count : scan.includedLines = k
  used : scan.bytesUsed = byteLength (joinLines ((splitLines content).take k))
  room : scan.bytesUsed ≤ maxBytes
  cut : content.take scan.index = joinLines ((splitLines content).take k)

/-- The scan of the head goes on to the first line that does not fit. -/
theorem headLoop_scans (linesLeft : Nat) {scan : Scan} (inside : k < (splitLines content).length)
    (scanned : HeadScan content maxBytes scan k) :
    match headLoop content maxBytes linesLeft (terminate ((splitLines content).take k)).length scan with
    | none => k = 0 ∧ 0 < linesLeft ∧ maxBytes < byteLength (joinLines ((splitLines content).take 1))
    | some after => ∃ m, HeadScan content maxBytes after m ∧ k ≤ m ∧ m ≤ k + linesLeft ∧
        (m = (splitLines content).length ∨ m = k + linesLeft ∨ 0 < m ∧ maxBytes < byteLength (joinLines ((splitLines content).take (m + 1)))) := by
  induction linesLeft generalizing k scan with
  | zero => exact ⟨k,scanned,Nat.le_refl k,Nat.le_refl k,.inr (.inl rfl)⟩
  | succ linesLeft ih =>
    have next := bytes_take_next inside
    have wide := (wellFormed_narrow (splitLines content)[k]).1
    have room := scanned.room
    have stopped : HeadScan content maxBytes ⟨k,scan.bytesUsed,scan.index,.bytes⟩ k :=
      ⟨scanned.bound,rfl,scanned.used,room,scanned.cut⟩
    rw [← scanned.used] at next
    rw [headLoop]
    dsimp only
    rw [lineEnd_eq inside, take_line inside, List.drop_left, Nat.add_sub_cancel_left, scanned.count]
    generalize sep : (if 0 < k then 1 else 0) = sepBytes at next ⊢
    by_cases fits : byteLength (joinLines ((splitLines content).take (k + 1))) ≤ maxBytes
    · rw [if_neg (by omega), if_neg (by omega), if_neg (by omega), newline_after inside]
      have included : HeadScan content maxBytes
          { scan with
            includedLines := k + 1
            bytesUsed := scan.bytesUsed + (sepBytes + byteLength (splitLines content)[k])
            index := (terminate ((splitLines content).take k)).length + (splitLines content)[k].length } (k + 1) := by
        refine ⟨inside,rfl,next.symm,next ▸ fits,?_⟩
        rw [take_line inside, joined_front inside]
      by_cases more : k + 1 < (splitLines content).length
      · have later := ih more included
        rw [terminate_next inside] at later
        rw [if_pos more]
        dsimp only
        split
        · rename_i none'
          rw [none'] at later
          exact absurd later.1 (Nat.succ_ne_zero k)
        · rename_i after some'
          rw [some'] at later
          obtain ⟨m,scanned',low,high,why⟩ := later
          exact ⟨m,scanned',by omega,by omega,by omega⟩
      · rw [if_neg more]
        exact ⟨k + 1,included,by omega,by omega,.inl (by omega)⟩
    · by_cases first : k = 0
      · subst first
        have unused : scan.bytesUsed = 0 := scanned.used
        have none' : sepBytes = 0 := sep.symm
        rw [if_neg (by omega), if_pos rfl]
        have wider : maxBytes - scan.bytesUsed - sepBytes < byteLength (splitLines content)[0] := by omega
        rw [if_pos wider, ite_self]
        exact ⟨rfl,Nat.succ_pos _,Nat.lt_of_not_le fits⟩
      · have stops : ∃ m, HeadScan content maxBytes ⟨k,scan.bytesUsed,scan.index,.bytes⟩ m ∧ k ≤ m ∧ m ≤ k + (linesLeft + 1) ∧
            (m = (splitLines content).length ∨ m = k + (linesLeft + 1) ∨
              0 < m ∧ maxBytes < byteLength (joinLines ((splitLines content).take (m + 1)))) :=
          ⟨k,stopped,Nat.le_refl k,Nat.le_add_right k _,.inr (.inr ⟨Nat.pos_of_ne_zero first,by omega⟩)⟩
        rw [if_neg first]
        by_cases full : maxBytes < scan.bytesUsed + sepBytes
        · rw [if_pos full]
          exact stops
        · rw [if_neg full, if_pos (by omega : maxBytes - scan.bytesUsed - sepBytes < byteLength (splitLines content)[k]), ite_self]
          exact stops

/- Where the line begins that ends before `stop`, if there is anything before. -/
theorem newline_before (inside : k < (splitLines content).length)
    (some' : 0 < (joinLines ((splitLines content).take (k + 1))).length) :
    lastIndexOfNewline content ((joinLines ((splitLines content).take (k + 1))).length - 1) =
      if 0 < k then some (joinLines ((splitLines content).take k)).length else none := by
  have clean : ∀ c ∈ (splitLines content)[k], (c == lineFeed) = false := by
    intro c mem
    rw [beq_eq_false_iff_ne]
    exact fun same => line_clean inside (same ▸ mem)
  have front := joined_front inside
  rw [lastIndexOfNewline, Nat.sub_add_cancel some', front, List.length_append, take_line inside]
  by_cases more : 0 < k
  · rw [if_pos more, terminate_join (take_some more inside), List.append_assoc, List.singleton_append]
    exact lastIndex_append _ rfl clean
  · have zero : k = 0 := by omega
    subst zero
    rw [if_neg more]
    exact lastIndex_none_iff.mpr clean

theorem line_begins (inside : k < (splitLines content).length)
    (some' : 0 < (joinLines ((splitLines content).take (k + 1))).length) :
    ((lastIndexOfNewline content ((joinLines ((splitLines content).take (k + 1))).length - 1)).map (· + 1)).getD 0 =
      (terminate ((splitLines content).take k)).length := by
  rw [newline_before inside some']
  by_cases more : 0 < k
  · rw [if_pos more, terminate_join (take_some more inside), List.length_append]
    rfl
  · have zero : k = 0 := by omega
    subst zero
    rfl

/-- Nothing is left in front only of a first line that is empty. -/
theorem nothing_before (inside : k < (splitLines content).length)
    (none' : (joinLines ((splitLines content).take (k + 1))).length = 0) : k = 0 ∧ (splitLines content)[k] = [] := by
  rw [joined_front inside, List.length_append] at none'
  refine ⟨?_,List.eq_nil_of_length_eq_zero (by omega)⟩
  by_contra later
  rw [terminate_join (take_some (Nat.pos_of_ne_zero later) inside), List.length_append, List.length_singleton] at none'
  omega

/-- So many lines are not in the tail. -/
structure TailScan (content : JsString) (maxBytes : Nat) (scan : Scan) (k : Nat) : Prop where
  bound : k ≤ (splitLines content).length
  count : scan.includedLines = (splitLines content).length - k
  used : scan.bytesUsed = byteLength (joinLines ((splitLines content).drop k))
  room : scan.bytesUsed ≤ maxBytes
  cut : content.drop scan.index = joinLines ((splitLines content).drop k)

/-- The scan of the tail goes on to the first line that does not fit. Where content starts with a line
    feed the search from -1 would find it again, but then a limit is reached before. -/
theorem tailLoop_scans (linesLeft : Nat) {scan : Scan} (inside : k < (splitLines content).length)
    (scanned : TailScan content maxBytes scan (k + 1))
    (tooMuch : linesLeft ≤ k ∨ maxBytes < byteLength content) :
    match tailLoop content maxBytes linesLeft (joinLines ((splitLines content).take (k + 1))).length scan with
    | .inl tail => k + 1 = (splitLines content).length ∧ 0 < linesLeft ∧
        maxBytes < byteLength (joinLines ((splitLines content).drop k)) ∧ tail = truncateTailBytes (splitLines content)[k] maxBytes
    | .inr after => ∃ m, TailScan content maxBytes after m ∧ m ≤ k + 1 ∧ k + 1 ≤ m + linesLeft ∧
        (m = 0 ∨ k + 1 = m + linesLeft ∨
          m < (splitLines content).length ∧ maxBytes < byteLength (joinLines ((splitLines content).drop (m - 1)))) := by
  induction linesLeft generalizing k scan with
  | zero => exact ⟨k + 1,scanned,Nat.le_refl _,Nat.le_refl _,.inr (.inl rfl)⟩
  | succ linesLeft ih =>
    have next := bytes_drop_next inside
    have wide := (wellFormed_narrow (splitLines content)[k]).1
    have room := scanned.room
    have front := joined_front inside
    have stopped : TailScan content maxBytes ⟨(splitLines content).length - (k + 1),scan.bytesUsed,scan.index,.bytes⟩ (k + 1) :=
      ⟨scanned.bound,rfl,scanned.used,room,scanned.cut⟩
    rw [← scanned.used] at next
    rw [tailLoop]
    dsimp only
    rw [scanned.count]
    generalize sep : (if 0 < (splitLines content).length - (k + 1) then 1 else 0) = sepBytes at next ⊢
    have stops : maxBytes < byteLength (joinLines ((splitLines content).drop k)) → k + 1 < (splitLines content).length →
        ∃ m, TailScan content maxBytes ⟨(splitLines content).length - (k + 1),scan.bytesUsed,scan.index,.bytes⟩ m ∧ m ≤ k + 1 ∧
          k + 1 ≤ m + (linesLeft + 1) ∧ (m = 0 ∨ k + 1 = m + (linesLeft + 1) ∨
            m < (splitLines content).length ∧ maxBytes < byteLength (joinLines ((splitLines content).drop (m - 1)))) :=
      fun large more => ⟨k + 1,stopped,Nat.le_refl _,Nat.le_add_right _ _,.inr (.inr ⟨more,large⟩)⟩
    by_cases full : maxBytes < scan.bytesUsed + sepBytes
    · rw [if_pos full]
      have more : k + 1 < (splitLines content).length := by
        by_contra last
        have none' : (splitLines content).drop (k + 1) = [] := List.drop_of_length_le (by omega)
        have unused : scan.bytesUsed = 0 := by rw [scanned.used, none']; rfl
        rw [if_neg (by omega)] at sep
        omega
      exact stops (by omega) more
    · have some' : 0 < (joinLines ((splitLines content).take (k + 1))).length := by
        by_contra nothing
        obtain ⟨first,bare⟩ := nothing_before inside (by omega)
        have none' : byteLength [] = 0 := rfl
        rw [bare] at next
        subst first
        rw [List.drop_zero, join_split] at next
        omega
      have taken := take_line inside
      rw [← List.length_append, ← front] at taken
      rw [line_begins inside some', taken, if_neg full, front, List.drop_left, List.length_append, Nat.add_sub_cancel_left, ← List.length_append, ← front]
      by_cases fits : byteLength (joinLines ((splitLines content).drop k)) ≤ maxBytes
      · rw [if_neg (by omega), if_neg (by omega), newline_before inside some']
        have included : TailScan content maxBytes
            { scan with
              includedLines := (splitLines content).length - (k + 1) + 1
              bytesUsed := scan.bytesUsed + (sepBytes + byteLength (splitLines content)[k])
              index := (terminate ((splitLines content).take k)).length } k := by
          refine ⟨Nat.le_of_lt inside,by dsimp only; omega,next.symm,next ▸ fits,?_⟩
          rw [drop_at inside, List.drop_eq_getElem_cons inside, join_cons]
        by_cases more : 0 < k
        · obtain ⟨j,is⟩ := Nat.exists_eq_succ_of_ne_zero (Nat.ne_of_gt more)
          subst is
          have later := ih (Nat.lt_of_succ_lt inside) included (by omega)
          rw [if_pos more]
          dsimp only
          split
          · rename_i tail partial'
            rw [partial'] at later
            have last := later.1
            omega
          · rename_i after some''
            rw [some''] at later
            obtain ⟨m,scanned',low,high,why⟩ := later
            exact ⟨m,scanned',by omega,by omega,by omega⟩
        · rw [if_neg more]
          exact ⟨k,included,by omega,by omega,.inl (by omega)⟩
      · by_cases last : (splitLines content).length - (k + 1) = 0
        · have none' : (splitLines content).drop (k + 1) = [] := List.drop_of_length_le (by omega)
          have unused : scan.bytesUsed = 0 := by rw [scanned.used, none']; rfl
          have noSep : sepBytes = 0 := by rw [← sep, last]; rfl
          have large : maxBytes < byteLength (splitLines content)[k] := by omega
          rw [unused, noSep, last, Nat.sub_zero, Nat.sub_zero, if_pos rfl, if_pos rfl, if_pos large]
          by_cases units : maxBytes < (splitLines content)[k].length
          · have window : max (terminate ((splitLines content).take k)).length ((joinLines ((splitLines content).take (k + 1))).length - maxBytes) =
                (terminate ((splitLines content).take k)).length + ((splitLines content)[k].length - maxBytes) := by
              rw [front, List.length_append]
              omega
            rw [if_pos units, window, front, ← List.drop_drop, List.drop_left, truncate_window units]
            exact ⟨by omega,Nat.succ_pos _,by omega,rfl⟩
          · rw [if_neg units]
            exact ⟨by omega,Nat.succ_pos _,by omega,rfl⟩
        · rw [if_neg last, if_neg last, if_pos (by omega : maxBytes - scan.bytesUsed - sepBytes < byteLength (splitLines content)[k]),
            ite_self]
          exact stops (by omega) (by omega)

end scanning

def Fits (options : TruncationOptions) (content : JsString) : Prop :=
  countNewlines content + 1 ≤ lineLimit options ∧ byteLength content ≤ byteLimit options

instance (options : TruncationOptions) (content : JsString) : Decidable (Fits options content) :=
  inferInstanceAs (Decidable (_ ∧ _))

/-- A result made of these lines, and counted. -/
structure MadeOf (lines : List JsString) (result : TruncationResult) : Prop where
  content : result.content = joinLines lines
  outputLines : result.outputLines = some lines.length
  outputBytes : result.outputBytes = some (byteLength result.content)
  truncated : result.truncated = some true
  elided : result.elidedLines = none

/-- A result made of a part of one line that is too long: the characters at its end that fit. -/
structure PartOf (line : JsString) (maxBytes : Nat) (result : TruncationResult) : Prop where
  characters : ∃ kept, result.content = text kept ∧
    LongestSuffix (fun kept => (bytes kept).length ≤ maxBytes) (characters line) kept
  outputLines : result.outputLines = some 1
  outputBytes : result.outputBytes = some (byteLength result.content)
  truncated : result.truncated = some true
  elided : result.elidedLines = none

section results
variable {content : JsString} {options : TruncationOptions}

theorem head_longest (tooMuch : ¬ Fits options content) : ∃ kept,
    LongestPrefix (Within (lineLimit options) (byteLimit options)) (splitLines content) kept ∧
      MadeOf kept (truncateHead content options) ∧
      (kept ≠ [] → (truncateHead content options).firstLineExceedsLimit = some false) := by
  have positive : 0 < (splitLines content).length := List.length_pos_iff.mpr (splitLines_ne_nil content)
  have start : HeadScan content (byteLimit options) ⟨0,0,0,.lines⟩ 0 := ⟨Nat.zero_le _,rfl,rfl,Nat.zero_le _,rfl⟩
  have scanned := headLoop_scans (lineLimit options) positive start
  have closed : ∀ front whole, front <+: whole → Within (lineLimit options) (byteLimit options) whole →
      Within (lineLimit options) (byteLimit options) front := fun _ _ part within => within_prefix part within
  have tooMuch' : ¬ (countNewlines content + 1 ≤ lineLimit options ∧ byteLength content ≤ byteLimit options) := tooMuch
  rw [truncateHead, if_neg tooMuch']
  have zero : (terminate ((splitLines content).take 0)).length = 0 := rfl
  rw [zero] at scanned
  cases read : headLoop content (byteLimit options) (lineLimit options) 0 ⟨0,0,0,.lines⟩ with
  | none =>
    rw [read] at scanned
    obtain ⟨-,_,large⟩ := scanned
    have longest := @longest_take _ _ closed (splitLines content) 0 ⟨Nat.zero_le _,Nat.zero_le _⟩
      (.inr fun within => absurd within.2 (Nat.not_le_of_lt large))
    exact ⟨[],longest,⟨rfl,rfl,rfl,rfl,rfl⟩,fun none' => absurd rfl none'⟩
  | some after =>
    rw [read] at scanned
    obtain ⟨m,scan,_,few,why⟩ := scanned
    have count : ((splitLines content).take m).length = m := by
      rw [List.length_take]
      exact Nat.min_eq_left scan.bound
    have longest := @longest_take _ _ closed (splitLines content) m ⟨by omega,scan.used ▸ scan.room⟩ (by
      rcases why with all | most | ⟨_,large⟩
      · exact .inl (by omega)
      · by_cases last : (splitLines content).length ≤ m
        · exact .inl last
        · refine .inr fun within => ?_
          have longer := within.1
          rw [List.length_take] at longer
          omega
      · exact .inr fun within => absurd within.2 (Nat.not_le_of_lt large))
    refine ⟨_,longest,⟨scan.cut,?_,?_,rfl,rfl⟩,fun _ => rfl⟩
    · rw [count, ← scan.count]
    · dsimp only
      rw [scan.cut, scan.used]

theorem tail_longest (tooMuch : ¬ Fits options content) :
    if 0 < lineLimit options ∧ byteLimit options < byteLength (lastLine content) then
      PartOf (lastLine content) (byteLimit options) (truncateTail content options)
    else ∃ kept, LongestSuffix (Within (lineLimit options) (byteLimit options)) (splitLines content) kept ∧
      MadeOf kept (truncateTail content options) := by
  have positive : 0 < (splitLines content).length := List.length_pos_iff.mpr (splitLines_ne_nil content)
  obtain ⟨k,last⟩ := Nat.exists_eq_succ_of_ne_zero (Nat.ne_of_gt positive)
  have inside : k < (splitLines content).length := by omega
  have lastLine_eq : (splitLines content)[k] = lastLine content := by
    rw [lastLine, List.getLastD_eq_getLast?, List.getLast?_eq_getElem?, last, Nat.succ_sub_one, List.getElem?_eq_getElem inside,
      Option.getD_some]
  have single : joinLines ((splitLines content).drop k) = lastLine content := by
    rw [List.drop_eq_getElem_cons inside, List.drop_of_length_le (by omega), join_single, lastLine_eq]
  have none' : (splitLines content).drop (k + 1) = [] := List.drop_of_length_le (by omega)
  have start : TailScan content (byteLimit options) ⟨0,0,content.length,.lines⟩ (k + 1) := by
    refine ⟨by omega,by dsimp only; omega,by rw [none']; rfl,Nat.zero_le _,?_⟩
    rw [none', List.drop_length]
    rfl
  have whole : (joinLines ((splitLines content).take (k + 1))).length = content.length := by
    rw [List.take_of_length_le (by omega), join_split]
  have tooMuch' : ¬ (countNewlines content + 1 ≤ lineLimit options ∧ byteLength content ≤ byteLimit options) := tooMuch
  have lines := splitLines_length content
  have scanned := tailLoop_scans (lineLimit options) inside start (by rw [countNewlines] at tooMuch'; omega)
  rw [whole] at scanned
  rw [truncateTail, if_neg tooMuch']
  cases read : tailLoop content (byteLimit options) (lineLimit options) content.length ⟨0,0,content.length,.lines⟩ with
  | inl tail =>
    rw [read, single, lastLine_eq] at scanned
    obtain ⟨-,some',large,is⟩ := scanned
    rw [if_pos ⟨some',large⟩]
    rw [truncate_wellFormed large, text_characters, truncate_behind] at is
    rw [is]
    exact ⟨⟨_,rfl,behind_longest _ _⟩,rfl,by rw [byteLength_text],rfl,rfl⟩
  | inr after =>
    rw [read] at scanned
    obtain ⟨m,scan,low,few,why⟩ := scanned
    have small : byteLength (joinLines ((splitLines content).drop m)) ≤ byteLimit options := scan.used ▸ scan.room
    have count : ((splitLines content).drop m).length = (splitLines content).length - m := List.length_drop
    have closed : ∀ back whole, back <:+ whole → Within (lineLimit options) (byteLimit options) whole →
        Within (lineLimit options) (byteLimit options) back := fun _ _ part within => within_suffix part within
    have longest := @longest_drop _ _ closed (splitLines content) m ⟨by omega,small⟩ (by
      rcases why with all | most | ⟨_,large⟩
      · exact .inl all
      · by_cases first : m = 0
        · exact .inl first
        · refine .inr fun within => ?_
          have longer := within.1
          rw [List.length_drop] at longer
          omega
      · exact .inr fun within => absurd within.2 (Nat.not_le_of_lt large))
    -- The last line fits, or no line is wanted.
    have fits : ¬ (0 < lineLimit options ∧ byteLimit options < byteLength (lastLine content)) := by
      rintro ⟨some',large⟩
      have here : m ≤ k := by omega
      have part : (splitLines content).drop k <:+ (splitLines content).drop m :=
        List.suffix_of_suffix_length_le (List.drop_suffix _ _) (List.drop_suffix _ _) (by rw [List.length_drop, List.length_drop]; omega)
      have within := (within_suffix part (⟨Nat.le_refl _,small⟩ : Within _ (byteLimit options) _)).2
      rw [single] at within
      omega
    rw [if_neg fits]
    refine ⟨_,longest,scan.cut,?_,?_,rfl,rfl⟩
    · rw [count, ← scan.count]
    · dsimp only
      rw [scan.cut, scan.used]

theorem whole_fits (fits : Fits options content) :
    truncateHead content options = noTruncResult content (countNewlines content + 1) (byteLength content) ∧
      truncateTail content options = noTruncResult content (countNewlines content + 1) (byteLength content) := by
  have fits' : countNewlines content + 1 ≤ lineLimit options ∧ byteLength content ≤ byteLimit options := fits
  rw [truncateHead, truncateTail, if_pos fits', if_pos fits']
  exact ⟨rfl,rfl⟩

end results

/-- Content that does not fit is cut to the longest head, or tail, of whole lines within both limits,
    or, when lines are wanted but the last one is too long, to the last characters of that line. -/
theorem longest_counted (content : JsString) (options : TruncationOptions) :
    if Fits options content then
      truncateHead content options = noTruncResult content (countNewlines content + 1) (byteLength content) ∧
        truncateTail content options = noTruncResult content (countNewlines content + 1) (byteLength content)
    else
      (∃ kept, LongestPrefix (Within (lineLimit options) (byteLimit options)) (splitLines content) kept ∧
        MadeOf kept (truncateHead content options)) ∧
      if 0 < lineLimit options ∧ byteLimit options < byteLength (lastLine content) then
        PartOf (lastLine content) (byteLimit options) (truncateTail content options)
      else ∃ kept, LongestSuffix (Within (lineLimit options) (byteLimit options)) (splitLines content) kept ∧
        MadeOf kept (truncateTail content options) := by
  by_cases fits : Fits options content
  · rw [if_pos fits]
    exact whole_fits fits
  · obtain ⟨kept,longest,made,_⟩ := head_longest fits
    rw [if_neg fits]
    exact ⟨⟨kept,longest,made⟩,tail_longest fits⟩

/-- Without a cut nothing is counted, and half of a pair is not given back as it was. -/
theorem whole_uncounted : (truncateHead (js "a") {}).content = js "a" ∧ (truncateHead (js "a") {}).outputLines ≠ some 1 ∧
    (truncateTail (js "a") {}).content = js "a" ∧ (truncateTail (js "a") {}).outputBytes ≠ some 1 ∧
    ¬ (truncateTail [0x61, 0xD800] { maxBytes := some 3 }).content <:+ [0x61, 0xD800] := by decide +kernel

end Truncation
