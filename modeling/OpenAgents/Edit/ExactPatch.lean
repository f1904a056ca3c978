import OpenAgents.Edit.ExactSearch
import OpenAgents.Edit.HunkText
import Mathlib.Algebra.Ring.Int.Defs

/- A hunk whose old lines stand once in the file, from its diff text to the patched file. -/
namespace Edit
open JsText TextLines Hashline

structure StandsOnce (content : JsString) (old before after : List JsString) : Prop where
  here : textLines content = before ++ old ++ after
  once : ∀ other rest, textLines content = other ++ old ++ rest → other = before

/- The block replaced, all else as it was. -/
def replacedText (content : JsString) (before new after : List JsString) : JsString :=
  joinLines (before ++ new ++ after) ++ finalNewline content

/-- A hunk without context is looked up as text: its first occurrence is the block, and it is the only one.
    An empty replacement keeps a line feed beside the block. -/
structure StandsInText (content : JsString) (hunk : PatchHunk) (before after : List JsString) : Prop where
  oldText : joinLines hunk.oldLines ≠ []
  first : indexOf (joinLines hunk.oldLines) content = some (terminate before).length
  only : countOccurrences content (joinLines hunk.oldLines) ≤ 1
  newText : hunk.newLines ≠ [] ∨ after = [] ∧ (before = [] ∨ endsWithLineFeed content = false)

theorem StandsOnce.nonempty {content : JsString} {old before after : List JsString}
    (stands : StandsOnce content old before after) : old ≠ [] := by
  rintro rfl
  have atStart : [] = before := stands.once [] (textLines content) rfl
  have atEnd : textLines content = before := stands.once (textLines content) [] (by simp)
  exact textLines_ne_nil content (atEnd.trans atStart.symm)

theorem StandsOnce.position {content : JsString} {old before after : List JsString}
    (stands : StandsOnce content old before after) (j : Nat) (found : StandsAt (textLines content) old j) :
    j = before.length := by
  obtain ⟨rest,tail⟩ := found
  have fits := StandsAt.fits ⟨rest,tail⟩ stands.nonempty
  have split : textLines content = (textLines content).take j ++ old ++ rest := by
    rw [List.append_assoc, tail, List.take_append_drop]
  rw [← stands.once _ _ split, List.length_take]
  omega

theorem policy_keeps {lines : List JsString} {content : JsString}
    (noBlankEnd : endsWithLineFeed content = true ∨ endsWithLineFeed (joinLines lines) = false) :
    applyTrailingNewlinePolicy (joinLines lines ++ finalNewline content) (endsWithLineFeed content) =
      joinLines lines ++ finalNewline content := by
  cases ends : endsWithLineFeed content with
  | true => simp [applyTrailingNewlinePolicy, finalNewline, ends, endsWith_append_lineFeed]
  | false =>
    have kept : endsWithLineFeed (joinLines lines) = false := by simpa [ends] using noBlankEnd
    simp only [applyTrailingNewlinePolicy, finalNewline, ends, Bool.false_eq_true, if_false, List.append_nil]
    rw [List.rdropWhile_eq_self_iff]
    intro nonempty last
    rw [endsWithLineFeed, List.getLast?_eq_some_getLast nonempty] at kept
    simp [show (joinLines lines).getLast nonempty = lineFeed by simpa using last] at kept

section byLines
variable {Score : Type} (sc : Scoring Score) {content : JsString} {hunk : PatchHunk} {before after : List JsString}

theorem locate_exact (stands : StandsOnce content hunk.oldLines before after) (allowFuzzy : Bool) :
    locateHunk sc (textLines content) hunk.parsed none 0 allowFuzzy =
      ⟨hunk.oldLines,hunk.newLines,⟨some before.length,sc.const 1000,none,[],some .exact⟩⟩ := by
  have found : seekSequence sc (textLines content) hunk.oldLines 0 false allowFuzzy =
      ⟨some before.length,sc.const 1000,none,[],some .exact⟩ := by
    have here : StandsAt (textLines content) hunk.oldLines before.length :=
      ⟨after,by rw [stands.here, List.append_assoc, List.drop_left]⟩
    refine seek_exact sc allowFuzzy stands.nonempty here (Nat.zero_le _) ?_
    intro j _ earlier other
    have same := stands.position j other
    omega
  have trimmed : searchTrimmed sc (textLines content) hunk.parsed 0 allowFuzzy =
      ⟨hunk.oldLines,hunk.newLines,⟨some before.length,sc.const 1000,none,[],some .exact⟩⟩ := by
    simp [searchTrimmed, PatchHunk.parsed, getHunkHintIndex, findSequenceWithHint, found]
  rw [locateHunk, trimmed]
  simp [searchVariants, searchAdjacent, searchRepeated, chooseHinted, SearchResult.many]

theorem adjust_exact (lines newLines : List JsString) : adjustLinesIndentation lines lines newLines = newLines := by
  simp only [adjustLinesIndentation, if_true]
  split <;> rfl

/-- The replacement of the block; a hunk that changes nothing makes none. -/
theorem compute_exact (path : JsString) (stands : StandsOnce content hunk.oldLines before after)
    (context : hunk.hasContext = true) (allowFuzzy : Bool) :
    computeReplacements sc (textLines content) path [hunk.parsed] allowFuzzy =
      .ok (if hunk.oldLines = hunk.newLines then []
        else [⟨before.length,hunk.oldLines.length,hunk.newLines⟩], []) := by
  have nonempty : hunk.oldLines.isEmpty = false := by simpa using stands.nonempty
  have matched : ((textLines content).drop before.length).take hunk.oldLines.length = hunk.oldLines := by
    rw [stands.here, List.append_assoc, List.drop_left, List.take_left]
  have located : locateContext sc (textLines content) path hunk.parsed 0 allowFuzzy = .ok (none, 0) := rfl
  have noHints : (hunk.parsed.oldStartLine.toList ++ hunk.parsed.newStartLine.toList).find? (· < 1) = none := rfl
  have noSecond : secondOccurrence sc (textLines content) hunk.parsed hunk.oldLines before.length allowFuzzy = none := by
    simp [secondOccurrence, PatchHunk.parsed, context]
  have step : computeHunk sc (textLines content) path allowFuzzy ⟨0,[],[]⟩ hunk.parsed =
      .ok ⟨before.length + hunk.oldLines.length,if hunk.oldLines = hunk.newLines then []
        else [⟨before.length,hunk.oldLines.length,hunk.newLines⟩],[]⟩ := by
    rw [computeHunk, noHints]
    simp only [located, bind, Except.bind]
    rw [if_neg (by simp [PatchHunk.parsed, nonempty]), locate_exact sc stands allowFuzzy, replaceLocated]
    simp only [noSecond, matched, adjust_exact]
    by_cases same : hunk.oldLines = hunk.newLines
    · simp [SearchResult.many, same]
    · simp [SearchResult.many, same]
  rw [computeReplacements, List.foldlM_cons, step]
  simp only [bind, Except.bind, List.foldlM_nil, pure, Except.pure]
  by_cases same : hunk.oldLines = hunk.newLines
  · simp [same, findOverlap]
  · simp [same, findOverlap]

theorem apply_exact (before old new after : List JsString) :
    applyReplacements (before ++ old ++ after) (if old = new then [] else [⟨before.length,old.length,new⟩]) =
      before ++ new ++ after := by
  split
  · rename_i same
    rw [same]
    rfl
  · simp [applyReplacements]

theorem by_lines_exact (path : JsString) (stands : StandsOnce content hunk.oldLines before after)
    (context : hunk.hasContext = true)
    (noBlankEnd : endsWithLineFeed content = true ∨
      endsWithLineFeed (joinLines (before ++ hunk.newLines ++ after)) = false) (allowFuzzy : Bool) :
    applyByLines sc content path [hunk.parsed] allowFuzzy =
      .ok ⟨replacedText content before hunk.newLines after,[]⟩ := by
  have lines : (if endsWithLineFeed content = true then (splitLines content).dropLast else splitLines content) =
      textLines content := rfl
  have policy := policy_keeps noBlankEnd
  rw [applyByLines]
  simp only [lines, compute_exact sc path stands context allowFuzzy, bind, Except.bind]
  rw [stands.here, apply_exact]
  cases ends : endsWithLineFeed content with
  | false =>
    rw [ends] at policy
    simpa [replacedText, finalNewline, ends] using policy
  | true =>
    rw [ends] at policy
    by_cases empty : before ++ hunk.newLines ++ after = []
    · have final : finalNewline content = [lineFeed] := by rw [finalNewline, if_pos ends]
      simp [empty, replacedText, final, joinLines, applyTrailingNewlinePolicy, endsWithLineFeed]
    · simp only [if_true, join_terminated empty]
      simpa [replacedText, finalNewline, ends] using policy

end byLines

section asText
variable {Score : Type} (sc : Scoring Score) {content : JsString} {hunk : PatchHunk} {before after : List JsString}

theorem content_split (stands : StandsOnce content hunk.oldLines before after) :
    content = terminate before ++ joinLines hunk.oldLines ++ (precede after ++ finalNewline content) := by
  calc content = joinLines (textLines content) ++ finalNewline content := (join_textLines content).symm
    _ = terminate before ++ joinLines hunk.oldLines ++ precede after ++ finalNewline content := by
        rw [stands.here, join_block before stands.nonempty]
    _ = _ := List.append_assoc _ _ _

theorem no_return_old (lineFeeds : carriageReturn ∉ content) (stands : StandsOnce content hunk.oldLines before after) :
    carriageReturn ∉ joinLines hunk.oldLines := by
  intro mem
  rw [content_split stands] at lineFeeds
  exact lineFeeds (by simp [mem])

/-- The text around the block, with the new text in its place. -/
theorem character_match_exact (path : JsString) (lineFeeds : carriageReturn ∉ content)
    (stands : StandsOnce content hunk.oldLines before after) (found : StandsInText content hunk before after)
    (threshold : Score) (allowFuzzy : Bool) :
    applyCharacterMatch sc content path hunk.parsed threshold allowFuzzy =
      .ok ⟨terminate before ++ joinLines hunk.newLines ++ (precede after ++ finalNewline content),[]⟩ := by
  have oldText : normalizeToLF (joinLines hunk.oldLines) = joinLines hunk.oldLines :=
    normalizeToLF_of_clean (no_return_old lineFeeds stands)
  have exactMatch := findMatch_exact sc allowFuzzy threshold found.oldText found.first found.only
  have split := content_split stands
  have front : content.take (terminate before).length = terminate before := by
    rw [split, List.append_assoc, List.take_left]
  have back : content.drop ((terminate before).length + (joinLines hunk.oldLines).length) =
      precede after ++ finalNewline content := by
    conv_lhs => rw [split]
    rw [← List.length_append, List.drop_left]
  simp only [applyCharacterMatch, PatchHunk.parsed, normalizeToLF_of_clean lineFeeds, oldText, characterOutcome,
    exactMatch]
  simp [adjustIndentation, front, back]

/-- A block deleted from the end of a text without a final line feed takes the line feed before it along. -/
theorem policy_deleted (before : List JsString) (noBlankEnd : endsWithLineFeed (joinLines before) = false) :
    applyTrailingNewlinePolicy (terminate before) false = joinLines before := by
  have kept := @policy_keeps before [] (.inr noBlankEnd)
  cases before with
  | nil => rfl
  | cons line rest =>
    have text : terminate (line :: rest) = joinLines (line :: rest) ++ [lineFeed] := by
      rw [← join_terminated (by simp), join_append _ (by simp)]
      simp [joinLines]
    rw [text, applyTrailingNewlinePolicy, if_neg (by simp), List.rdropWhile_concat_pos _ _ _ (by simp)]
    simpa [finalNewline, endsWithLineFeed, applyTrailingNewlinePolicy] using kept

theorem as_text_exact (path : JsString) (lineFeeds : carriageReturn ∉ content)
    (stands : StandsOnce content hunk.oldLines before after) (found : StandsInText content hunk before after)
    (noBlankEnd : endsWithLineFeed content = true ∨
      endsWithLineFeed (joinLines (before ++ hunk.newLines ++ after)) = false)
    (noContext : hunk.hasContext = false) (threshold : Score) (allowFuzzy : Bool) :
    applyHunksToContent sc content path [hunk.parsed] threshold allowFuzzy =
      .ok ⟨replacedText content before hunk.newLines after,[]⟩ := by
  have nonempty : hunk.oldLines.isEmpty = false := by simpa using stands.nonempty
  have simple : isSimpleReplace hunk.parsed = true := by
    simp [isSimpleReplace, PatchHunk.parsed, noContext, nonempty]
  rw [applyHunksToContent, if_pos simple, character_match_exact sc path lineFeeds stands found threshold allowFuzzy]
  simp only [bind, Except.bind]
  have policy := policy_keeps noBlankEnd
  rcases found.newText with inserted | ⟨rfl,place⟩
  · rw [join_block before inserted, List.append_assoc (terminate before ++ _)] at policy
    rw [policy, replacedText, join_block before inserted, List.append_assoc (terminate before ++ _)]
  · cases new : hunk.newLines with
    | cons line rest =>
      have inserted : hunk.newLines ≠ [] := by simp [new]
      rw [join_block before inserted, List.append_assoc (terminate before ++ _)] at policy
      rw [← new, policy, replacedText, join_block before inserted, List.append_assoc (terminate before ++ _)]
    | nil =>
      rw [new] at policy noBlankEnd
      rcases place with rfl | unterminated
      · simpa [replacedText, joinLines, terminate, precede] using policy
      · have kept : endsWithLineFeed (joinLines before) = false := by simpa [unterminated] using noBlankEnd
        simp [replacedText, joinLines, precede, finalNewline, unterminated, policy_deleted before kept]

end asText

/-- A hunk whose old lines stand once in the file is applied exactly there. -/
theorem exact_patch_applies {Score : Type} (sc : Scoring Score) {content : JsString} (path : JsString)
    (hunk : PatchHunk) {before after : List JsString} (threshold : Score) (allowFuzzy : Bool)
    (lineFeeds : carriageReturn ∉ content) (stands : StandsOnce content hunk.oldLines before after)
    (read : hunk.ReadAsWritten) (anchored : hunk.hasContext = true ∨ StandsInText content hunk before after)
    (noBlankEnd : endsWithLineFeed content = true ∨
      endsWithLineFeed (joinLines (before ++ hunk.newLines ++ after)) = false) :
    patchText sc content path hunk.diffText threshold allowFuzzy =
      .ok ⟨replacedText content before hunk.newLines after,[]⟩ := by
  have parsed := PatchHunk.parse_diffText read
  rw [patchText, parsed]
  simp only [bind, Except.bind, List.isEmpty_cons, Bool.false_eq_true, if_false]
  cases context : hunk.hasContext with
  | true =>
    have notSimple : ¬ isSimpleReplace hunk.parsed = true := by simp [isSimpleReplace, PatchHunk.parsed, context]
    rw [applyHunksToContent, if_neg notSimple]
    exact by_lines_exact sc path stands context noBlankEnd allowFuzzy
  | false =>
    have found : StandsInText content hunk before after := by simpa [context] using anchored
    exact as_text_exact sc path lineFeeds stands found noBlankEnd context threshold allowFuzzy

theorem stands_once_of {content : JsString} {old before after : List JsString}
    (here : textLines content = before ++ old ++ after)
    (only : ∀ j ∈ List.range ((textLines content).length + 1), old.isPrefixOf ((textLines content).drop j) = true →
      j = before.length) : StandsOnce content old before after := by
  refine ⟨here,?_⟩
  intro other rest split
  have reached : other.length ∈ List.range ((textLines content).length + 1) := by
    rw [split, List.mem_range, List.length_append, List.length_append]
    omega
  have found : old.isPrefixOf ((textLines content).drop other.length) = true := by
    rw [split, List.append_assoc, List.drop_left]
    exact List.isPrefixOf_iff_prefix.mpr (List.prefix_append _ _)
  have same := only other.length reached found
  have front : other ++ (old ++ rest) = before ++ (old ++ after) := by
    rw [← List.append_assoc, ← split, here, List.append_assoc]
  exact (List.append_inj front same).1

/- Equal texts are wholly similar; thousandths stand for the scores. -/
def wholeScores : Scoring Int where
  normalizeNFC := id
  similarity a b := if a = b then 1000 else 0
  average scores := scores.sum / scores.length
  const := id
  gt a b := b < a
  ge a b := b ≤ a
  gap a b := a - b
  percent score := (score / 10).toNat

theorem exact_patch_applies_one_line :
    patchText wholeScores (js "a\nb\nc") (js "f") (js "@@\n a\n-b\n+d\n c") 950 true =
      .ok ⟨replacedText (js "a\nb\nc") [] [js "a", js "d", js "c"] [],[]⟩ :=
  @exact_patch_applies Int wholeScores (js "a\nb\nc") (js "f")
    ⟨true,[.context (js "a"), .removed (js "b"), .added (js "d"), .context (js "c")],by decide⟩ [] [] 950 true (by decide)
    (stands_once_of (by decide) (by decide))
    ⟨by decide,by decide,by decide +kernel,by decide,by decide⟩ (.inl rfl) (.inr (by decide))

structure Misapplied (content : JsString) (lines : List PatchLine) (before after : List JsString) : Prop where
  oneLine : ∀ line ∈ lines, lineFeed ∉ line.text
  lineFeeds : carriageReturn ∉ content
  stands : StandsOnce content (lines.filterMap PatchLine.oldLine) before after
  differs : patchText wholeScores content (js "f") (joinLines (lines.map PatchLine.render)) 950 true ≠
    .ok ⟨replacedText content before (lines.filterMap PatchLine.newLine) after,[]⟩

/-- An elision, a numbered listing, a removed line that looks like a file header, a lone deletion,
    a block that also ends inside an earlier line, and a blank last line without a final line feed. -/
theorem exact_patches_misapplied :
    Misapplied (js "x\n...\ny\nx\ny\n")
      [.context (js "x"), .context (js "..."), .removed (js "y"), .added (js "z")] [] [js "x", js "y"] ∧
    Misapplied (js "1 a\n2 b\na\nb\n") [.context (js "1 a"), .removed (js "2 b"), .added (js "2 c")] [] [js "a", js "b"] ∧
    Misapplied (js "a\n-- x\nb\na\nb\n") [.context (js "a"), .removed (js "-- x"), .context (js "b")] []
      [js "a", js "b"] ∧
    Misapplied (js "a\nb\nc\n") [.removed (js "b")] [js "a"] [js "c"] ∧
    Misapplied (js "xaa\naa\naa\n") [.removed (js "aa"), .removed (js "aa"), .added (js "b")] [js "xaa"] [] ∧
    Misapplied (js "a\n\nb") [.context (js "a"), .context [], .removed (js "b")] [] [] := by
  refine ⟨⟨by decide,by decide,stands_once_of (by decide) (by decide),by decide +kernel⟩,
    ⟨by decide,by decide,stands_once_of (by decide) (by decide),by decide +kernel⟩,
    ⟨by decide,by decide,stands_once_of (by decide) (by decide),by decide +kernel⟩,
    ⟨by decide,by decide,stands_once_of (by decide) (by decide),by decide +kernel⟩,
    ⟨by decide,by decide,stands_once_of (by decide) (by decide),by decide +kernel⟩,
    ⟨by decide,by decide,stands_once_of (by decide) (by decide),by decide +kernel⟩⟩

end Edit
