import OpenAgents.Hashline.BlockRange

/- Hunks written with the formatters, and how the tokenizer classifies their lines. -/
namespace Hashline
open JsText

def formatReplaceHeader (start stop : Nat) : JsString :=
  js "replace " ++ decimal start ++ js ".." ++ decimal stop ++ js ":"

def formatDeleteHeader (start stop : Nat) : JsString :=
  if start = stop then js "delete " ++ decimal start
  else js "delete " ++ decimal start ++ js ".." ++ decimal stop

def formatInsertHeader : Cursor → JsString
  | .beforeAnchor anchor => js "insert before " ++ decimal anchor.line ++ js ":"
  | .afterAnchor anchor => js "insert after " ++ decimal anchor.line ++ js ":"
  | .bof => js "insert head:"
  | .eof => js "insert tail:"

inductive Hunk where
  | replace (start stop : Nat) (body : List JsString)
  | delete (start stop : Nat)
  | insert (cursor : Cursor) (body : List JsString)
  deriving DecidableEq, Repr

def Hunk.header : Hunk → JsString
  | .replace start stop _ => formatReplaceHeader start stop
  | .delete start stop => formatDeleteHeader start stop
  | .insert cursor _ => formatInsertHeader cursor

def Hunk.body : Hunk → List JsString
  | .replace _ _ body => body
  | .delete _ _ => []
  | .insert _ body => body

def Hunk.deletedLines : Hunk → List Nat
  | .replace start stop _ => spanLines start stop
  | .delete start stop => spanLines start stop
  | .insert _ _ => []

def Hunk.lines (hunk : Hunk) : List JsString := hunk.header :: hunk.body.map (payloadReplace :: ·)

def renderHunks (hunks : List Hunk) : JsString := joinLines (hunks.flatMap Hunk.lines)

/- The edits a hunk stands for when its header is on line `lineNum`, up to their index. -/
def Hunk.lowered (lineNum : Nat) : Hunk → List AppliedEdit
  | .replace start stop body =>
      body.map (fun row => .insert ⟨.beforeAnchor ⟨start⟩,row,lineNum,0,.replacement⟩) ++
        (spanLines start stop).map fun line => .delete ⟨⟨line⟩,lineNum,0⟩
  | .delete start stop => (spanLines start stop).map fun line => .delete ⟨⟨line⟩,lineNum,0⟩
  | .insert cursor body => body.map fun row => .insert ⟨cursor,row,lineNum,0,.literal⟩

def loweredFrom : Nat → List Hunk → List AppliedEdit
  | _, [] => []
  | lineNum, hunk :: rest => hunk.lowered lineNum ++ loweredFrom (lineNum + hunk.lines.length) rest

/- Numbered in order. -/
def lowerHunks (hunks : List Hunk) : List Edit := (cloneAppliedEdits (loweredFrom 1 hunks)).map .applied

def Cursor.onLine : Cursor → Prop
  | .beforeAnchor anchor => 1 ≤ anchor.line
  | .afterAnchor anchor => 1 ≤ anchor.line
  | _ => True

def Hunk.inOrder : Hunk → Prop
  | .replace start stop body => 1 ≤ start ∧ start ≤ stop ∧ body ≠ []
  | .delete start stop => 1 ≤ start ∧ start ≤ stop
  | .insert cursor _ => cursor.onLine

structure Hunk.WellFormed (hunk : Hunk) : Prop where
  inOrder : hunk.inOrder
  oneLine : ∀ row ∈ hunk.body, lineFeed ∉ row
  noReturn : ∀ row ∈ hunk.body, row.getLast? ≠ some carriageReturn

def Hunk.target : Hunk → BlockTarget
  | .replace start stop _ => .replace ⟨⟨start⟩,⟨stop⟩⟩
  | .delete start stop => .delete ⟨⟨start⟩,⟨stop⟩⟩
  | .insert (.beforeAnchor anchor) _ => .insertBefore anchor
  | .insert (.afterAnchor anchor) _ => .insertAfter anchor
  | .insert .bof _ => .bof
  | .insert .eof _ => .eof

/-- One line number alone is the range of that line. -/
theorem scanHeaderRange_single {n : Nat} (positive : 1 ≤ n) :
    scanHeaderRange (space :: decimal n) = some ⟨⟨⟨n⟩,⟨n⟩⟩,[]⟩ := by
  have stops : stopsDigits [] := by simp [stopsDigits]
  have number := scanLineNumber_decimal positive stops
  have blank := skipWhitespace_decimal [] positive
  rw [List.append_nil] at number blank
  have separator : scanRangeSeparator [] = none := rfl
  simp only [scanHeaderRange, skipWhitespace_space, blank, number, separator, Option.bind_eq_bind, Option.bind_some]
  rfl

theorem classify_deleteLine {n : Nat} (positive : 1 ≤ n) :
    classifyKind (js "delete " ++ decimal n) = .opBlock (.delete ⟨⟨n⟩,⟨n⟩⟩) := by
  have text : js "delete " ++ decimal n = deleteKeyword ++ space :: decimal n := by
    have keyword : js "delete " = deleteKeyword ++ [space] := by decide
    simp [keyword]
  have keyword : deleteKeyword = [100, 101, 108, 101, 116, 101] := by decide
  have digits : ∃ early last, decimal n = early ++ [last] ∧ isWhitespaceCode last = false := by
    obtain ⟨c,rest,digits,-⟩ := decimal_first positive
    have nonempty : decimal n ≠ [] := by simp [digits]
    exact ⟨_,_,(List.dropLast_append_getLast nonempty).symm,
      (digit_is_no_blank (decimal_digits n _ (List.getLast_mem nonempty))).1⟩
  have kept : untilTrimEnd (deleteKeyword ++ space :: decimal n) = deleteKeyword ++ space :: decimal n := by
    obtain ⟨early,last,ends,visible⟩ := digits
    rw [ends, ← List.cons_append, ← List.append_assoc]
    exact untilTrimEnd_visible _ last visible
  have skipped : skipWhitespace (deleteKeyword ++ space :: decimal n) = deleteKeyword ++ space :: decimal n := by
    rw [keyword]
    rfl
  have noReplace : scanKeyword (deleteKeyword ++ space :: decimal n) replaceKeyword = none := by
    rw [keyword]
    rfl
  have noBlock := scanKeyword_block_number [] positive
  rw [List.append_nil] at noBlock
  have scanned : scanHunkAnchor (deleteKeyword ++ space :: decimal n) = some ⟨.delete ⟨⟨n⟩,⟨n⟩⟩,[]⟩ := by
    simp only [scanHunkAnchor, skipped, noReplace]
    rw [scanKeyword_here]
    simp only [scanDeleteTarget, noBlock, scanHeaderRange_single positive]
    rfl
  rw [text]
  refine classify_hunk kept (by rw [keyword]; rfl) (by decide) (by decide) (by decide) (.inr (.inl ?_)) scanned
  exact List.isPrefixOf_iff_prefix.mpr (List.prefix_append _ _)

/-- An insert header, whatever its position. -/
theorem classify_insertLine {position : JsString} {target : BlockTarget}
    (scanned : scanInsertTarget (space :: (position ++ [headerColon])) = some ⟨target,[]⟩) :
    classifyKind (insertKeyword ++ space :: (position ++ [headerColon])) = .opBlock target := by
  have keyword : insertKeyword = [105, 110, 115, 101, 114, 116] := by decide
  have kept : untilTrimEnd (insertKeyword ++ space :: (position ++ [headerColon])) =
      insertKeyword ++ space :: (position ++ [headerColon]) := by
    rw [← List.cons_append, ← List.append_assoc]
    exact untilTrimEnd_visible _ headerColon (by decide)
  have skipped : skipWhitespace (insertKeyword ++ space :: (position ++ [headerColon])) =
      insertKeyword ++ space :: (position ++ [headerColon]) := by
    rw [keyword]
    rfl
  have noReplace : scanKeyword (insertKeyword ++ space :: (position ++ [headerColon])) replaceKeyword = none := by
    rw [keyword]
    rfl
  have noDelete : scanKeyword (insertKeyword ++ space :: (position ++ [headerColon])) deleteKeyword = none := by
    rw [keyword]
    rfl
  have anchored : scanHunkAnchor (insertKeyword ++ space :: (position ++ [headerColon])) = some ⟨target,[]⟩ := by
    simp only [scanHunkAnchor, skipped, noReplace, noDelete]
    rw [scanKeyword_here]
    exact scanned
  refine classify_hunk kept (by rw [keyword]; rfl) (by decide) (by decide) (by decide) (.inr (.inr ?_)) anchored
  exact List.isPrefixOf_iff_prefix.mpr (List.prefix_append _ _)

theorem scanAnchorTarget_colon (target : Anchor → BlockTarget) {n : Nat} (positive : 1 ≤ n) :
    scanAnchorTarget target (space :: (decimal n ++ [headerColon])) = some ⟨target ⟨n⟩,[]⟩ := by
  have stops : stopsDigits [headerColon] := by
    intro c mem
    obtain rfl : c = headerColon := by simpa using mem.symm
    decide
  simp only [scanAnchorTarget, skipWhitespace_space, skipWhitespace_decimal _ positive,
    scanLineNumber_decimal positive stops, Option.bind_eq_bind, Option.bind_some]
  rfl

theorem scan_before {n : Nat} (positive : 1 ≤ n) :
    scanInsertTarget (space :: (insertBefore ++ space :: (decimal n ++ [headerColon]))) =
      some ⟨.insertBefore ⟨n⟩,[]⟩ := by
  have skipped : skipWhitespace (space :: (insertBefore ++ space :: (decimal n ++ [headerColon]))) =
      insertBefore ++ space :: (decimal n ++ [headerColon]) := by
    have word : insertBefore = [98, 101, 102, 111, 114, 101] := by decide
    rw [skipWhitespace_space, word]
    rfl
  simp only [scanInsertTarget, skipped, scanKeyword_here, scanAnchorTarget_colon _ positive]

theorem scan_after {n : Nat} (positive : 1 ≤ n) :
    scanInsertTarget (space :: (insertAfter ++ space :: (decimal n ++ [headerColon]))) =
      some ⟨.insertAfter ⟨n⟩,[]⟩ := by
  have word : insertAfter = [97, 102, 116, 101, 114] := by decide
  have skipped : skipWhitespace (space :: (insertAfter ++ space :: (decimal n ++ [headerColon]))) =
      insertAfter ++ space :: (decimal n ++ [headerColon]) := by
    rw [skipWhitespace_space, word]
    rfl
  have noBefore : scanKeyword (insertAfter ++ space :: (decimal n ++ [headerColon])) insertBefore = none := by
    rw [word]
    rfl
  simp only [scanInsertTarget, skipped, noBefore, scanKeyword_here, scanAnchorTarget_colon _ positive]

theorem classify_insertHeader {cursor : Cursor} (onLine : cursor.onLine) (body : List JsString) :
    classifyKind (formatInsertHeader cursor) = .opBlock (Hunk.insert cursor body).target := by
  cases cursor with
  | beforeAnchor anchor =>
    have text : formatInsertHeader (.beforeAnchor anchor) =
        insertKeyword ++ space :: ((insertBefore ++ space :: decimal anchor.line) ++ [headerColon]) := by
      have words : js "insert before " = insertKeyword ++ space :: (insertBefore ++ [space]) := by decide
      have colon : js ":" = [headerColon] := by decide
      simp [formatInsertHeader, words, colon]
    rw [text]
    refine classify_insertLine ?_
    rw [List.append_assoc, List.cons_append]
    exact scan_before onLine
  | afterAnchor anchor =>
    have text : formatInsertHeader (.afterAnchor anchor) =
        insertKeyword ++ space :: ((insertAfter ++ space :: decimal anchor.line) ++ [headerColon]) := by
      have words : js "insert after " = insertKeyword ++ space :: (insertAfter ++ [space]) := by decide
      have colon : js ":" = [headerColon] := by decide
      simp [formatInsertHeader, words, colon]
    rw [text]
    refine classify_insertLine ?_
    rw [List.append_assoc, List.cons_append]
    exact scan_after onLine
  | bof =>
    rw [Hunk.target, formatInsertHeader]
    decide
  | eof =>
    rw [Hunk.target, formatInsertHeader]
    decide

theorem classify_header {hunk : Hunk} (wf : hunk.WellFormed) : classifyKind hunk.header = .opBlock hunk.target := by
  cases hunk with
  | replace start stop body =>
    obtain ⟨first,ordered,-⟩ := wf.inOrder
    have text : formatReplaceHeader start stop = replaceHeader ⟨start,stop⟩ := by
      simp [formatReplaceHeader, replaceHeader, rangeText]
    rw [Hunk.header, text]
    exact classify_replaceHeader first (Nat.le_trans first ordered)
  | delete start stop =>
    obtain ⟨first,ordered⟩ := wf.inOrder
    rw [Hunk.header, formatDeleteHeader]
    by_cases same : start = stop
    · subst same
      rw [if_pos rfl]
      exact classify_deleteLine first
    · have text : js "delete " ++ decimal start ++ js ".." ++ decimal stop = deleteHeader ⟨start,stop⟩ := by
        simp [deleteHeader, rangeText]
      rw [if_neg same, text]
      exact classify_deleteHeader first (Nat.le_trans first ordered)
  | insert cursor body => exact classify_insertHeader wf.inOrder body

/-- A body row is a payload whatever its text. -/
theorem classify_row (row : JsString) : classifyKind (payloadReplace :: row) = .payloadLiteral row := by
  have noFile : tryParseHeader (payloadReplace :: row) = none := by
    have sigil : filePrefix = [182] := by decide
    have other : ¬(182 : CodeUnit) = payloadReplace := by decide
    simp [tryParseHeader, startsWith, sigil, other]
  have noLead := no_hunk_lead row (c := payloadReplace) (by decide) (by decide) (by decide) (by decide)
  rw [classify_unled (by decide) noLead, noFile]
  simp [classifyPlain]

end Hashline
