import OpenAgents.Hashline.Apply
import OpenAgents.Hashline.Parser
import Mathlib.Data.List.Dedup
import Mathlib.Data.List.Perm.Basic

/- What an edit list means: one pass over the original lines, each line with the
   rows before it, its replacement rows, itself unless deleted, and the rows after it. -/
namespace Hashline
open JsText LineSplice

def beforeRow? (n : Nat) : AppliedEdit → Option JsString
  | .insert ⟨.beforeAnchor anchor,text,_,_,.literal⟩ => if anchor.line = n then some text else none
  | _ => none

def afterRow? (n : Nat) : AppliedEdit → Option JsString
  | .insert ⟨.afterAnchor anchor,text,_,_,.literal⟩ => if anchor.line = n then some text else none
  | _ => none

def replacementRow? (n : Nat) : AppliedEdit → Option JsString
  | .insert ⟨.beforeAnchor anchor,text,_,_,.replacement⟩ =>
      if anchor.line = n then some text else none
  | .insert ⟨.afterAnchor anchor,text,_,_,.replacement⟩ =>
      if anchor.line = n then some text else none
  | _ => none

def deletesLine (n : Nat) : AppliedEdit → Bool
  | .delete d => d.anchor.line = n
  | .insert _ => false

def rowsAt (edits : List AppliedEdit) (n : Nat) : LineRows :=
  ⟨edits.filterMap (beforeRow? n),edits.filterMap (replacementRow? n),
    edits.filterMap (afterRow? n),edits.any (deletesLine n)⟩

def referenceBody (edits : List AppliedEdit) (fileLines : List JsString) : List JsString :=
  linePass (fun n line => (rowsAt edits n).render line) 1 fileLines

/- A trailing newline leaves a final empty line; the tail rows go in front of it. -/
def placeTail (lines tail : List JsString) : List JsString :=
  if lines.getLast? = some [] then lines.dropLast ++ tail ++ [[]] else lines ++ tail

def headRows (edits : List AppliedEdit) : List JsString := edits.filterMap bofLine?
def tailRows (edits : List AppliedEdit) : List JsString := edits.filterMap eofLine?

def withTail (lines tail : List JsString) : List JsString :=
  if tail.isEmpty then lines else placeTail lines tail

def referenceLines (edits : List AppliedEdit) (fileLines : List JsString) : List JsString :=
  withTail (headRows edits ++ referenceBody edits fileLines) (tailRows edits)

def InBounds (edits : List AppliedEdit) (fileLines : List JsString) : Prop :=
  ∀ edit ∈ edits, ∀ anchor ∈ getEditAnchors edit, 1 ≤ anchor.line ∧ anchor.line ≤ fileLines.length

variable {fileLines : List JsString}

theorem bounds_checked {edits : List AppliedEdit} (ok : validateLineBounds edits fileLines = .ok ()) : InBounds edits fileLines := by
  intro edit mem anchor anchored
  simp only [validateLineBounds] at ok
  split at ok
  · contradiction
  · rename_i clean
    have inside := List.find?_eq_none.mp clean anchor (List.mem_flatMap.mpr ⟨edit,mem,anchored⟩)
    simp only [outOfBounds, Bool.or_eq_true, decide_eq_true_eq, not_or] at inside
    omega

theorem bounds_complete {edits : List AppliedEdit} (bounds : InBounds edits fileLines) : validateLineBounds edits fileLines = .ok () := by
  have clean : (edits.flatMap getEditAnchors).find? (outOfBounds fileLines) = none := by
    rw [List.find?_eq_none]
    intro anchor mem
    obtain ⟨edit,inside,anchored⟩ := List.mem_flatMap.mp mem
    have := bounds edit inside anchor anchored
    simp only [outOfBounds, Bool.or_eq_true, decide_eq_true_eq, not_or]
    omega
  simp only [validateLineBounds, clean]

/- Rows of a bucket -/

theorem filter_edit (p : AppliedEdit → Bool) (entries : List IndexedEdit) :
    (entries.filter fun entry => p entry.edit).map IndexedEdit.edit =
      (entries.map IndexedEdit.edit).filter p :=
  List.filter_map.symm

theorem anchored_map_edit (edits : List AppliedEdit) :
    (anchorEdits edits).map IndexedEdit.edit = edits.filter isAnchorEdit := by
  rw [anchorEdits, filter_edit, List.map_map]
  exact congrArg (List.filter isAnchorEdit) (List.zipIdx_map_fst 0 edits)

theorem anchored_sorted (edits : List AppliedEdit) :
    (anchorEdits edits).Pairwise fun a b => a.idx ≤ b.idx := by
  apply List.Pairwise.filter
  rw [List.pairwise_map, List.pairwise_iff_getElem]
  intro i j low high before
  simp only [List.getElem_zipIdx]
  omega

theorem sorted_bucket_edits (edits : List AppliedEdit) (n : Nat) :
    (sortedBucket (anchorEdits edits) n).map IndexedEdit.edit =
      edits.filter fun edit => isAnchorEdit edit && bucketLine edit = n := by
  have inOrder : sortedBucket (anchorEdits edits) n = bucketOf (anchorEdits edits) n :=
    List.Pairwise.insertionSort_eq ((anchored_sorted edits).filter _)
  rw [inOrder, bucketOf, filter_edit (fun edit => decide (bucketLine edit = n)), anchored_map_edit,
    List.filter_filter]
  exact List.filter_congr fun edit _ => Bool.and_comm _ _

def rowsOf (edits : List AppliedEdit) (start : LineRows) : LineRows := edits.foldl LineRows.add start

theorem collect_is_rows (bucket : List IndexedEdit) :
    collectRows bucket = rowsOf (bucket.map IndexedEdit.edit) .empty := by
  rw [collectRows, rowsOf, List.foldl_map]

theorem filterMap_cons_toList {α β : Type} (f : α → Option β) (x : α) (xs : List α) :
    (x :: xs).filterMap f = (f x).toList ++ xs.filterMap f := by
  cases h : f x <;> simp [h]

theorem add_here (rows : LineRows) (edit : AppliedEdit) (n : Nat)
    (here : isAnchorEdit edit = true ∧ bucketLine edit = n) :
    rows.add edit = ⟨rows.before ++ (beforeRow? n edit).toList,
      rows.replacement ++ (replacementRow? n edit).toList,
      rows.after ++ (afterRow? n edit).toList,rows.deleteLine || deletesLine n edit⟩ := by
  obtain ⟨anchored,line⟩ := here
  cases edit with
  | delete d => simp [LineRows.add, beforeRow?, replacementRow?, afterRow?, deletesLine, ← line, bucketLine]
  | insert e =>
    obtain ⟨cursor,text,lineNum,index,mode⟩ := e
    cases cursor with
    | bof => simp [isAnchorEdit, bofLine?] at anchored
    | eof => simp [isAnchorEdit, eofLine?] at anchored
    | beforeAnchor anchor =>
      cases mode <;>
        simp [LineRows.add, beforeRow?, replacementRow?, afterRow?, deletesLine, ← line, bucketLine]
    | afterAnchor anchor =>
      cases mode <;>
        simp [LineRows.add, beforeRow?, replacementRow?, afterRow?, deletesLine, ← line, bucketLine]

theorem no_rows_elsewhere (edit : AppliedEdit) (n : Nat)
    (elsewhere : ¬(isAnchorEdit edit = true ∧ bucketLine edit = n)) :
    beforeRow? n edit = none ∧ replacementRow? n edit = none ∧ afterRow? n edit = none ∧
      deletesLine n edit = false := by
  cases edit with
  | delete d =>
    have other : d.anchor.line ≠ n := by simpa [isAnchorEdit, bofLine?, eofLine?, bucketLine] using elsewhere
    simp [beforeRow?, replacementRow?, afterRow?, deletesLine, other]
  | insert e =>
    obtain ⟨cursor,text,lineNum,index,mode⟩ := e
    cases cursor with
    | bof => simp [beforeRow?, replacementRow?, afterRow?, deletesLine]
    | eof => simp [beforeRow?, replacementRow?, afterRow?, deletesLine]
    | beforeAnchor anchor =>
      have other : anchor.line ≠ n := by
        simpa [isAnchorEdit, bofLine?, eofLine?, bucketLine] using elsewhere
      cases mode <;> simp [beforeRow?, replacementRow?, afterRow?, deletesLine, other]
    | afterAnchor anchor =>
      have other : anchor.line ≠ n := by
        simpa [isAnchorEdit, bofLine?, eofLine?, bucketLine] using elsewhere
      cases mode <;> simp [beforeRow?, replacementRow?, afterRow?, deletesLine, other]

theorem rows_append (edits : List AppliedEdit) (n : Nat) (start : LineRows) :
    rowsOf (edits.filter fun edit => isAnchorEdit edit && bucketLine edit = n) start =
      ⟨start.before ++ edits.filterMap (beforeRow? n),
        start.replacement ++ edits.filterMap (replacementRow? n),
        start.after ++ edits.filterMap (afterRow? n),
        start.deleteLine || edits.any (deletesLine n)⟩ := by
  induction edits generalizing start with
  | nil => simp [rowsOf]
  | cons edit edits ih =>
    simp only [rowsOf] at ih ⊢
    rw [List.filter_cons]
    simp only [filterMap_cons_toList, List.any_cons]
    by_cases here : isAnchorEdit edit = true ∧ bucketLine edit = n
    · have taken : (isAnchorEdit edit && decide (bucketLine edit = n)) = true := by simpa using here
      simp only [taken, if_true, List.foldl_cons, ih, add_here start edit n here,
        List.append_assoc, Bool.or_assoc]
    · have skipped : (isAnchorEdit edit && decide (bucketLine edit = n)) = false := by
        simpa using here
      obtain ⟨before,replacement,after,kept⟩ := no_rows_elsewhere edit n here
      simp [skipped, ih, before, replacement, after, kept]

theorem bucket_rows (edits : List AppliedEdit) (n : Nat) :
    collectRows (sortedBucket (anchorEdits edits) n) = rowsAt edits n := by
  rw [collect_is_rows, sorted_bucket_edits, rows_append]
  simp [LineRows.empty, rowsAt]

theorem some_row_here (edit : AppliedEdit) (n : Nat)
    (here : isAnchorEdit edit = true ∧ bucketLine edit = n) :
    (∃ text, beforeRow? n edit = some text) ∨ (∃ text, replacementRow? n edit = some text) ∨
      (∃ text, afterRow? n edit = some text) ∨ deletesLine n edit = true := by
  obtain ⟨anchored,line⟩ := here
  cases edit with
  | delete d => simp [deletesLine, ← line, bucketLine]
  | insert e =>
    obtain ⟨cursor,text,lineNum,index,mode⟩ := e
    cases cursor with
    | bof => simp [isAnchorEdit, bofLine?] at anchored
    | eof => simp [isAnchorEdit, eofLine?] at anchored
    | beforeAnchor anchor =>
      cases mode <;> simp [beforeRow?, replacementRow?, afterRow?, ← line, bucketLine]
    | afterAnchor anchor =>
      cases mode <;> simp [beforeRow?, replacementRow?, afterRow?, ← line, bucketLine]

theorem mem_bucketKeys (edits : List AppliedEdit) (n : Nat) :
    n ∈ bucketKeys (anchorEdits edits) ↔
      ∃ edit ∈ edits, isAnchorEdit edit = true ∧ bucketLine edit = n := by
  have keys : bucketKeys (anchorEdits edits) = ((edits.filter isAnchorEdit).map bucketLine).dedup := by
    rw [bucketKeys, ← anchored_map_edit, List.map_map]
    rfl
  simp only [keys, List.mem_dedup, List.mem_map, List.mem_filter, and_assoc]

theorem key_not_noop (edits : List AppliedEdit) (n : Nat)
    (key : n ∈ bucketKeys (anchorEdits edits)) : (rowsAt edits n).isNoop = false := by
  obtain ⟨edit,mem,here⟩ := (mem_bucketKeys edits n).mp key
  have filled : ∀ f : AppliedEdit → Option JsString, (∃ text, f edit = some text) →
      (edits.filterMap f).isEmpty = false := by
    rintro f ⟨text,row⟩
    have inside : text ∈ edits.filterMap f := List.mem_filterMap.mpr ⟨edit,mem,row⟩
    cases rows : edits.filterMap f with
    | nil => simp [rows] at inside
    | cons => rfl
  rcases some_row_here edit n here with row | row | row | removed
  · simp [LineRows.isNoop, rowsAt, filled _ row]
  · simp [LineRows.isNoop, rowsAt, filled _ row]
  · simp [LineRows.isNoop, rowsAt, filled _ row]
  · have any : edits.any (deletesLine n) = true := List.any_eq_true.mpr ⟨edit,mem,removed⟩
    simp [LineRows.isNoop, rowsAt, any]

theorem no_key_no_rows (edits : List AppliedEdit) (n : Nat) (line : JsString)
    (absent : n ∉ bucketKeys (anchorEdits edits)) : (rowsAt edits n).render line = [line] := by
  have none_here : ∀ edit ∈ edits, ¬(isAnchorEdit edit = true ∧ bucketLine edit = n) :=
    fun edit mem here => absent ((mem_bucketKeys edits n).mpr ⟨edit,mem,here⟩)
  have before : edits.filterMap (beforeRow? n) = [] :=
    List.filterMap_eq_nil_iff.mpr fun edit mem => (no_rows_elsewhere edit n (none_here edit mem)).1
  have replacement : edits.filterMap (replacementRow? n) = [] :=
    List.filterMap_eq_nil_iff.mpr fun edit mem => (no_rows_elsewhere edit n (none_here edit mem)).2.1
  have after : edits.filterMap (afterRow? n) = [] :=
    List.filterMap_eq_nil_iff.mpr fun edit mem =>
      (no_rows_elsewhere edit n (none_here edit mem)).2.2.1
  have kept : edits.any (deletesLine n) = false := List.any_eq_false.mpr fun edit mem => by
    simp [(no_rows_elsewhere edit n (none_here edit mem)).2.2.2]
  simp [LineRows.render, rowsAt, before, replacement, after, kept]

theorem applyLine_of_key (edits : List AppliedEdit) (st : ApplyState) (n : Nat)
    (key : n ∈ bucketKeys (anchorEdits edits)) :
    applyLine (anchorEdits edits) st n =
      ⟨replaceAt [] (fun k line => (rowsAt edits k).render line) st.fileLines n,
        trackFirstChanged st.firstChangedLine n⟩ := by
  simp [applyLine, bucket_rows, key_not_noop edits n key, replaceAt]

theorem fold_applyLine (edits : List AppliedEdit) (keys : List Nat) (st : ApplyState)
    (known : ∀ n ∈ keys, n ∈ bucketKeys (anchorEdits edits)) :
    keys.foldl (applyLine (anchorEdits edits)) st =
      ⟨keys.foldl (replaceAt [] fun k line => (rowsAt edits k).render line) st.fileLines,
        keys.foldl trackFirstChanged st.firstChangedLine⟩ := by
  induction keys generalizing st with
  | nil => rfl
  | cons n keys ih =>
    simp only [List.foldl_cons]
    rw [applyLine_of_key edits st n (known n (by simp)),
      ih _ fun k mem => known k (List.mem_cons_of_mem n mem)]

def descendingKeys (edits : List AppliedEdit) : List Nat :=
  (bucketKeys (anchorEdits edits)).insertionSort (· ≥ ·)

theorem mem_descendingKeys (edits : List AppliedEdit) (n : Nat) :
    n ∈ descendingKeys edits ↔ n ∈ bucketKeys (anchorEdits edits) :=
  List.mem_insertionSort _

theorem descendingKeys_strict (edits : List AppliedEdit) :
    (descendingKeys edits).Pairwise (· > ·) := by
  have ordered : (descendingKeys edits).Pairwise (· ≥ ·) := List.pairwise_insertionSort _ _
  have distinct : (descendingKeys edits).Nodup :=
    (List.perm_insertionSort _ _).nodup_iff.mpr (List.nodup_dedup _)
  exact (ordered.and distinct).imp fun {a b} h => by
    obtain ⟨le,ne⟩ := h
    omega

theorem anchored_line_bounds {edits : List AppliedEdit} (bounds : InBounds edits fileLines) {n : Nat}
    (key : n ∈ bucketKeys (anchorEdits edits)) : 1 ≤ n ∧ n ≤ fileLines.length := by
  obtain ⟨edit,mem,anchored,line⟩ := (mem_bucketKeys edits n).mp key
  cases edit with
  | delete d => simpa [← line, bucketLine, getEditAnchors] using bounds _ mem
  | insert e =>
    obtain ⟨cursor,text,lineNum,index,mode⟩ := e
    cases cursor with
    | bof => simp [isAnchorEdit, bofLine?] at anchored
    | eof => simp [isAnchorEdit, eofLine?] at anchored
    | beforeAnchor anchor =>
      simpa [← line, bucketLine, getEditAnchors, getCursorAnchors] using bounds _ mem
    | afterAnchor anchor =>
      simpa [← line, bucketLine, getEditAnchors, getCursorAnchors] using bounds _ mem

/-- The bottom-up splices of the anchored edits are the reference pass. -/
theorem applyLines_body {edits : List AppliedEdit} (bounds : InBounds edits fileLines) :
    (applyLines edits fileLines).fileLines = referenceBody edits fileLines := by
  have positions : ∀ n ∈ descendingKeys edits, 1 ≤ n ∧ n ≤ fileLines.length :=
    fun n mem => anchored_line_bounds bounds ((mem_descendingKeys edits n).mp mem)
  change ((descendingKeys edits).foldl (applyLine (anchorEdits edits)) ⟨fileLines,none⟩).fileLines = _
  rw [fold_applyLine _ _ _ fun n mem => (mem_descendingKeys edits n).mp mem]
  change (descendingKeys edits).foldl _ fileLines = _
  rw [bottom_up_is_pass _ _ _ _ positions (descendingKeys_strict edits), referenceBody]
  apply linePass_congr
  intro n line _ _
  by_cases key : n ∈ descendingKeys edits
  · simp [key]
  · have absent := fun here => key ((mem_descendingKeys edits n).mpr here)
    simp [key, no_key_no_rows edits n line absent]

/- Head and tail rows -/

theorem insertAtStart_eq (fileLines rows : List JsString) :
    insertAtStart fileLines rows =
      if rows ≠ [] ∧ fileLines = [[]] then rows else rows ++ fileLines := by
  cases rows with
  | nil => simp [insertAtStart]
  | cons row rows =>
    by_cases blank : fileLines = [[]]
    · simp [insertAtStart, blank, splice]
    · simp [insertAtStart, blank, splice]

theorem insertAtEnd_eq (fileLines rows : List JsString) :
    (insertAtEnd fileLines rows).1 =
      if rows ≠ [] ∧ fileLines = [[]] then rows else withTail fileLines rows := by
  cases rows with
  | nil => simp [insertAtEnd, withTail]
  | cons row rows =>
    by_cases blank : fileLines = [[]]
    · simp [insertAtEnd, blank, splice]
    · by_cases newline : fileLines.getLast? = some []
      · have rebuilt : fileLines.dropLast ++ [[]] = fileLines :=
          List.dropLast_append_getLast? [] newline
        have cut : fileLines.drop (fileLines.length - 1) = [[]] := by
          conv => lhs; rw [← rebuilt]
          simp
        simp [insertAtEnd, withTail, placeTail, blank, newline, splice, cut, List.dropLast_eq_take]
      · simp [insertAtEnd, withTail, placeTail, blank, newline, splice]

/-- Applying an edit list, with the two places where rows take over an empty line. -/
theorem applyRepaired_lines {edits : List AppliedEdit} (bounds : InBounds edits fileLines) :
    (applyRepaired edits fileLines).fileLines =
      let started := if headRows edits ≠ [] ∧ referenceBody edits fileLines = [[]] then headRows edits
        else headRows edits ++ referenceBody edits fileLines
      if tailRows edits ≠ [] ∧ started = [[]] then tailRows edits
      else withTail started (tailRows edits) := by
  change (insertAtEnd (insertAtStart (applyLines edits fileLines).fileLines (headRows edits))
    (tailRows edits)).1 = _
  rw [insertAtEnd_eq, insertAtStart_eq, applyLines_body bounds]

/- An empty file has one empty line, which head and tail rows alone take over. -/
def fillsEmptyFile (edits : List AppliedEdit) (fileLines : List JsString) : Bool :=
  fileLines = [[]] && edits.all fun edit => !isAnchorEdit edit

def linesBeforeTail (edits : List AppliedEdit) (fileLines : List JsString) : List JsString :=
  if fillsEmptyFile edits fileLines then headRows edits
  else headRows edits ++ referenceBody edits fileLines

def expectedLines (edits : List AppliedEdit) (fileLines : List JsString) : List JsString :=
  if fillsEmptyFile edits fileLines then withTail (headRows edits) (tailRows edits)
  else referenceLines edits fileLines

theorem expected_with_tail (edits : List AppliedEdit) (fileLines : List JsString) :
    expectedLines edits fileLines = withTail (linesBeforeTail edits fileLines) (tailRows edits) := by
  rw [expectedLines, linesBeforeTail]
  split
  · rfl
  · rfl

/-- Head rows meet a file that line edits left with one empty line, or tail rows meet
    lines that are one empty row. -/
def blankTakenOver (edits : List AppliedEdit) (fileLines : List JsString) : Bool :=
  (!fillsEmptyFile edits fileLines && !(headRows edits).isEmpty &&
      referenceBody edits fileLines == [[]]) ||
    (!(tailRows edits).isEmpty && linesBeforeTail edits fileLines == [[]])

theorem fillsEmptyFile_body {edits : List AppliedEdit} (fills : fillsEmptyFile edits fileLines = true) : referenceBody edits fileLines = [[]] := by
  obtain ⟨blank,anchorless⟩ : fileLines = [[]] ∧ ∀ edit ∈ edits, isAnchorEdit edit = false := by
    simpa [fillsEmptyFile] using fills
  have absent : 1 ∉ bucketKeys (anchorEdits edits) := by
    intro key
    obtain ⟨edit,mem,anchored,_⟩ := (mem_bucketKeys edits 1).mp key
    simp [anchorless edit mem] at anchored
  simp [blank, referenceBody, linePass, no_key_no_rows edits 1 [] absent]

theorem applyRepaired_expected {edits : List AppliedEdit} (bounds : InBounds edits fileLines)
    (clean : blankTakenOver edits fileLines = false) :
    joinLines (applyRepaired edits fileLines).fileLines =
      joinLines (expectedLines edits fileLines) := by
  rw [applyRepaired_lines bounds, expected_with_tail]
  simp only [linesBeforeTail, blankTakenOver] at clean ⊢
  by_cases fills : fillsEmptyFile edits fileLines = true
  · have body := fillsEmptyFile_body fills
    simp only [fills, body, if_true, Bool.not_true, Bool.false_and, Bool.false_or] at clean ⊢
    cases head : headRows edits with
    | nil =>
      cases tail : tailRows edits with
      | nil => simp [withTail, joinLines]
      | cons row rows => simp [withTail, placeTail]
    | cons row rows =>
      cases tail : tailRows edits with
      | nil => simp [withTail]
      | cons last others =>
        simp only [head, tail] at clean
        have filled : row :: rows ≠ [[]] := by simpa using clean
        simp only [ne_eq, reduceCtorEq, not_false_eq_true, and_self, if_true, filled, and_false,
          if_false]
  · simp only [fills, Bool.false_eq_true, if_false] at clean ⊢
    have started : ¬(headRows edits ≠ [] ∧ referenceBody edits fileLines = [[]]) := by
      rintro ⟨some_head,body⟩
      simp [some_head, body] at clean
    rw [if_neg started]
    have ended : ¬(tailRows edits ≠ [] ∧ headRows edits ++ referenceBody edits fileLines = [[]]) := by
      rintro ⟨some_tail,lines⟩
      simp [some_tail, lines] at clean
    rw [if_neg ended]

/- Cloning renumbers the edits and changes nothing the rows depend on. -/

theorem cloned_filterMap {β : Type} (f : AppliedEdit → Option β)
    (blind : ∀ edit index, f (cloneAppliedEdit edit index) = f edit) (edits : List AppliedEdit) :
    (cloneAppliedEdits edits).filterMap f = edits.filterMap f := by
  rw [cloneAppliedEdits, List.filterMap_map]
  conv => rhs; rw [← List.zipIdx_map_fst 0 edits, List.filterMap_map]
  exact List.filterMap_congr fun entry _ => blind entry.1 entry.2

theorem cloned_any (p : AppliedEdit → Bool)
    (blind : ∀ edit index, p (cloneAppliedEdit edit index) = p edit) (edits : List AppliedEdit) :
    (cloneAppliedEdits edits).any p = edits.any p := by
  rw [cloneAppliedEdits, List.any_map]
  conv => rhs; rw [← List.zipIdx_map_fst 0 edits, List.any_map]
  exact congrArg (List.any edits.zipIdx) (funext fun entry => blind entry.1 entry.2)

theorem cloned_rows (edits : List AppliedEdit) (n : Nat) :
    rowsAt (cloneAppliedEdits edits) n = rowsAt edits n := by
  simp only [rowsAt]
  rw [cloned_filterMap (beforeRow? n), cloned_filterMap (replacementRow? n),
    cloned_filterMap (afterRow? n), cloned_any (deletesLine n)] <;>
  · rintro (⟨cursor,text,lineNum,before,mode⟩ | d) index
    · cases cursor <;> cases mode <;> rfl
    · rfl

theorem cloned_head (edits : List AppliedEdit) :
    headRows (cloneAppliedEdits edits) = headRows edits :=
  cloned_filterMap bofLine? (by
    rintro (⟨cursor,text,lineNum,before,mode⟩ | d) index
    · cases cursor <;> rfl
    · rfl) edits

theorem cloned_tail (edits : List AppliedEdit) :
    tailRows (cloneAppliedEdits edits) = tailRows edits :=
  cloned_filterMap eofLine? (by
    rintro (⟨cursor,text,lineNum,before,mode⟩ | d) index
    · cases cursor <;> rfl
    · rfl) edits

theorem cloned_body (edits : List AppliedEdit) (fileLines : List JsString) :
    referenceBody (cloneAppliedEdits edits) fileLines = referenceBody edits fileLines :=
  linePass_congr 1 fileLines fun n _ _ _ => by rw [cloned_rows]

theorem cloned_fills (edits : List AppliedEdit) (fileLines : List JsString) :
    fillsEmptyFile (cloneAppliedEdits edits) fileLines = fillsEmptyFile edits fileLines := by
  have anchored := cloned_any isAnchorEdit (by
    rintro (⟨cursor,text,lineNum,before,mode⟩ | d) index
    · cases cursor <;> rfl
    · rfl) edits
  simp only [fillsEmptyFile, List.all_eq_not_any_not, Bool.not_not, anchored]

theorem cloned_before_tail (edits : List AppliedEdit) (fileLines : List JsString) :
    linesBeforeTail (cloneAppliedEdits edits) fileLines = linesBeforeTail edits fileLines := by
  simp only [linesBeforeTail, cloned_fills, cloned_head, cloned_body]

theorem cloned_expected (edits : List AppliedEdit) (fileLines : List JsString) :
    expectedLines (cloneAppliedEdits edits) fileLines = expectedLines edits fileLines := by
  simp only [expected_with_tail, cloned_before_tail, cloned_tail]

theorem cloned_taken_over (edits : List AppliedEdit) (fileLines : List JsString) :
    blankTakenOver (cloneAppliedEdits edits) fileLines = blankTakenOver edits fileLines := by
  simp only [blankTakenOver, cloned_fills, cloned_head, cloned_body, cloned_before_tail, cloned_tail]

theorem cloned_anchors (edits : List AppliedEdit) :
    (cloneAppliedEdits edits).flatMap getEditAnchors = edits.flatMap getEditAnchors := by
  rw [cloneAppliedEdits, List.flatMap_map]
  conv => rhs; rw [← List.zipIdx_map_fst 0 edits, List.flatMap_map]
  apply List.flatMap_congr
  rintro ⟨edit,index⟩ _
  cases edit <;> rfl

theorem cloned_bounds {edits : List AppliedEdit} :
    InBounds (cloneAppliedEdits edits) fileLines ↔ InBounds edits fileLines := by
  have flat : ∀ list : List AppliedEdit, InBounds list fileLines ↔
      ∀ anchor ∈ list.flatMap getEditAnchors, 1 ≤ anchor.line ∧ anchor.line ≤ fileLines.length := by
    intro list
    simp only [InBounds, List.mem_flatMap]
    exact ⟨fun all anchor ⟨edit,mem,here⟩ => all edit mem anchor here,
      fun all edit mem anchor here => all anchor ⟨edit,mem,here⟩⟩
  rw [flat, flat, cloned_anchors]

/- Every payload row and every undeleted line is in the expected lines once. -/

def payloadRow? : AppliedEdit → Option JsString
  | .insert e => some e.text
  | .delete _ => none

def undeletedLines (edits : List AppliedEdit) (fileLines : List JsString) : List JsString :=
  linePass (fun n line => if edits.any (deletesLine n) then [] else [line]) 1 fileLines

def extraRows (edits : List AppliedEdit) (n : Nat) : List JsString :=
  edits.filterMap (beforeRow? n) ++ edits.filterMap (replacementRow? n) ++
    edits.filterMap (afterRow? n)

theorem render_perm (edits : List AppliedEdit) (n : Nat) (line : JsString) :
    ((rowsAt edits n).render line).Perm
      (extraRows edits n ++ if edits.any (deletesLine n) then [] else [line]) := by
  cases removed : edits.any (deletesLine n) with
  | true => simp [LineRows.render, rowsAt, extraRows, removed]
  | false =>
    simp only [LineRows.render, rowsAt, extraRows, removed, Bool.false_eq_true, if_false,
      List.append_assoc]
    exact List.Perm.append_left _ (List.Perm.append_left _ List.perm_append_comm)

theorem body_perm (edits : List AppliedEdit) (fileLines : List JsString) :
    (referenceBody edits fileLines).Perm
      ((List.range' 1 fileLines.length).flatMap (extraRows edits) ++
        undeletedLines edits fileLines) :=
  linePass_perm (render_perm edits) 1 fileLines

def rowAt? (n : Nat) (edit : AppliedEdit) : Option JsString :=
  if isAnchorEdit edit ∧ bucketLine edit = n then payloadRow? edit else none

theorem extraRows_cons (edit : AppliedEdit) (edits : List AppliedEdit) (n : Nat) :
    (extraRows (edit :: edits) n).Perm ((rowAt? n edit).toList ++ extraRows edits n) := by
  simp only [extraRows, filterMap_cons_toList]
  by_cases here : isAnchorEdit edit = true ∧ bucketLine edit = n
  · obtain ⟨anchored,line⟩ := here
    rcases edit with ⟨cursor,text,lineNum,index,mode⟩ | d
    · rw [List.perm_iff_count]
      intro row
      cases cursor <;> cases mode <;>
        simp_all [beforeRow?, replacementRow?, afterRow?, rowAt?, payloadRow?, bucketLine,
          isAnchorEdit, bofLine?, eofLine?, List.count_cons] <;>
        omega
    · simp [beforeRow?, replacementRow?, afterRow?, rowAt?, payloadRow?]
  · obtain ⟨before,replacement,after,_⟩ := no_rows_elsewhere edit n here
    simp [before, replacement, after, rowAt?, here]

theorem row_once (edit : AppliedEdit) {start count : Nat} (anchored : isAnchorEdit edit = true)
    (low : start ≤ bucketLine edit) (high : bucketLine edit < start + count) :
    (List.range' start count).flatMap (fun n => (rowAt? n edit).toList) =
      (payloadRow? edit).toList := by
  induction count generalizing start with
  | zero => omega
  | succ count ih =>
    rw [List.range'_succ, List.flatMap_cons]
    by_cases first : bucketLine edit = start
    · have later : (List.range' (start + 1) count).flatMap (fun n => (rowAt? n edit).toList) = [] := by
        rw [List.flatMap_eq_nil_iff]
        intro n mem
        have := (List.mem_range'_1.mp mem).1
        have other : bucketLine edit ≠ n := by omega
        simp [rowAt?, other]
      rw [later]
      simp [rowAt?, anchored, first]
    · rw [ih (by omega) (by omega)]
      simp [rowAt?, first]

theorem row_never (edit : AppliedEdit) (start count : Nat) (anchorless : isAnchorEdit edit = false) :
    (List.range' start count).flatMap (fun n => (rowAt? n edit).toList) = [] := by
  simp [rowAt?, anchorless]

theorem anchored_inside {edit : AppliedEdit} (bounds : InBounds [edit] fileLines) (anchored : isAnchorEdit edit = true) :
    1 ≤ bucketLine edit ∧ bucketLine edit ≤ fileLines.length := by
  have key : bucketLine edit ∈ bucketKeys (anchorEdits [edit]) :=
    (mem_bucketKeys [edit] _).mpr ⟨edit,by simp,anchored,rfl⟩
  exact anchored_line_bounds bounds key

/-- The rows of all edits are the head rows, the anchored rows line by line, and the tail rows. -/
theorem payload_perm {edits : List AppliedEdit} (bounds : InBounds edits fileLines) :
    (edits.filterMap payloadRow?).Perm
      (headRows edits ++ (List.range' 1 fileLines.length).flatMap (extraRows edits) ++
        tailRows edits) := by
  induction edits with
  | nil => simp [headRows, tailRows, extraRows]
  | cons edit edits ih =>
    have rest := ih fun other mem => bounds other (List.mem_cons_of_mem edit mem)
    have spread : ((List.range' 1 fileLines.length).flatMap (extraRows (edit :: edits))).Perm
        ((List.range' 1 fileLines.length).flatMap (fun n => (rowAt? n edit).toList) ++
          (List.range' 1 fileLines.length).flatMap (extraRows edits)) :=
      (List.Perm.flatMap_left _ fun n _ => extraRows_cons edit edits n).trans
        (List.flatMap_append_perm _ _ _).symm
    have own : (payloadRow? edit).toList = (bofLine? edit).toList ++
        (List.range' 1 fileLines.length).flatMap (fun n => (rowAt? n edit).toList) ++
          (eofLine? edit).toList := by
      cases anchored : isAnchorEdit edit with
      | true =>
        have own : InBounds [edit] fileLines := by
          intro other mem
          obtain rfl : other = edit := by simpa using mem
          exact bounds other (by simp)
        obtain ⟨low,high⟩ := anchored_inside own anchored
        rw [row_once edit anchored low (by omega)]
        obtain ⟨head,tail⟩ : bofLine? edit = none ∧ eofLine? edit = none := by
          simpa [isAnchorEdit] using anchored
        simp [head, tail]
      | false =>
        rw [row_never edit _ _ anchored]
        rcases edit with ⟨cursor,text,lineNum,index,mode⟩ | d
        · cases cursor <;> simp_all [payloadRow?, bofLine?, eofLine?, isAnchorEdit]
        · simp [isAnchorEdit, bofLine?, eofLine?] at anchored
    simp only [headRows, tailRows, filterMap_cons_toList] at rest ⊢
    rw [List.perm_iff_count] at rest spread ⊢
    intro row
    have counted := rest row
    have spreadCount := spread row
    simp only [own, List.count_append] at counted spreadCount ⊢
    omega

theorem withTail_perm (lines tail : List JsString) : (withTail lines tail).Perm (lines ++ tail) := by
  cases tail with
  | nil => simp [withTail]
  | cons row rows =>
    simp only [withTail, List.isEmpty_cons, Bool.false_eq_true, if_false, placeTail]
    split
    · rename_i newline
      have rebuilt : lines.dropLast ++ [[]] = lines := List.dropLast_append_getLast? [] newline
      conv => rhs; rw [← rebuilt]
      simp only [List.append_assoc]
      exact List.Perm.append_left _ List.perm_append_comm
    · exact List.Perm.refl _

def survivingLines (edits : List AppliedEdit) (fileLines : List JsString) : List JsString :=
  if fillsEmptyFile edits fileLines then [] else undeletedLines edits fileLines

theorem expected_perm {edits : List AppliedEdit} (bounds : InBounds edits fileLines) :
    (expectedLines edits fileLines).Perm
      (edits.filterMap payloadRow? ++ survivingLines edits fileLines) := by
  rw [expected_with_tail]
  refine (withTail_perm _ _).trans ?_
  have rows := payload_perm bounds
  have body := body_perm edits fileLines
  rw [List.perm_iff_count] at rows body ⊢
  intro row
  have rowCount := rows row
  have bodyCount := body row
  simp only [List.count_append] at rowCount bodyCount ⊢
  cases fills : fillsEmptyFile edits fileLines with
  | true =>
    obtain ⟨blank,anchorless⟩ : fileLines = [[]] ∧ ∀ edit ∈ edits, isAnchorEdit edit = false := by
      simpa [fillsEmptyFile] using fills
    have kept : edits.any (deletesLine 1) = false := List.any_eq_false.mpr fun edit mem => by
      have elsewhere := no_rows_elsewhere edit 1 (by simp [anchorless edit mem])
      simp [elsewhere.2.2.2]
    have undeleted : undeletedLines edits fileLines = [[]] := by
      simp only [blank, undeletedLines, linePass, kept]
      rfl
    simp only [fillsEmptyFile_body fills, undeleted] at bodyCount
    simp only [linesBeforeTail, survivingLines, fills, if_true, List.count_nil]
    omega
  | false =>
    simp only [linesBeforeTail, survivingLines, fills, Bool.false_eq_true, if_false,
      List.count_append]
    omega

theorem applied_only (edits : List AppliedEdit) :
    (edits.map Edit.applied).mapM appliedEdit? = some edits := by
  induction edits with
  | nil => rfl
  | cons edit edits ih => simp [List.mapM_cons, appliedEdit?, ih]

theorem no_edits_expected (text : JsString) :
    joinLines (expectedLines [] (splitLines text)) = text := by
  by_cases blank : splitLines text = [[]]
  · have empty : text = [] := by
      rw [← join_split text, blank]
      rfl
    have fills : fillsEmptyFile [] (splitLines text) = true := by simp [fillsEmptyFile, blank]
    rw [expectedLines, if_pos fills, empty]
    rfl
  · have kept : referenceBody [] (splitLines text) = splitLines text := linePass_keep 1 _
    simp [expectedLines, fillsEmptyFile, blank, referenceLines, headRows, tailRows, withTail, kept,
      join_split]

/-- Applying edits the boundary repair leaves alone, unless rows take over an empty row. -/
theorem applyEdits_is_reference {text : JsString} {edits : List AppliedEdit}
    (bounds : InBounds edits (splitLines text))
    (unrepaired : repairReplacementBoundaries (cloneAppliedEdits edits) (splitLines text) =
      ⟨cloneAppliedEdits edits,[]⟩)
    (clean : blankTakenOver edits (splitLines text) = false) :
    (∃ first, applyEdits text (edits.map .applied) =
      .ok ⟨joinLines (expectedLines edits (splitLines text)),first,[]⟩) ∧
      (expectedLines edits (splitLines text)).Perm
        (edits.filterMap payloadRow? ++ survivingLines edits (splitLines text)) := by
  refine ⟨?_,expected_perm bounds⟩
  cases edits with
  | nil => exact ⟨none,by simp [applyEdits, no_edits_expected]⟩
  | cons edit edits =>
    have checked := bounds_complete (cloned_bounds.mpr bounds)
    have lines := applyRepaired_expected (cloned_bounds.mpr bounds)
      (by rw [cloned_taken_over]; exact clean)
    rw [cloned_expected] at lines
    refine ⟨(applyRepaired (cloneAppliedEdits (edit :: edits)) (splitLines text)).firstChangedLine,?_⟩
    have resolved : applyEdits text ((edit :: edits).map .applied) =
        applyResolved text (edit :: edits) := by
      simp only [applyEdits, applied_only]
      rfl
    rw [resolved, ← lines]
    simp only [applyResolved, checked, unrepaired]
    rfl

def headPatch : JsString := js "insert head:\n+A"
def headPatchEdits : List AppliedEdit := [.insert ⟨.bof,js "A",1,0,.literal⟩]

/-- On an empty file the head row takes over the empty line instead of going before it. -/
theorem empty_file_keeps_no_line :
    parsePatch headPatch = .ok ⟨headPatchEdits.map .applied,[]⟩ ∧
      repairReplacementBoundaries (cloneAppliedEdits headPatchEdits) (splitLines []) =
        ⟨cloneAppliedEdits headPatchEdits,[]⟩ ∧
      applyEdits [] (headPatchEdits.map .applied) = .ok ⟨js "A",some 1,[]⟩ ∧
      joinLines (referenceLines headPatchEdits (splitLines [])) ≠ js "A" := by decide

def mixedPatch : JsString := js "replace 2..2:\n+B\ninsert after 1:\n+b\ninsert tail:\n+Z\ninsert head:\n+A"
def mixedPatchEdits : List AppliedEdit :=
  [.insert ⟨.beforeAnchor ⟨2⟩,js "B",1,0,.replacement⟩, .delete ⟨⟨2⟩,1,1⟩,
    .insert ⟨.afterAnchor ⟨1⟩,js "b",3,2,.literal⟩, .insert ⟨.eof,js "Z",5,3,.literal⟩,
    .insert ⟨.bof,js "A",7,4,.literal⟩]

theorem applyEdits_is_reference_mixed :
    parsePatch mixedPatch = .ok ⟨mixedPatchEdits.map .applied,[]⟩ ∧
      ∃ first, applyEdits (js "x\ny\nz\n") (mixedPatchEdits.map .applied) =
        .ok ⟨js "A\nx\nb\nB\nz\nZ\n",first,[]⟩ := by
  refine ⟨by decide,?_⟩
  have bounds : InBounds mixedPatchEdits (splitLines (js "x\ny\nz\n")) :=
    bounds_checked (by decide)
  exact (applyEdits_is_reference bounds (by decide) (by decide)).1

end Hashline
