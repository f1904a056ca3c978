import OpenAgents.Hashline.ApplyReference
import OpenAgents.Lib.KeyedBlocks

/- The final text with the place of every row: where its original line stood, or the line it
   was anchored to. Keys grow along the text; only the key of a line is used once. -/
namespace Hashline
open JsText LineSplice KeyedBlocks

structure PlacedLine where
  key : Nat
  text : JsString
  deriving DecidableEq, Repr

def beforeKey (n : Nat) : Nat := 8 * n
def outputKey (n : Nat) : Nat := 8 * n + 2
def lineKey (n : Nat) : Nat := 8 * n + 4
def afterKey (n : Nat) : Nat := 8 * n + 6

def isLineKey (key : Nat) : Bool := key % 8 == 4

def placeAll (key : Nat) (rows : List JsString) : List PlacedLine := rows.map fun text => ⟨key,text⟩

def placedRows (edits : List AppliedEdit) (n : Nat) (line : JsString) : List PlacedLine :=
  let rows := rowsAt edits n
  placeAll (beforeKey n) rows.before ++ placeAll (outputKey n) rows.replacement ++
    (if rows.deleteLine then [] else [⟨lineKey n,line⟩]) ++ placeAll (afterKey n) rows.after

def placedBody (edits : List AppliedEdit) (fileLines : List JsString) : List PlacedLine :=
  linePass (placedRows edits) 1 fileLines

def texts (placed : List PlacedLine) : List JsString := placed.map PlacedLine.text

def placeHead (head : List JsString) (placed : List PlacedLine) : List PlacedLine :=
  if head ≠ [] ∧ texts placed = [[]] then placeAll 0 head else placeAll 0 head ++ placed

/- In front of a blank last row, so next to it. -/
def tailKey (last : PlacedLine) : Nat := if isLineKey last.key then last.key - 1 else last.key

def placeEnd (top : Nat) (tail : List JsString) (placed : List PlacedLine) : List PlacedLine :=
  if tail = [] then placed
  else if texts placed = [[]] then placeAll top tail
  else
    match placed.getLast? with
    | some last =>
        if last.text = [] then placed.dropLast ++ placeAll (tailKey last) tail ++ [last]
        else placed ++ placeAll top tail
    | none => placeAll top tail

def placedText (edits : List AppliedEdit) (fileLines : List JsString) : List PlacedLine :=
  placeEnd (8 * fileLines.length + 8) (tailRows edits) (placeHead (headRows edits) (placedBody edits fileLines))

theorem texts_append (xs ys : List PlacedLine) : texts (xs ++ ys) = texts xs ++ texts ys := List.map_append

theorem texts_placeAll (key : Nat) (rows : List JsString) : texts (placeAll key rows) = rows := by
  rw [texts, placeAll, List.map_map]
  exact List.map_id rows

theorem texts_dropLast (placed : List PlacedLine) : texts placed.dropLast = (texts placed).dropLast :=
  List.map_dropLast

theorem texts_rows (edits : List AppliedEdit) (n : Nat) (line : JsString) :
    texts (placedRows edits n line) = (rowsAt edits n).render line := by
  simp only [placedRows, texts_append, texts_placeAll, LineRows.render]
  cases (rowsAt edits n).deleteLine <;> simp [texts]

theorem texts_pass (edits : List AppliedEdit) (start : Nat) (fileLines : List JsString) :
    texts (linePass (placedRows edits) start fileLines) =
      linePass (fun n line => (rowsAt edits n).render line) start fileLines := by
  induction fileLines generalizing start with
  | nil => rfl
  | cons line fileLines ih => rw [linePass, texts_append, texts_rows, ih, linePass]

theorem texts_head (head : List JsString) (placed : List PlacedLine) :
    texts (placeHead head placed) = insertAtStart (texts placed) head := by
  rw [insertAtStart_eq, placeHead]
  split
  · rw [texts_placeAll]
  · rw [texts_append, texts_placeAll]

theorem texts_end (top : Nat) (tail : List JsString) (placed : List PlacedLine) :
    texts (placeEnd top tail placed) = (insertAtEnd (texts placed) tail).1 := by
  rw [insertAtEnd_eq, placeEnd]
  by_cases empty : tail = []
  · simp [empty, withTail]
  · by_cases blank : texts placed = [[]]
    · simp [empty, blank, texts_placeAll]
    · rw [if_neg empty, if_neg blank, if_neg (fun both => blank both.2), withTail, if_neg (by simpa using empty)]
      have lastText : (texts placed).getLast? = placed.getLast?.map PlacedLine.text := List.getLast?_map
      rw [placeTail, lastText]
      cases last : placed.getLast? with
      | none =>
        obtain rfl := List.getLast?_eq_none_iff.mp last
        have none' : texts [] = [] := rfl
        simp [texts_placeAll, none']
      | some row =>
        by_cases unmarked : row.text = []
        · have blankLast : texts [row] = [[]] := by rw [← unmarked]; rfl
          simp [unmarked, texts_append, texts_placeAll, texts_dropLast, blankLast]
        · simp [unmarked, texts_append, texts_placeAll]

variable {fileLines : List JsString} {n : Nat} {x : PlacedLine} {line : JsString}

/-- The rows in their places are the text the edits produce. -/
theorem placed_is_text {edits : List AppliedEdit} (bounds : InBounds edits fileLines) :
    texts (placedText edits fileLines) = (applyRepaired edits fileLines).fileLines := by
  rw [placedText, texts_end, texts_head, placedBody, texts_pass]
  simp only [applyRepaired, applyLines_body bounds]
  rfl

/- Where a row goes, if it is anchored. -/
def rowKey : AppliedEdit → Option Nat
  | .insert ⟨.beforeAnchor anchor,_,_,_,.literal⟩ => some (beforeKey anchor.line)
  | .insert ⟨.afterAnchor anchor,_,_,_,.literal⟩ => some (afterKey anchor.line)
  | .insert ⟨.beforeAnchor anchor,_,_,_,.replacement⟩ => some (outputKey anchor.line)
  | .insert ⟨.afterAnchor anchor,_,_,_,.replacement⟩ => some (outputKey anchor.line)
  | .insert _ => none
  | .delete _ => none

theorem beforeRow_key {edit : AppliedEdit} {text : JsString} (row : beforeRow? n edit = some text) :
    rowKey edit = some (beforeKey n) := by
  unfold beforeRow? at row
  split at row
  · split at row
    · rename_i here
      rw [← here]
      rfl
    · contradiction
  · contradiction

theorem afterRow_key {edit : AppliedEdit} {text : JsString} (row : afterRow? n edit = some text) :
    rowKey edit = some (afterKey n) := by
  unfold afterRow? at row
  split at row
  · split at row
    · rename_i here
      rw [← here]
      rfl
    · contradiction
  · contradiction

theorem replacementRow_key {edit : AppliedEdit} {text : JsString} (row : replacementRow? n edit = some text) : rowKey edit = some (outputKey n) := by
  unfold replacementRow? at row
  split at row
  · split at row
    · rename_i here
      rw [← here]
      rfl
    · contradiction
  · split at row
    · rename_i here
      rw [← here]
      rfl
    · contradiction
  · contradiction

theorem mem_placeAll {key : Nat} {rows : List JsString} : x ∈ placeAll key rows ↔ x.key = key ∧ x.text ∈ rows := by
  rw [placeAll, List.mem_map]
  constructor
  · intro found
    obtain ⟨text,mem,rfl⟩ := found
    exact ⟨rfl,mem⟩
  · intro found
    obtain ⟨rfl,mem⟩ := found
    exact ⟨x.text,mem,rfl⟩

/-- A row of a line's slot is the line itself, if it is kept, or belongs to an edit. -/
theorem placedRows_cases {edits : List AppliedEdit} (mem : x ∈ placedRows edits n line) :
    (x = ⟨lineKey n,line⟩ ∧ edits.any (deletesLine n) = false) ∨
      ((x.key = beforeKey n ∨ x.key = outputKey n ∨ x.key = afterKey n) ∧
        ∃ edit ∈ edits, rowKey edit = some x.key) := by
  simp only [placedRows, List.mem_append, mem_placeAll] at mem
  rcases mem with ((⟨key,row⟩ | ⟨key,row⟩) | kept) | ⟨key,row⟩
  · obtain ⟨edit,among,here⟩ := List.mem_filterMap.mp row
    exact .inr ⟨.inl key,edit,among,key ▸ beforeRow_key here⟩
  · obtain ⟨edit,among,here⟩ := List.mem_filterMap.mp row
    exact .inr ⟨.inr (.inl key),edit,among,key ▸ replacementRow_key here⟩
  · cases deleted : (rowsAt edits n).deleteLine with
    | true => simp [deleted] at kept
    | false => exact .inl ⟨by simpa [deleted] using kept,deleted⟩
  · obtain ⟨edit,among,here⟩ := List.mem_filterMap.mp row
    exact .inr ⟨.inr (.inr key),edit,among,key ▸ afterRow_key here⟩

theorem placedRows_keys {edits : List AppliedEdit} (mem : x ∈ placedRows edits n line) : 8 * n ≤ x.key ∧ x.key < 8 * n + 8 := by
  rcases placedRows_cases mem with ⟨rfl,_⟩ | ⟨key,_⟩
  · simp only [lineKey]
    omega
  · simp only [beforeKey, outputKey, afterKey] at key
    omega

theorem placeAll_ordered {key : Nat} (free : isLineKey key = false) (rows : List JsString) :
    Ordered PlacedLine.key isLineKey (placeAll key rows) := by
  rw [Ordered, placeAll, List.pairwise_map]
  exact List.pairwise_of_forall fun _ _ => ⟨Nat.le_refl key,fun _ => free⟩

theorem line_key_once (n : Nat) : isLineKey (lineKey n) = true := by
  simp only [isLineKey, lineKey, beq_iff_eq]
  omega

theorem row_key_free (n : Nat) : isLineKey (beforeKey n) = false ∧ isLineKey (outputKey n) = false ∧
    isLineKey (afterKey n) = false := by
  simp only [isLineKey, beforeKey, outputKey, afterKey, beq_eq_false_iff_ne]
  omega

theorem placedRows_ordered (edits : List AppliedEdit) (n : Nat) (line : JsString) :
    Ordered PlacedLine.key isLineKey (placedRows edits n line) := by
  obtain ⟨beforeFree,outputFree,afterFree⟩ := row_key_free n
  have lineOrdered : Ordered PlacedLine.key isLineKey
      (if (rowsAt edits n).deleteLine then [] else [⟨lineKey n,line⟩]) := by
    split
    · exact List.Pairwise.nil
    · exact List.pairwise_singleton _ _
  have lineKeys : ∀ x ∈ (if (rowsAt edits n).deleteLine then [] else [(⟨lineKey n,line⟩ : PlacedLine)]),
      x.key = lineKey n := by
    intro x mem
    split at mem
    · exact absurd mem List.not_mem_nil
    · rw [List.mem_singleton.mp mem]
  simp only [placedRows]
  refine List.pairwise_append.mpr ⟨List.pairwise_append.mpr ⟨List.pairwise_append.mpr
    ⟨placeAll_ordered beforeFree _,placeAll_ordered outputFree _,?_⟩,lineOrdered,?_⟩,
    placeAll_ordered afterFree _,?_⟩
  · intro a early b late
    rw [InOrder, (mem_placeAll.mp early).1, (mem_placeAll.mp late).1]
    simp only [beforeKey, outputKey]
    omega
  · intro a early b late
    rw [InOrder, lineKeys b late]
    rcases List.mem_append.mp early with row | row
    · rw [(mem_placeAll.mp row).1]
      simp only [beforeKey, lineKey]
      omega
    · rw [(mem_placeAll.mp row).1]
      simp only [outputKey, lineKey]
      omega
  · intro a early b late
    rw [InOrder, (mem_placeAll.mp late).1]
    rcases List.mem_append.mp early with rows | kept
    · rcases List.mem_append.mp rows with row | row
      · rw [(mem_placeAll.mp row).1]
        simp only [beforeKey, afterKey]
        omega
      · rw [(mem_placeAll.mp row).1]
        simp only [outputKey, afterKey]
        omega
    · rw [lineKeys a kept]
      simp only [lineKey, afterKey]
      omega

theorem body_ordered (edits : List AppliedEdit) (fileLines : List JsString) :
    Ordered PlacedLine.key isLineKey (placedBody edits fileLines) := by
  refine linePass_pairwise (fun n line => placedRows_ordered edits n line) ?_ 1 fileLines
  intro m n x y a b before here there
  have low := placedRows_keys here
  have high := placedRows_keys there
  rw [InOrder]
  omega

theorem body_keys {edits : List AppliedEdit} (mem : x ∈ placedBody edits fileLines) : 8 ≤ x.key ∧ x.key < 8 * fileLines.length + 8 := by
  obtain ⟨i,inside,row⟩ := mem_linePass.mp mem
  have keys := placedRows_keys row
  omega

theorem line_in_body {edits : List AppliedEdit} :
    (⟨lineKey n,line⟩ : PlacedLine) ∈ placedBody edits fileLines ↔
      1 ≤ n ∧ fileLines[n - 1]? = some line ∧ edits.any (deletesLine n) = false := by
  constructor
  · intro mem
    obtain ⟨i,inside,row⟩ := mem_linePass.mp mem
    have keys := placedRows_keys row
    obtain rfl : n = 1 + i := by
      simp only [lineKey] at keys
      omega
    rcases placedRows_cases row with ⟨same,kept⟩ | ⟨key,_⟩
    · have text : line = fileLines[i] := by simpa using same
      refine ⟨by omega,?_,kept⟩
      rw [Nat.add_sub_cancel_left, List.getElem?_eq_getElem inside, text]
    · simp only [lineKey, beforeKey, outputKey, afterKey] at key
      omega
  · intro kept
    obtain ⟨positive,text,undeleted⟩ := kept
    obtain ⟨inside,found⟩ := List.getElem?_eq_some_iff.mp text
    refine mem_linePass.mpr ⟨n - 1,inside,?_⟩
    have position : 1 + (n - 1) = n := by omega
    have notDeleted : (rowsAt edits n).deleteLine = false := undeleted
    rw [position, found]
    simp [placedRows, notDeleted]

theorem row_in_body {edits : List AppliedEdit} (bounds : InBounds edits fileLines) {edit : AppliedEdit} (mem : edit ∈ edits)
    {key : Nat} (placed : rowKey edit = some key) : ∃ x ∈ placedBody edits fileLines, x.key = key := by
  have found : ∀ (n : Nat) (text : JsString), 1 ≤ n → n ≤ fileLines.length →
      (⟨key,text⟩ : PlacedLine) ∈ placedRows edits n (fileLines[n - 1]?.getD []) →
      ∃ x ∈ placedBody edits fileLines, x.key = key := by
    intro n text low high row
    have inside : n - 1 < fileLines.length := by omega
    have position : 1 + (n - 1) = n := by omega
    refine ⟨⟨key,text⟩,mem_linePass.mpr ⟨n - 1,inside,?_⟩,rfl⟩
    rw [position]
    rw [List.getElem?_eq_getElem inside, Option.getD_some] at row
    exact row
  have inBounds := bounds edit mem
  cases edit with
  | delete d => simp [rowKey] at placed
  | insert e =>
    obtain ⟨cursor,text,lineNum,index,mode⟩ := e
    cases cursor with
    | bof => simp [rowKey] at placed
    | eof => simp [rowKey] at placed
    | beforeAnchor anchor =>
      obtain ⟨low,high⟩ := inBounds anchor (by simp [getEditAnchors, getCursorAnchors])
      refine found anchor.line text low high ?_
      cases mode with
      | literal =>
        obtain rfl : beforeKey anchor.line = key := by simpa [rowKey] using placed
        have row : text ∈ edits.filterMap (beforeRow? anchor.line) :=
          List.mem_filterMap.mpr ⟨_,mem,by simp [beforeRow?]⟩
        simp [placedRows, mem_placeAll, rowsAt, row]
      | replacement =>
        obtain rfl : outputKey anchor.line = key := by simpa [rowKey] using placed
        have row : text ∈ edits.filterMap (replacementRow? anchor.line) :=
          List.mem_filterMap.mpr ⟨_,mem,by simp [replacementRow?]⟩
        simp [placedRows, mem_placeAll, rowsAt, row]
    | afterAnchor anchor =>
      obtain ⟨low,high⟩ := inBounds anchor (by simp [getEditAnchors, getCursorAnchors])
      refine found anchor.line text low high ?_
      cases mode with
      | literal =>
        obtain rfl : afterKey anchor.line = key := by simpa [rowKey] using placed
        have row : text ∈ edits.filterMap (afterRow? anchor.line) :=
          List.mem_filterMap.mpr ⟨_,mem,by simp [afterRow?]⟩
        simp [placedRows, mem_placeAll, rowsAt, row]
      | replacement =>
        obtain rfl : outputKey anchor.line = key := by simpa [rowKey] using placed
        have row : text ∈ edits.filterMap (replacementRow? anchor.line) :=
          List.mem_filterMap.mpr ⟨_,mem,by simp [replacementRow?]⟩
        simp [placedRows, mem_placeAll, rowsAt, row]

theorem body_cases {edits : List AppliedEdit} (mem : x ∈ placedBody edits fileLines) :
    (∃ n, x.key = lineKey n ∧ (⟨lineKey n,x.text⟩ : PlacedLine) ∈ placedBody edits fileLines) ∨
      (isLineKey x.key = false ∧ ∃ edit ∈ edits, rowKey edit = some x.key) := by
  obtain ⟨i,inside,row⟩ := mem_linePass.mp mem
  rcases placedRows_cases row with ⟨same,_⟩ | ⟨key,edit⟩
  · refine .inl ⟨1 + i,by rw [same],?_⟩
    rw [same] at mem ⊢
    exact mem
  · obtain ⟨beforeFree,outputFree,afterFree⟩ := row_key_free (1 + i)
    refine .inr ⟨?_,edit⟩
    rcases key with here | here | here
    · rw [here, beforeFree]
    · rw [here, outputFree]
    · rw [here, afterFree]

/- Rows at the head and at the end -/

section ends
variable {edits : List AppliedEdit} {fileLines : List JsString}

variable {x last : PlacedLine} {top : Nat} {tail : List JsString}

theorem head_cases {head : List JsString} {placed : List PlacedLine} (mem : x ∈ placeHead head placed) : x.key = 0 ∨ x ∈ placed := by
  rw [placeHead] at mem
  split at mem
  · exact .inl (mem_placeAll.mp mem).1
  · rcases List.mem_append.mp mem with row | body
    · exact .inl (mem_placeAll.mp row).1
    · exact .inr body

theorem head_keys (mem : x ∈ placeHead (headRows edits) (placedBody edits fileLines)) :
    x.key < 8 * fileLines.length + 8 := by
  rcases head_cases mem with zero | body
  · omega
  · exact (body_keys body).2

theorem head_ordered : Ordered PlacedLine.key isLineKey (placeHead (headRows edits) (placedBody edits fileLines)) := by
  rw [placeHead]
  split
  · exact placeAll_ordered rfl _
  · refine List.pairwise_append.mpr ⟨placeAll_ordered rfl _,body_ordered edits fileLines,?_⟩
    intro a early b late
    have low := (body_keys late).1
    rw [InOrder, (mem_placeAll.mp early).1]
    omega

theorem head_last (found : (placeHead (headRows edits) (placedBody edits fileLines)).getLast? = some last) :
    last.key = 0 ∨ (placedBody edits fileLines).getLast? = some last := by
  rw [placeHead] at found
  split at found
  · exact .inl (mem_placeAll.mp (List.mem_of_getLast? found)).1
  · rw [List.getLast?_append] at found
    cases body : (placedBody edits fileLines).getLast? with
    | none =>
      rw [body, Option.none_or] at found
      exact .inl (mem_placeAll.mp (List.mem_of_getLast? found)).1
    | some row =>
      rw [body, Option.some_or] at found
      exact .inr found

theorem end_cases {placed : List PlacedLine} (mem : x ∈ placeEnd top tail placed) :
    x ∈ placed ∨ x.key = top ∨
      (tail ≠ [] ∧ ∃ last, placed.getLast? = some last ∧ last.text = [] ∧ x.key = tailKey last) := by
  rw [placeEnd] at mem
  split at mem
  · exact .inl mem
  · rename_i some'
    split at mem
    · exact .inr (.inl (mem_placeAll.mp mem).1)
    · split at mem
      · rename_i last found
        split at mem
        · rename_i blank
          rcases List.mem_append.mp mem with front | final
          · rcases List.mem_append.mp front with early | row
            · exact .inl (List.dropLast_subset _ early)
            · exact .inr (.inr ⟨some',last,found,blank,(mem_placeAll.mp row).1⟩)
          · obtain rfl := List.mem_singleton.mp final
            exact .inl (List.mem_of_getLast? found)
        · rcases List.mem_append.mp mem with early | row
          · exact .inl early
          · exact .inr (.inl (mem_placeAll.mp row).1)
      · exact .inr (.inl (mem_placeAll.mp mem).1)

theorem placed_cases (mem : x ∈ placedText edits fileLines) :
    x ∈ placedBody edits fileLines ∨ x.key = 0 ∨ x.key = 8 * fileLines.length + 8 ∨
      (tailRows edits ≠ [] ∧ ∃ last, (placedBody edits fileLines).getLast? = some last ∧ last.text = [] ∧
        x.key = tailKey last) := by
  rcases end_cases mem with early | top | ⟨some',last,found,blank,key⟩
  · rcases head_cases early with zero | body
    · exact .inr (.inl zero)
    · exact .inl body
  · exact .inr (.inr (.inl top))
  · rcases head_last found with zero | body
    · refine .inr (.inl ?_)
      rw [key, tailKey, zero]
      rfl
    · exact .inr (.inr (.inr ⟨some',last,body,blank,key⟩))

theorem tailKey_free (last : PlacedLine) : isLineKey (tailKey last) = false := by
  rw [tailKey]
  split
  · rename_i line
    simp only [isLineKey, beq_iff_eq, beq_eq_false_iff_ne] at line ⊢
    omega
  · rename_i free
    simpa using free

theorem end_ordered (free : isLineKey top = false) {placed : List PlacedLine}
    (ordered : Ordered PlacedLine.key isLineKey placed) (below : ∀ x ∈ placed, x.key < top) :
    Ordered PlacedLine.key isLineKey (placeEnd top tail placed) := by
  rw [placeEnd]
  split
  · exact ordered
  · split
    · exact placeAll_ordered free _
    · split
      · rename_i last found
        have split' : placed = placed.dropLast ++ [last] := (List.dropLast_append_getLast? last found).symm
        split
        · have pieces := ordered
          rw [split', Ordered, List.pairwise_append] at pieces
          obtain ⟨front,_,across⟩ := pieces
          refine List.pairwise_append.mpr ⟨List.pairwise_append.mpr ⟨front,placeAll_ordered (tailKey_free last) _,?_⟩,
            List.pairwise_singleton _ _,?_⟩
          · intro a early b row
            have follows := across a early last (by simp)
            rw [InOrder, (mem_placeAll.mp row).1, tailKey]
            split
            · rename_i line
              have different : a.key ≠ last.key := by
                intro same
                have shared := follows.2 same
                rw [same, line] at shared
                contradiction
              have reached := follows.1
              refine ⟨by omega,?_⟩
              intro same
              simp only [isLineKey, beq_iff_eq, beq_eq_false_iff_ne] at line ⊢
              omega
            · exact follows
          · intro a front' b final
            rw [List.mem_singleton.mp final]
            rcases List.mem_append.mp front' with early | row
            · exact across a early last (by simp)
            · have key := (mem_placeAll.mp row).1
              have unused := tailKey_free last
              rw [InOrder, key]
              refine ⟨?_,fun _ => unused⟩
              rw [tailKey]
              split <;> omega
        · refine List.pairwise_append.mpr ⟨ordered,placeAll_ordered free _,?_⟩
          intro a early b row
          have reached := below a early
          rw [InOrder, (mem_placeAll.mp row).1]
          omega
      · exact placeAll_ordered free _

theorem placed_ordered : Ordered PlacedLine.key isLineKey (placedText edits fileLines) := by
  refine end_ordered ?_ head_ordered fun x mem => head_keys mem
  simp only [isLineKey, beq_eq_false_iff_ne]
  omega

/-- A blank text is taken over by rows at its head or end; any other keeps its lines. -/
theorem head_kept (notBlank : texts (placedBody edits fileLines) ≠ [[]]) (mem : x ∈ placedBody edits fileLines) :
    placeHead (headRows edits) (placedBody edits fileLines) = placeAll 0 (headRows edits) ++ placedBody edits fileLines ∧
      texts (placeHead (headRows edits) (placedBody edits fileLines)) ≠ [[]] := by
  have head : placeHead (headRows edits) (placedBody edits fileLines) =
      placeAll 0 (headRows edits) ++ placedBody edits fileLines := by
    rw [placeHead, if_neg fun both => notBlank both.2]
  refine ⟨head,?_⟩
  rw [head, texts_append, texts_placeAll]
  intro blank
  have total : (headRows edits).length + (texts (placedBody edits fileLines)).length = 1 := by
    rw [← List.length_append, blank]
    rfl
  have positive : 0 < (texts (placedBody edits fileLines)).length := by
    rw [texts, List.length_map]
    exact List.length_pos_of_mem mem
  have noHead : headRows edits = [] := List.length_eq_zero_iff.mp (by omega)
  rw [noHead, List.nil_append] at blank
  exact notBlank blank

theorem body_in_placed (notBlank : texts (placedBody edits fileLines) ≠ [[]]) (mem : x ∈ placedBody edits fileLines) : x ∈ placedText edits fileLines := by
  obtain ⟨head,notBlankHead⟩ := head_kept notBlank mem
  have inHead : x ∈ placeHead (headRows edits) (placedBody edits fileLines) := by
    rw [head]
    exact List.mem_append_right _ mem
  by_cases none' : tailRows edits = []
  · rw [placedText, placeEnd, if_pos none']
    exact inHead
  · rw [placedText, placeEnd, if_neg none', if_neg notBlankHead]
    split
    · rename_i last found
      have split' := (List.dropLast_append_getLast? last found).symm
      split
      · rw [split'] at inHead
        rcases List.mem_append.mp inHead with early | final
        · exact List.mem_append_left _ (List.mem_append_left _ early)
        · exact List.mem_append_right _ final
      · exact List.mem_append_left _ inHead
    · rename_i empty
      rw [List.getLast?_eq_none_iff.mp empty] at inHead
      exact absurd inHead List.not_mem_nil

theorem tail_in_placed (notBlank : texts (placedBody edits fileLines) ≠ [[]])
    (found : (placedBody edits fileLines).getLast? = some last) (blank : last.text = []) (some' : tailRows edits ≠ []) : ∃ x ∈ placedText edits fileLines, x.key = tailKey last := by
  obtain ⟨head,notBlankHead⟩ := head_kept notBlank (List.mem_of_getLast? found)
  have final : (placeHead (headRows edits) (placedBody edits fileLines)).getLast? = some last := by
    rw [head, List.getLast?_append, found, Option.some_or]
  obtain ⟨row,rest,rows⟩ := List.exists_cons_of_ne_nil some'
  refine ⟨⟨tailKey last,row⟩,?_,rfl⟩
  rw [placedText, placeEnd, if_neg some', if_neg notBlankHead, final]
  simp [blank, mem_placeAll, rows]

end ends

end Hashline
