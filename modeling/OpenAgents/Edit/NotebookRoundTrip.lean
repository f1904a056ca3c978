import OpenAgents.Edit.Notebook
import OpenAgents.Lib.TextLines

/- What comes back when a notebook is turned into text and the text is applied to it, and
   that no original cell is used twice. -/
namespace Edit
open JsText JsJson TextLines Hashline

theorem join_notebook_source (source : JsString) : (splitNotebookSource source).flatten = source := by
  induction source with
  | nil => rfl
  | cons c rest ih =>
    rw [splitNotebookSource]
    split
    · simp [ih]
    · split
      · rename_i none'
        rw [none'] at ih
        simpa using ih
      · rename_i piece pieces some'
        rw [some', List.flatten_cons] at ih
        rw [List.flatten_cons, List.cons_append, ih]

theorem readLiteral_append (token s : JsString) : readLiteral token (token ++ s) = some s := by
  have here : startsWith (token ++ s) token = true := List.isPrefixOf_iff_prefix.mpr (List.prefix_append _ _)
  rw [readLiteral, if_pos here, List.drop_left]

theorem readCellIndex_decimal (index : Nat) : readCellIndex (js " cell:" ++ decimal index) = some (some index) := by
  have digits : (decimal index).all isDigit = true := List.all_eq_true.mpr (decimal_digits index)
  have filled : (js " cell:" ++ decimal index).isEmpty = false := rfl
  have some' : (decimal index).isEmpty = false := by
    cases written : decimal index with
    | nil =>
      have value := decimal_value index
      rw [written] at value
      obtain rfl : index = 0 := value.symm
      exact absurd written (by decide)
    | cons c rest => rfl
  simp [readCellIndex, filled, readLiteral_append, some', digits, decimal_value]

theorem read_own_marker (cellType : NotebookCellType) (index : Nat) :
    parseVirtualCellMarker (cellMarker cellType index) = some ⟨cellType,some index⟩ := by
  have rest : cellMarker cellType index =
      js "# %% [" ++ ((cellType.name ++ js "]") ++ (js " cell:" ++ decimal index)) := by
    simp [cellMarker, js, utf16]
  have own : readMarkerOf ((cellType.name ++ js "]") ++ (js " cell:" ++ decimal index)) cellType =
      some ⟨cellType,some index⟩ := by
    simp only [readMarkerOf, readLiteral_append, readCellIndex_decimal, bind, Option.bind]
  rw [rest, parseVirtualCellMarker, readLiteral_append]
  cases cellType with
  | code =>
    simp only [bind, Option.bind, List.findSome?_cons, own]
  | markdown =>
    have other : readMarkerOf ((NotebookCellType.markdown.name ++ js "]") ++ (js " cell:" ++ decimal index)) .code = none := rfl
    simp only [bind, Option.bind, List.findSome?_cons, other, own]
  | raw =>
    have first : readMarkerOf ((NotebookCellType.raw.name ++ js "]") ++ (js " cell:" ++ decimal index)) .code = none := rfl
    have second : readMarkerOf ((NotebookCellType.raw.name ++ js "]") ++ (js " cell:" ++ decimal index)) .markdown = none := rfl
    simp only [bind, Option.bind, List.findSome?_cons, first, second, own]

def Unmarked (lines : List JsString) : Prop := ∀ line ∈ lines, parseVirtualCellMarker line = none

instance (lines : List JsString) : Decidable (Unmarked lines) :=
  inferInstanceAs (Decidable (∀ line ∈ lines, parseVirtualCellMarker line = none))

theorem parse_marker (displayPath : JsString) (current : Option OpenCell) {line : JsString} {marker : CellMarker}
    (marks : parseVirtualCellMarker line = some marker) (rest : List JsString) :
    parseCells displayPath current (line :: rest) = (do
      let later ← parseCells displayPath (some ⟨marker,[]⟩) rest
      .ok ((current.map OpenCell.flush).toList ++ later)) := by
  rw [parseCells]
  simp only [marks]

theorem parse_plain (displayPath : JsString) (cell : OpenCell) {line : JsString}
    (plain : parseVirtualCellMarker line = none) (rest : List JsString) :
    parseCells displayPath (some cell) (line :: rest) =
      parseCells displayPath (some ⟨cell.marker,cell.lines ++ [line]⟩) rest := by
  rw [parseCells.eq_def]
  simp only [plain]

theorem parse_unmarked (displayPath : JsString) (cell : OpenCell) {lines : List JsString} (unmarked : Unmarked lines)
    (rest : List JsString) :
    parseCells displayPath (some cell) (lines ++ rest) =
      parseCells displayPath (some ⟨cell.marker,cell.lines ++ lines⟩) rest := by
  induction lines generalizing cell with
  | nil => simp
  | cons line lines ih =>
    have plain := unmarked line List.mem_cons_self
    rw [List.cons_append, parse_plain displayPath cell plain]
    rw [ih ⟨cell.marker,cell.lines ++ [line]⟩ fun other mem => unmarked other (List.mem_cons_of_mem _ mem)]
    simp

def sourceLines (cell : NotebookCell) : List JsString :=
  if (sourceToText cell.source).isEmpty then [] else splitLines (sourceToText cell.source)

def cellLines (cell : NotebookCell) (index : Nat) : List JsString := cellMarker cell.cellType index :: sourceLines cell

def notebookLines (cells : List NotebookCell) (start : Nat) : List JsString :=
  ((cells.zipIdx start).map fun (cell, index) => cellLines cell index).flatten

def ownParsed (cell : NotebookCell) (index : Nat) : ParsedVirtualCell :=
  ⟨⟨cell.cellType,some index⟩,sourceToText cell.source⟩

theorem join_sourceLines (cell : NotebookCell) : joinLines (sourceLines cell) = sourceToText cell.source := by
  rw [sourceLines]
  split
  · rename_i blank
    rw [List.isEmpty_iff.mp blank]
    rfl
  · exact join_split _

theorem join_cellLines (cell : NotebookCell) (index : Nat) : joinLines (cellLines cell index) = cellToText cell index := by
  rw [cellLines, sourceLines, cellToText]
  by_cases blank : (sourceToText cell.source).isEmpty = true
  · simp [blank, joinLines]
  · have filled : splitLines (sourceToText cell.source) ≠ [] := List.splitOn_ne_nil lineFeed _
    obtain ⟨first,rest,lines⟩ := List.exists_cons_of_ne_nil filled
    have text := join_split (sourceToText cell.source)
    rw [lines, join_cons] at text
    simp only [blank, Bool.false_eq_true, if_false, lines, join_cons]
    rw [← text]
    simp [precede]

theorem editable_text_lines (notebook : NotebookDocument) :
    notebookToEditableText notebook = joinLines (notebookLines notebook.cells 0) := by
  rw [notebookToEditableText, notebookLines, ← join_groups, List.map_map]
  · refine congrArg joinLines (List.map_congr_left ?_)
    intro entry _
    exact (join_cellLines entry.1 entry.2).symm
  · intro block mem
    obtain ⟨entry,_,rfl⟩ := List.mem_map.mp mem
    exact List.cons_ne_nil _ _

theorem unmarked_sourceLines {cell : NotebookCell} (unmarked : Unmarked (splitLines (sourceToText cell.source))) :
    Unmarked (sourceLines cell) := by
  rw [sourceLines]
  split
  · intro line mem
    exact absurd mem List.not_mem_nil
  · exact unmarked

/-- The text of a notebook without marker lines in its cells is read cell by cell. -/
theorem parse_notebook (displayPath : JsString) {cells : List NotebookCell} (start : Nat)
    (unmarked : ∀ cell ∈ cells, Unmarked (splitLines (sourceToText cell.source))) (current : Option OpenCell) :
    parseCells displayPath current (notebookLines cells start) =
      .ok ((current.map OpenCell.flush).toList ++ (cells.zipIdx start).map fun (cell, index) => ownParsed cell index) := by
  induction cells generalizing start current with
  | nil => simp [notebookLines, parseCells]
  | cons cell cells ih =>
    have own := unmarked_sourceLines (unmarked cell List.mem_cons_self)
    have later : ∀ other ∈ cells, Unmarked (splitLines (sourceToText other.source)) :=
      fun other mem => unmarked other (List.mem_cons_of_mem _ mem)
    have lines : notebookLines (cell :: cells) start =
        cellMarker cell.cellType start :: (sourceLines cell ++ notebookLines cells (start + 1)) := by
      simp [notebookLines, cellLines]
    have flushed : OpenCell.flush ⟨⟨cell.cellType,some start⟩,[] ++ sourceLines cell⟩ = ownParsed cell start := by
      rw [OpenCell.flush, List.nil_append, join_sourceLines]
      rfl
    rw [lines, parse_marker displayPath current (read_own_marker cell.cellType start), parse_unmarked displayPath _ own,
      ih (start + 1) later]
    simp only [bind, Except.bind, Option.map_some, flushed]
    rfl

theorem notebookLines_clean (cells : List NotebookCell) (start : Nat) :
    ∀ line ∈ notebookLines cells start, lineFeed ∉ line := by
  intro line mem
  obtain ⟨block,among,here⟩ := List.mem_flatten.mp mem
  obtain ⟨entry,_,rfl⟩ := List.mem_map.mp among
  rcases List.mem_cons.mp here with rfl | source
  · have digits := decimal_digits entry.2
    intro found
    have name : ∀ cellType : NotebookCellType, lineFeed ∉ js "# %% [" ++ cellType.name ++ js "] cell:" := by
      intro cellType
      cases cellType <;> decide
    rcases List.mem_append.mp found with front | digit
    · exact name entry.1.cellType front
    · exact absurd (digits lineFeed digit) (by decide)
  · rw [sourceLines] at source
    split at source
    · exact absurd source List.not_mem_nil
    · exact split_clean _ line source

theorem parse_editable_text {notebook : NotebookDocument} (displayPath : JsString)
    (unmarked : ∀ cell ∈ notebook.cells, Unmarked (splitLines (sourceToText cell.source))) :
    parseNotebookEditableText (notebookToEditableText notebook) displayPath =
      .ok ((notebook.cells.zipIdx 0).map fun (cell, index) => ownParsed cell index) := by
  have lines : (if (notebookToEditableText notebook).isEmpty then [] else splitLines (notebookToEditableText notebook)) =
      notebookLines notebook.cells 0 := by
    cases cells : notebook.cells with
    | nil =>
      rw [editable_text_lines, cells]
      rfl
    | cons cell rest =>
      have some' : notebookLines (cell :: rest) 0 ≠ [] := by simp [notebookLines, cellLines]
      have filled : (joinLines (notebookLines (cell :: rest) 0)).isEmpty = false := by
        have front : notebookLines (cell :: rest) 0 =
            cellMarker cell.cellType 0 :: (sourceLines cell ++ notebookLines rest 1) := by
          simp [notebookLines, cellLines]
        rw [front, join_cons]
        cases cell.cellType <;> rfl
      rw [editable_text_lines, cells, filled, if_neg (by simp), split_join _ (notebookLines_clean _ 0) some']
  rw [parseNotebookEditableText, lines]
  exact parse_notebook displayPath 0 unmarked none

/- Placing the cells -/

theorem place_own (cells : List NotebookCell) (used : List Nat) (start : Nat) (back : List NotebookCell)
    (rest : cells.drop start = back) (fresh : ∀ index ∈ used, index < start) :
    placeCells cells used ((back.zipIdx start).map fun (cell, index) => ownParsed cell index) =
      (back.zipIdx start).map fun (cell, index) => ⟨reuseCell cell (ownParsed cell index),some index⟩ := by
  induction back generalizing start used with
  | nil => rfl
  | cons cell back ih =>
    have here : cells[start]? = some cell := by
      rw [← List.head?_drop, rest]
      rfl
    have later : cells.drop (start + 1) = back := by rw [← List.tail_drop, rest, List.tail_cons]
    have unused : start ∉ used := fun mem => Nat.lt_irrefl start (fresh start mem)
    have chosen : unusedOriginal cells used (ownParsed cell start) = some (start, cell) := by
      simp [unusedOriginal, ownParsed, here, unused]
    have grown : ∀ index ∈ start :: used, index < start + 1 := by
      intro index mem
      rcases List.mem_cons.mp mem with rfl | old
      · omega
      · have := fresh index old
        omega
    rw [List.zipIdx_cons, List.map_cons, List.map_cons, placeCells]
    simp only [chosen]
    rw [ih (start :: used) (start + 1) later grown]

theorem unusedOriginal_spec {cells : List NotebookCell} {used : List Nat} {parsedCell : ParsedVirtualCell} {index : Nat}
    {original : NotebookCell} (chosen : unusedOriginal cells used parsedCell = some (index, original)) :
    cells[index]? = some original ∧ index ∉ used := by
  simp only [unusedOriginal, Option.bind_eq_bind, Option.bind_eq_some_iff] at chosen
  obtain ⟨marked,_,found,there,rest⟩ := chosen
  split at rest
  · contradiction
  · rename_i unused
    cases rest
    exact ⟨there,unused⟩

theorem placed_origins (cells : List NotebookCell) (used : List Nat) (parsedCells : List ParsedVirtualCell) :
    ((placeCells cells used parsedCells).filterMap PlacedCell.origin).Nodup ∧
      ∀ index ∈ (placeCells cells used parsedCells).filterMap PlacedCell.origin, index ∉ used := by
  induction parsedCells generalizing used with
  | nil => exact ⟨List.nodup_nil,by simp [placeCells]⟩
  | cons parsedCell parsedCells ih =>
    rw [placeCells]
    cases chosen : unusedOriginal cells used parsedCell with
    | none =>
      simp only [List.filterMap_cons]
      exact ih used
    | some found =>
      obtain ⟨index,original⟩ := found
      obtain ⟨distinct,outside⟩ := ih (index :: used)
      have unused := (unusedOriginal_spec chosen).2
      simp only [List.filterMap_cons]
      constructor
      · refine List.nodup_cons.mpr ⟨?_,distinct⟩
        intro again
        exact outside index again List.mem_cons_self
      · intro other mem
        rcases List.mem_cons.mp mem with rfl | later
        · exact unused
        · intro old
          exact outside other later (List.mem_cons_of_mem _ old)

/- A reused original, changed by the text given for it, or a new cell. -/
def PlacedFrom (cells : List NotebookCell) (parsedCell : ParsedVirtualCell) (placed : PlacedCell) : Prop :=
  match placed.origin with
  | some index => ∃ original, cells[index]? = some original ∧ placed.cell = reuseCell original parsedCell
  | none => placed.cell = createNotebookCell parsedCell.marker.cellType parsedCell.source

theorem placed_from (cells : List NotebookCell) (used : List Nat) (parsedCells : List ParsedVirtualCell) :
    List.Forall₂ (PlacedFrom cells) parsedCells (placeCells cells used parsedCells) := by
  induction parsedCells generalizing used with
  | nil => exact List.Forall₂.nil
  | cons parsedCell parsedCells ih =>
    rw [placeCells]
    cases chosen : unusedOriginal cells used parsedCell with
    | none => exact List.Forall₂.cons rfl (ih used)
    | some found =>
      obtain ⟨index,original⟩ := found
      exact List.Forall₂.cons ⟨original,(unusedOriginal_spec chosen).1,rfl⟩ (ih (index :: used))

/-- What comes back of a cell whose text is unchanged: outputs and an execution count belong to code cells only. -/
structure KeepsCell (original cell : NotebookCell) : Prop where
  cellType : cell.cellType = original.cellType
  source : sourceToText cell.source = sourceToText original.source
  metadata : cell.metadata = original.metadata
  outputs : cell.outputs = if original.cellType = .code then orDefault original.outputs (.arr []) else none
  executionCount : cell.executionCount = if original.cellType = .code then orDefault original.executionCount .null else none
  others : cell.others = original.others

theorem keeps_all (cells : List NotebookCell) (start : Nat) :
    List.Forall₂ KeepsCell cells ((cells.zipIdx start).map fun (cell, index) => reuseCell cell (ownParsed cell index)) := by
  induction cells generalizing start with
  | nil => exact List.Forall₂.nil
  | cons cell cells ih =>
    have own : KeepsCell cell (reuseCell cell (ownParsed cell start)) :=
      ⟨rfl,join_notebook_source _,rfl,rfl,rfl,rfl⟩
    exact List.Forall₂.cons own (ih (start + 1))

/-- A notebook comes back cell by cell from its own text, and no text uses an original cell twice. -/
theorem notebook_round_trip (notebook : NotebookDocument) (displayPath : JsString) :
    ((∀ cell ∈ notebook.cells, Unmarked (splitLines (sourceToText cell.source))) →
      ∃ cells, applyNotebookEditableText notebook (notebookToEditableText notebook) displayPath =
        .ok { notebook with cells } ∧ List.Forall₂ KeepsCell notebook.cells cells) ∧
    ∀ text parsedCells, parseNotebookEditableText text displayPath = .ok parsedCells →
      applyNotebookEditableText notebook text displayPath =
        .ok { notebook with cells := (placeCells notebook.cells [] parsedCells).map PlacedCell.cell } ∧
      List.Forall₂ (PlacedFrom notebook.cells) parsedCells (placeCells notebook.cells [] parsedCells) ∧
      ((placeCells notebook.cells [] parsedCells).filterMap PlacedCell.origin).Nodup := by
  constructor
  · intro unmarked
    have parsed := parse_editable_text displayPath unmarked
    have placed := place_own notebook.cells [] 0 notebook.cells rfl (by simp)
    refine ⟨(notebook.cells.zipIdx 0).map fun (cell, index) => reuseCell cell (ownParsed cell index),?_,?_⟩
    · simp only [applyNotebookEditableText, parsed, bind, Except.bind, placed, List.map_map]
      rfl
    · exact keeps_all notebook.cells 0
  · intro text parsedCells parsed
    refine ⟨?_,placed_from notebook.cells [] parsedCells,(placed_origins notebook.cells [] parsedCells).1⟩
    simp only [applyNotebookEditableText, parsed, bind, Except.bind]

def titledCell : NotebookCell := ⟨.markdown,some (.text (js "# Title\n")),some (.obj []),none,none,[]⟩
def printingCell : NotebookCell :=
  ⟨.code,some (.pieces [js "x = 1\n", js "x"]),none,some (.num (js "1")),some (.arr [.str (js "1")]),[]⟩

theorem notebook_round_trip_two_cells :
    ∃ cells, applyNotebookEditableText ⟨[titledCell, printingCell],[]⟩
        (notebookToEditableText ⟨[titledCell, printingCell],[]⟩) (js "n.ipynb") = .ok ⟨cells,[]⟩ ∧
      List.Forall₂ KeepsCell [titledCell, printingCell] cells :=
  (notebook_round_trip ⟨[titledCell, printingCell],[]⟩ (js "n.ipynb")).1 (by decide)

def storedOutputs : NotebookCell := { titledCell with outputs := some (.arr [.str (js "kept")]) }
def markedCell : NotebookCell := { printingCell with source := some (.text (js "a\n# %% [code]\nb")) }

/-- A markdown cell gives up its outputs, and a line that looks like a marker opens a cell of its own. -/
theorem notebook_is_changed :
    ((applyNotebookEditableText ⟨[storedOutputs],[]⟩ (notebookToEditableText ⟨[storedOutputs],[]⟩) (js "n.ipynb")).map
        fun next => next.cells.map NotebookCell.outputs) = .ok [none] ∧ storedOutputs.outputs ≠ none ∧
    ((applyNotebookEditableText ⟨[markedCell],[]⟩ (notebookToEditableText ⟨[markedCell],[]⟩) (js "n.ipynb")).map
        fun next => next.cells.length) = .ok 2 := by
  refine ⟨by decide +kernel,by decide,by decide +kernel⟩

end Edit
