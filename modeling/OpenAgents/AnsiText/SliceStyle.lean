import OpenAgents.AnsiText.TruncatePrefix

/- Which characters the column slices return, and in which state. Sequences before the range wait for its
   first character, those inside it do not: between the two the order of a line can be lost. -/
namespace AnsiText
open JsText WhileLoop RunScanner

/- A line as its escape sequences and its cells. -/
abbrev Event := JsString ⊕ Cell

def GoodEvent : Event → Prop
  | .inl q => escapes.sequence q = some q.length
  | .inr cell => plainUnits cell.units

structure Placed where
  cell : Cell
  column : Nat
  state : AnsiState

/-- The cells of a line with the columns they start in and the states they are shown in. -/
def placed : Nat → AnsiState → List Event → List Placed
  | _, _, [] => []
  | column, state, .inl q :: later => placed column (readEscape state q) later
  | column, state, .inr cell :: later => ⟨cell,column,state⟩ :: placed (column + cell.width) state later

def shown (chosen : List Placed) : List (CodeUnit × AnsiState) := chosen.flatMap fun p => p.cell.units.map fun u => (u, p.state)

def placedWidth (chosen : List Placed) : Nat := (chosen.map fun p => p.cell.width).sum

/- A NUL shows nothing. -/
def visible (characters : List (CodeUnit × AnsiState)) : List (CodeUnit × AnsiState) := characters.filter fun c => c.1 != 0

/-- A text shows these cells in their states, and a width is theirs. -/
structure Shows (text : JsString) (width : Nat) (chosen : List Placed) : Prop where
  characters : visible (styled text) = visible (shown chosen)
  measured : width = placedWidth chosen

section events
variable (host : Segmentation) (tabWidth : Nat)

def pieceEvents : Piece CodeUnit → List Event
  | .sequence q => [.inl q]
  | .lone _ => []
  | .run segment => (cells host tabWidth segment).map .inr

def events (line : JsString) : List Event := (pieces escapes line).flatMap (pieceEvents host tabWidth)

/-- The cells of a line as a fresh terminal shows it. -/
def lineCells (line : JsString) : List Placed := placed 0 fresh (events host tabWidth line)

variable {host tabWidth}

theorem good_events {line : JsString} (well : WellEscaped line) : ∀ event ∈ events host tabWidth line, GoodEvent event := by
  intro event mem
  obtain ⟨piece,among,here⟩ := List.mem_flatMap.mp mem
  have good := good_pieces well piece among
  cases piece with
  | lone c => cases here
  | sequence q =>
    obtain rfl := List.mem_singleton.mp here
    exact good
  | run segment =>
    obtain ⟨cell,inside,rfl⟩ := List.mem_map.mp here
    intro u unit
    refine good u ?_
    rw [← @cells_units host tabWidth segment]
    exact List.mem_flatMap.mpr ⟨cell,inside,unit⟩

end events

/- Event by event, until it stops for good. -/
def eventsRun {S : Type} (stops : S → Bool) (step : S → Event → S) : S → List Event → S
  | s, [] => s
  | s, event :: later => if stops s then s else eventsRun stops step (step s event) later

section run
variable {S : Type} {stops : S → Bool} {step : S → Event → S}

theorem eventsRun_stopped {s : S} (stopped : stops s = true) (left : List Event) : eventsRun stops step s left = s := by
  cases left with
  | nil => rfl
  | cons event later => rw [eventsRun, if_pos stopped]

theorem eventsRun_append (s : S) (first later : List Event) :
    eventsRun stops step s (first ++ later) = eventsRun stops step (eventsRun stops step s first) later := by
  induction first generalizing s with
  | nil => rfl
  | cons event first ih =>
    rw [List.cons_append, eventsRun, eventsRun]
    cases stopped : stops s with
    | true =>
      rw [if_pos rfl, if_pos rfl, eventsRun_stopped stopped]
    | false =>
      rw [if_neg (by simp), if_neg (by simp)]
      exact ih _

/-- A scanner that takes its runs cell by cell takes the whole line event by event. -/
theorem runPieces_events {host : Segmentation} {tabWidth : Nat} (scanner : Scanner CodeUnit S) {left : List (Piece CodeUnit)}
    (good : ∀ piece ∈ left, GoodPiece piece) (sequence : ∀ s q, scanner.sequence s q = step s (.inl q))
    (run : ∀ s segment, scanner.run s segment =
      (eventsRun (fun s => !scanner.running s) step s ((cells host tabWidth segment).map .inr), true)) (s : S) :
    (runPieces scanner s left).1 = eventsRun (fun s => !scanner.running s) step s (left.flatMap (pieceEvents host tabWidth)) := by
  induction left generalizing s with
  | nil => rfl
  | cons piece later ih =>
    have here := good piece List.mem_cons_self
    have next := ih fun other mem => good other (List.mem_cons_of_mem _ mem)
    rw [List.flatMap_cons, eventsRun_append]
    cases on : scanner.running s with
    | false =>
      have stopped : (!scanner.running s) = true := by rw [on]; rfl
      have stays := @eventsRun_stopped S (fun s => !scanner.running s) step s stopped
      rw [runPieces_stopped on, stays, stays]
    | true =>
      cases piece with
      | lone c => exact absurd here id
      | sequence q =>
        rw [runPieces_sequence on, next, sequence, pieceEvents, eventsRun, if_neg (by simp [on])]
        rfl
      | run segment => rw [runPieces_goes on (run s segment), next, pieceEvents]

end run

theorem placed_column {column : Nat} {state : AnsiState} {left : List Event} {p : Placed} (mem : p ∈ placed column state left) :
    column ≤ p.column := by
  induction left generalizing column state with
  | nil => cases mem
  | cons event later ih =>
    cases event with
    | inl q => exact ih mem
    | inr cell =>
      rcases List.mem_cons.mp mem with rfl | further
      · exact Nat.le_refl _
      · exact (Nat.le_add_right _ _).trans (ih further)

theorem shown_append (first later : List Placed) : shown (first ++ later) = shown first ++ shown later := List.flatMap_append

theorem visible_append_chars (first later : List (CodeUnit × AnsiState)) : visible (first ++ later) = visible first ++ visible later :=
  List.filter_append first later

/-- Units written after a settled text are shown in its state. -/
theorem styled_run {text run : JsString} (settled : WellEscaped text) (plain : plainUnits run) :
    styled (text ++ run) = styled text ++ run.map fun u => (u, stateFrom fresh (symbols escapes text)) := by
  rw [styled, symbols_append escapes settled, symbols_plain_run plain, styledFrom_append, styledFrom_run]
  rfl

theorem styled_sequence {text q : JsString} (settled : WellEscaped text) (whole : escapes.sequence q = some q.length) :
    styled (text ++ q) = styled text := by
  rw [styled, symbols_append escapes settled, symbols_whole escapes whole, styledFrom_append]
  exact List.append_nil _

theorem state_run {text run : JsString} (settled : WellEscaped text) (plain : plainUnits run) :
    stateFrom fresh (symbols escapes (text ++ run)) = stateFrom fresh (symbols escapes text) := by
  rw [symbols_append escapes settled, symbols_plain_run plain, stateFrom_append, stateFrom_run]

theorem state_sequence {text q : JsString} (settled : WellEscaped text) (whole : escapes.sequence q = some q.length) :
    stateFrom fresh (symbols escapes (text ++ q)) = readEscape (stateFrom fresh (symbols escapes text)) q := by
  rw [symbols_append escapes settled, symbols_whole escapes whole, stateFrom_append]
  rfl

def stateOf (sequences : List JsString) : AnsiState := sequences.foldl readEscape fresh

section sequences
variable {sequences : List JsString}

/-- Sequences by themselves show nothing, and leave the state they are read to. -/
theorem sequences_only (whole : ∀ q ∈ sequences, escapes.sequence q = some q.length) {text : JsString} (settled : WellEscaped text) :
    WellEscaped (text ++ sequences.flatten) ∧ styled (text ++ sequences.flatten) = styled text ∧
      stateFrom fresh (symbols escapes (text ++ sequences.flatten)) = sequences.foldl readEscape (stateFrom fresh (symbols escapes text)) := by
  induction sequences generalizing text with
  | nil =>
    rw [List.flatten_nil, List.append_nil]
    exact ⟨settled,rfl,rfl⟩
  | cons q later ih =>
    have first := whole q List.mem_cons_self
    rw [List.flatten_cons, ← List.append_assoc, List.foldl_cons, ← state_sequence settled first, ← styled_sequence settled first]
    exact ih (fun other mem => whole other (List.mem_cons_of_mem _ mem)) (settled_append escapes settled (settled_whole escapes first))

end sequences

section slice
variable (startCol endCol : Nat) (strict : Bool)

/- A cell that starts in the columns, and ends in them where that is asked. -/
def inColumns (column : Nat) (cell : Cell) : Bool :=
  decide (startCol ≤ column) && decide (column < endCol) && (!strict || decide (column + cell.width ≤ endCol))

def within (p : Placed) : Bool := inColumns startCol endCol strict p.column p.cell

def showsSomething (cell : Cell) : Bool := cell.units.any fun u => u != 0

/-- Two states are the same where the first visible character of the columns is reached. -/
def SameAtFirst : AnsiState → AnsiState → Nat → List Event → Prop
  | _, _, _, [] => True
  | written, read, column, .inl q :: later => SameAtFirst (readEscape written q) (readEscape read q) column later
  | written, read, column, .inr cell :: later =>
      if inColumns startCol endCol strict column cell && showsSomething cell then written = read
      else SameAtFirst written read (column + cell.width) later

/-- Read with the sequences in the columns first and those before the columns after them, as they are written, and read in
    the order of the line, the sequences give the same state at the first visible character of the columns. -/
def OrderKept : List JsString → List JsString → Nat → List Event → Prop
  | _, _, _, [] => True
  | early, lead, column, .inl q :: later =>
      if startCol ≤ column then OrderKept early (lead ++ [q]) column later else OrderKept (early ++ [q]) lead column later
  | early, lead, column, .inr cell :: later =>
      if startCol ≤ column then
        SameAtFirst startCol endCol strict (stateOf (lead ++ early)) (stateOf (early ++ lead)) column (.inr cell :: later)
      else OrderKept early lead (column + cell.width) later

def sliceEvent (s : Slicing) : Event → Slicing
  | .inl q => if startCol ≤ s.currentCol then { s with out := s.out ++ q } else { s with pendingAnsi := s.pendingAnsi ++ [q] }
  | .inr cell => sliceCell startCol endCol strict s cell

def sliceRun (s : Slicing) (left : List Event) : Slicing :=
  eventsRun (fun s => !decide (s.currentCol < endCol)) (sliceEvent startCol endCol strict) s left

end slice

section slice
variable {startCol endCol : Nat} {strict : Bool}

theorem sliceCells_run (shown : List Cell) (s : Slicing) :
    sliceCells startCol endCol strict shown s = sliceRun startCol endCol strict s (shown.map .inr) := by
  induction shown generalizing s with
  | nil => rfl
  | cons cell later ih =>
    rw [sliceCells, sliceRun, List.map_cons, eventsRun, ih]
    by_cases past : endCol ≤ s.currentCol
    · rw [if_pos past, if_pos (by simpa using past)]
    · rw [if_neg past, if_neg (by simpa using past)]
      rfl

/-- Past the columns nothing is chosen. -/
theorem within_none {column : Nat} (past : endCol ≤ column) (state : AnsiState) (left : List Event) :
    (placed column state left).filter (within startCol endCol strict) = [] := by
  rw [List.filter_eq_nil_iff]
  intro p mem
  have far := placed_column mem
  simp only [within, inColumns, Bool.and_eq_true, decide_eq_true_eq]
  omega

/-- Once nothing waits, what is written is what the line shows from there, read from the state written. -/
theorem slice_flushed {left : List Event} (good : ∀ event ∈ left, GoodEvent event) (s : Slicing) (none : s.pendingAnsi = [])
    (started : startCol ≤ s.currentCol) (settled : WellEscaped s.out) :
    let ended := sliceRun startCol endCol strict s left
    let chosen := (placed s.currentCol (stateFrom fresh (symbols escapes s.out)) left).filter (within startCol endCol strict)
    WellEscaped ended.out ∧ styled ended.out = styled s.out ++ shown chosen ∧ ended.outW = s.outW + placedWidth chosen := by
  induction left generalizing s with
  | nil => exact ⟨settled,(List.append_nil _).symm,rfl⟩
  | cons event later ih =>
    have here := good event List.mem_cons_self
    have next := fun s none started settled => ih (fun other mem => good other (List.mem_cons_of_mem _ mem)) s none started settled
    by_cases past : endCol ≤ s.currentCol
    · rw [sliceRun, eventsRun_stopped (by simpa using past), within_none past]
      exact ⟨settled,(List.append_nil _).symm,rfl⟩
    · cases event with
      | inl q =>
        have whole : escapes.sequence q = some q.length := here
        have step : sliceRun startCol endCol strict s (.inl q :: later) =
            sliceRun startCol endCol strict { s with out := s.out ++ q } later := by
          rw [sliceRun, eventsRun, if_neg (by simpa using past), sliceEvent, if_pos started]
          rfl
        have rest := next { s with out := s.out ++ q } none started (settled_append escapes settled (settled_whole escapes whole))
        dsimp only at rest ⊢
        rw [step, placed, ← state_sequence settled whole, ← styled_sequence settled whole]
        exact rest
      | inr cell =>
        have plain : plainUnits cell.units := here
        by_cases fits : strict = false ∨ s.currentCol + cell.width ≤ endCol
        · have chosen : inColumns startCol endCol strict s.currentCol cell = true := by
            simp only [inColumns, Bool.and_eq_true, decide_eq_true_eq, Bool.or_eq_true, Bool.not_eq_true']
            exact ⟨⟨started,by omega⟩,fits⟩
          have step : sliceRun startCol endCol strict s (.inr cell :: later) = sliceRun startCol endCol strict
              ⟨s.out ++ cell.units,s.outW + cell.width,s.currentCol + cell.width,[]⟩ later := by
            rw [sliceRun, eventsRun, if_neg (by simpa using past), sliceEvent, sliceCell, if_pos ⟨started,fits⟩, none]
            simp only [List.flatten_nil, List.append_nil]
            rfl
          obtain ⟨ends,shows,width⟩ := next ⟨s.out ++ cell.units,s.outW + cell.width,s.currentCol + cell.width,[]⟩ rfl
            (by dsimp only; omega) (settled_append escapes settled (plain_settled plain))
          dsimp only at ends shows width ⊢
          rw [step, placed, List.filter_cons_of_pos (by simpa [within] using chosen)]
          rw [state_run settled plain, styled_run settled plain] at shows
          rw [state_run settled plain] at width
          refine ⟨ends,shows.trans (List.append_assoc _ _ _),width.trans ?_⟩
          rw [placedWidth, placedWidth, List.map_cons, List.sum_cons, Nat.add_assoc]
        · have beyond : endCol ≤ s.currentCol + cell.width := by
            rcases not_or.mp fits with ⟨_,far⟩
            omega
          have other : inColumns startCol endCol strict s.currentCol cell = false := by
            rw [← Bool.not_eq_true]
            simp only [inColumns, Bool.and_eq_true, decide_eq_true_eq, Bool.or_eq_true, Bool.not_eq_true']
            exact fun all => fits all.2
          have step : sliceRun startCol endCol strict s (.inr cell :: later) = { s with currentCol := s.currentCol + cell.width } := by
            rw [sliceRun, eventsRun, if_neg (by simpa using past), sliceEvent, sliceCell, if_neg (fun all => fits all.2),
              eventsRun_stopped (by simpa using beyond)]
          dsimp only
          rw [step, placed, List.filter_cons_of_neg (by simpa [within] using other), within_none beyond]
          exact ⟨settled,(List.append_nil _).symm,rfl⟩

theorem visible_units (cell : Cell) (state : AnsiState) : visible (cell.units.map fun u => (u, state)) =
    (withoutNul cell.units).map fun u => (u, state) := by
  rw [visible, List.filter_map]
  rfl

theorem nothing_visible {cell : Cell} (blank : showsSomething cell = false) : withoutNul cell.units = [] := by
  rw [withoutNul, List.filter_eq_nil_iff]
  simpa [showsSomething] using blank

theorem something_visible {cell : Cell} (shows : showsSomething cell = true) : ∃ u rest, withoutNul cell.units = u :: rest := by
  obtain ⟨u,mem,other⟩ := List.any_eq_true.mp shows
  cases units : withoutNul cell.units with
  | nil =>
    have inside : u ∈ withoutNul cell.units := List.mem_filter.mpr ⟨mem,other⟩
    rw [units] at inside
    cases inside
  | cons first rest => exact ⟨first,rest,rfl⟩

/-- Read from two states, a line shows the same in the columns exactly when the states agree at their first character. -/
theorem sameAtFirst_iff (written read : AnsiState) (column : Nat) (left : List Event) :
    visible (shown ((placed column written left).filter (within startCol endCol strict))) =
      visible (shown ((placed column read left).filter (within startCol endCol strict))) ↔
    SameAtFirst startCol endCol strict written read column left := by
  induction left generalizing written read column with
  | nil => exact ⟨fun _ => trivial,fun _ => rfl⟩
  | cons event later ih =>
    cases event with
    | inl q => exact ih _ _ _
    | inr cell =>
      rw [placed, placed, SameAtFirst]
      by_cases chosen : inColumns startCol endCol strict column cell = true
      · rw [List.filter_cons_of_pos (by simpa [within] using chosen), List.filter_cons_of_pos (by simpa [within] using chosen),
          ← List.singleton_append, shown_append, visible_append_chars, ← List.singleton_append (l := List.filter _ (placed _ read _)),
          shown_append, visible_append_chars]
        simp only [shown, List.flatMap_cons, List.flatMap_nil, List.append_nil, visible_units]
        by_cases shows : showsSomething cell = true
        · rw [chosen, shows, if_pos (by rfl)]
          obtain ⟨u,rest,units⟩ := something_visible shows
          constructor
          · intro same
            rw [units, List.map_cons, List.map_cons, List.cons_append, List.cons_append, List.cons.injEq] at same
            exact (Prod.mk.inj same.1).2
          · rintro rfl
            rfl
        · rw [Bool.not_eq_true] at shows
          rw [chosen, shows, if_neg (by simp), nothing_visible shows]
          exact ih _ _ _
      · rw [List.filter_cons_of_neg (by simpa [within] using chosen), List.filter_cons_of_neg (by simpa [within] using chosen),
          if_neg (by simp [chosen])]
        exact ih _ _ _

theorem inColumns_past {column : Nat} (past : endCol ≤ column) (cell : Cell) : inColumns startCol endCol strict column cell = false := by
  rw [← Bool.not_eq_true]
  simp only [inColumns, Bool.and_eq_true, decide_eq_true_eq]
  omega

theorem sameAtFirst_past (written read : AnsiState) {column : Nat} (past : endCol ≤ column) (left : List Event) :
    SameAtFirst startCol endCol strict written read column left := by
  induction left generalizing written read column with
  | nil => trivial
  | cons event later ih =>
    cases event with
    | inl q => exact ih _ _ past
    | inr cell =>
      rw [SameAtFirst, inColumns_past past, Bool.false_and, if_neg (by simp)]
      exact ih _ _ (by omega)

theorem orderKept_past {early lead : List JsString} {column : Nat} {left : List Event}
    (past : startCol ≤ column → endCol ≤ column) (ordered : endCol ≤ startCol ∨ endCol ≤ column) :
    OrderKept startCol endCol strict early lead column left := by
  induction left generalizing early lead column with
  | nil => trivial
  | cons event later ih =>
    rw [OrderKept.eq_def]
    cases event with
    | inl q =>
      dsimp only
      split
      · exact ih past ordered
      · exact ih past ordered
    | inr cell =>
      dsimp only
      split
      · rename_i started
        exact sameAtFirst_past _ _ (past started) _
      · exact ih (by omega) (by omega)

theorem placedWidth_state (keep : Placed → Bool) (same : ∀ cell column state state', keep ⟨cell,column,state⟩ = keep ⟨cell,column,state'⟩)
    (state state' : AnsiState) (column : Nat) (left : List Event) :
    placedWidth ((placed column state left).filter keep) = placedWidth ((placed column state' left).filter keep) := by
  induction left generalizing state state' column with
  | nil => rfl
  | cons event later ih =>
    cases event with
    | inl q => exact ih _ _ _
    | inr cell =>
      rw [placed, placed]
      by_cases chosen : keep ⟨cell,column,state⟩ = true
      · rw [List.filter_cons_of_pos chosen, List.filter_cons_of_pos ((same _ _ _ _).symm.trans chosen)]
        simp only [placedWidth, List.map_cons, List.sum_cons]
        exact congrArg (cell.width + ·) (ih _ _ _)
      · rw [List.filter_cons_of_neg chosen, List.filter_cons_of_neg (by rw [← same _ _ state]; exact chosen)]
        exact ih _ _ _

theorem stateOf_append (first later : List JsString) : stateOf (first ++ later) = later.foldl readEscape (stateOf first) :=
  List.foldl_append

theorem empty_settled : WellEscaped [] := plain_settled fun u mem => by cases mem

/-- What the slice writes up to its first character and after it. -/
theorem slice_written {left : List Event} (good : ∀ event ∈ left, GoodEvent event) {early lead : List JsString}
    (wholeEarly : ∀ q ∈ early, escapes.sequence q = some q.length) (wholeLead : ∀ q ∈ lead, escapes.sequence q = some q.length)
    {column : Nat} (late : lead ≠ [] → startCol ≤ column) :
    let ended := sliceRun startCol endCol strict ⟨lead.flatten,0,column,early⟩ left
    let chosen := (placed column (stateOf (early ++ lead)) left).filter (within startCol endCol strict)
    WellEscaped ended.out ∧ (visible (styled ended.out) = visible (shown chosen) ↔ OrderKept startCol endCol strict early lead column left) ∧
      ended.outW = placedWidth chosen := by
  have leads := sequences_only wholeLead empty_settled
  rw [List.nil_append] at leads
  have blank : styled lead.flatten = [] := by
    rw [leads.2.1, styled, symbols_nil]
    rfl
  induction left generalizing early lead column with
  | nil =>
    refine ⟨leads.1,⟨fun _ => trivial,fun _ => ?_⟩,rfl⟩
    exact congrArg visible blank
  | cons event later ih =>
    have here := good event List.mem_cons_self
    have further : ∀ other ∈ later, GoodEvent other := fun other mem => good other (List.mem_cons_of_mem _ mem)
    by_cases past : endCol ≤ column
    · have stopped : sliceRun startCol endCol strict ⟨lead.flatten,0,column,early⟩ (event :: later) = ⟨lead.flatten,0,column,early⟩ :=
        eventsRun_stopped (by simpa using past) _
      dsimp only
      rw [stopped, within_none past]
      exact ⟨leads.1,⟨fun _ => orderKept_past (fun _ => past) (.inr past),fun _ => congrArg visible blank⟩,rfl⟩
    · have running : ¬ (!decide (column < endCol)) = true := by simpa using past
      cases event with
      | inl q =>
        have whole : escapes.sequence q = some q.length := here
        have wholes : ∀ {qs : List JsString}, (∀ q ∈ qs, escapes.sequence q = some q.length) →
            ∀ p ∈ qs ++ [q], escapes.sequence p = some p.length := by
          intro qs all p mem
          rcases List.mem_append.mp mem with inside | last
          · exact all p inside
          · rw [List.mem_singleton.mp last]
            exact whole
        by_cases started : startCol ≤ column
        · have step : sliceRun startCol endCol strict ⟨lead.flatten,0,column,early⟩ (.inl q :: later) =
              sliceRun startCol endCol strict ⟨(lead ++ [q]).flatten,0,column,early⟩ later := by
            rw [sliceRun, eventsRun, if_neg running, sliceEvent, if_pos started, List.flatten_append, List.flatten_singleton]
            rfl
          have state : readEscape (stateOf (early ++ lead)) q = stateOf (early ++ (lead ++ [q])) := by
            rw [← List.append_assoc, stateOf_append (early ++ lead)]
            rfl
          have more := sequences_only (wholes wholeLead) empty_settled
          rw [List.nil_append] at more
          have rest := ih further wholeEarly (wholes wholeLead) (fun _ => started) more (by
            rw [more.2.1, styled, symbols_nil]
            rfl)
          dsimp only at rest ⊢
          rw [step, placed, state, OrderKept, if_pos started]
          exact rest
        · have none : lead = [] := Classical.not_not.mp fun visible => started (late visible)
          subst none
          have step : sliceRun startCol endCol strict ⟨([] : List JsString).flatten,0,column,early⟩ (.inl q :: later) =
              sliceRun startCol endCol strict ⟨([] : List JsString).flatten,0,column,early ++ [q]⟩ later := by
            rw [sliceRun, eventsRun, if_neg running, sliceEvent, if_neg started]
            rfl
          have state : readEscape (stateOf (early ++ [])) q = stateOf (early ++ [q] ++ []) := by
            rw [List.append_nil, List.append_nil, stateOf_append]
            rfl
          have rest := ih further (wholes wholeEarly) wholeLead late leads blank
          dsimp only at rest ⊢
          rw [step, placed, state, OrderKept, if_neg started]
          exact rest
      | inr cell =>
        by_cases started : startCol ≤ column
        · by_cases fits : strict = false ∨ column + cell.width ≤ endCol
          · have flushed := sequences_only wholeEarly leads.1
            have step : sliceRun startCol endCol strict ⟨lead.flatten,0,column,early⟩ (.inr cell :: later) =
                sliceRun startCol endCol strict ⟨lead.flatten ++ early.flatten,0,column,[]⟩ (.inr cell :: later) := by
              rw [sliceRun, sliceRun, eventsRun, eventsRun, if_neg running, if_neg running, sliceEvent, sliceEvent, sliceCell, sliceCell,
                if_pos ⟨started,fits⟩, if_pos ⟨started,fits⟩, List.flatten_nil, List.append_nil]
            obtain ⟨ends,shows,width⟩ := slice_flushed good ⟨lead.flatten ++ early.flatten,0,column,[]⟩ rfl started flushed.1
            have written : stateFrom fresh (symbols escapes (lead.flatten ++ early.flatten)) = stateOf (lead ++ early) := by
              rw [flushed.2.2, leads.2.2, symbols_nil, stateOf_append]
              rfl
            dsimp only at shows width ⊢
            rw [written] at shows width
            rw [flushed.2.1, blank, List.nil_append] at shows
            rw [Nat.zero_add, placedWidth_state (within startCol endCol strict) (fun _ _ _ _ => rfl) _ (stateOf (early ++ lead))] at width
            rw [step, OrderKept, if_pos started, shows]
            exact ⟨ends,sameAtFirst_iff _ _ _ _,width⟩
          · have beyond : endCol ≤ column + cell.width := by
              rcases not_or.mp fits with ⟨_,far⟩
              omega
            have other : inColumns startCol endCol strict column cell = false := by
              rw [← Bool.not_eq_true]
              simp only [inColumns, Bool.and_eq_true, decide_eq_true_eq, Bool.or_eq_true, Bool.not_eq_true']
              exact fun all => fits all.2
            have step : sliceRun startCol endCol strict ⟨lead.flatten,0,column,early⟩ (.inr cell :: later) =
                ⟨lead.flatten,0,column + cell.width,early⟩ := by
              rw [sliceRun, eventsRun, if_neg running, sliceEvent, sliceCell, if_neg (fun all => fits all.2),
                eventsRun_stopped (by simpa using beyond)]
            dsimp only
            rw [step, placed, List.filter_cons_of_neg (by simpa [within] using other), within_none beyond, OrderKept, if_pos started,
              SameAtFirst, other, Bool.false_and, if_neg (by simp)]
            exact ⟨leads.1,⟨fun _ => sameAtFirst_past _ _ beyond _,fun _ => congrArg visible blank⟩,rfl⟩
        · have none : lead = [] := Classical.not_not.mp fun visible => started (late visible)
          subst none
          have other : inColumns startCol endCol strict column cell = false := by
            rw [← Bool.not_eq_true]
            simp only [inColumns, Bool.and_eq_true, decide_eq_true_eq]
            exact fun all => started all.1.1
          have step : sliceRun startCol endCol strict ⟨([] : List JsString).flatten,0,column,early⟩ (.inr cell :: later) =
              sliceRun startCol endCol strict ⟨([] : List JsString).flatten,0,column + cell.width,early⟩ later := by
            rw [sliceRun, eventsRun, if_neg running, sliceEvent, sliceCell, if_neg (fun all => started all.1)]
            rfl
          have late' : ([] : List JsString) ≠ [] → startCol ≤ column + cell.width := fun visible => absurd rfl visible
          have rest := ih further wholeEarly wholeLead late' leads blank
          dsimp only at rest ⊢
          rw [step, placed, List.filter_cons_of_neg (by simpa [within] using other), OrderKept, if_neg started]
          exact rest

/-- The sequences straight after the slice add nothing that shows. -/
theorem trail_yields (out rest : JsString) :
    ∃ trail : List JsString, (∀ q ∈ trail, escapes.sequence q = some q.length) ∧
      Yields (fun fuel => loop trailStep fuel (out, rest)) (out ++ trail.flatten) := by
  obtain ⟨result,gives⟩ := trail_ends out rest
  obtain ⟨fuel,enough⟩ := gives
  have ends := enough fuel (Nat.le_refl fuel)
  have shape : ∃ trail : List JsString, (∀ q ∈ trail, escapes.sequence q = some q.length) ∧ result = out ++ trail.flatten := by
    refine loop_result (fun s result => ∃ trail : List JsString, (∀ q ∈ trail, escapes.sequence q = some q.length) ∧ result = s.1 ++ trail.flatten)
      ?_ ?_ ends
    · rintro ⟨out,rest⟩ result leaves
      rw [trailStep] at leaves
      split at leaves
      · cases leaves
      · cases leaves
        exact ⟨[],⟨fun q mem => (by cases mem),(List.append_nil _).symm⟩⟩
    · rintro ⟨out,rest⟩ next result steps ⟨trail,whole,same⟩
      rw [trailStep] at steps
      split at steps
      · rename_i n found
        cases steps
        refine ⟨rest.take n :: trail,?_,?_⟩
        · intro q mem
          rcases List.mem_cons.mp mem with rfl | later
          · exact piece_whole escapes found
          · exact whole q later
        · rw [same, List.flatten_cons, List.append_assoc]
      · cases steps
  obtain ⟨trail,whole,rfl⟩ := shape
  exact ⟨trail,whole,fuel,enough⟩

theorem styled_build {text : JsString} (well : WellEscaped text) : visible (styled (buildUtf16String text)) = visible (styled text) := by
  obtain ⟨n,same⟩ := build_symbols text well
  have none : ∀ n state, visible (styledFrom state (List.replicate n (.inr 0))) = [] := by
    intro n state
    induction n with
    | zero => rfl
    | succ n ih => simpa [List.replicate_succ, styledFrom, visible] using ih
  rw [styled, styled, same, styledFrom_append, visible_append_chars, none, List.append_nil]

theorem clamp_same (width : Nat) : clampU32 width = width ↔ width ≤ u32Max := by
  rw [clampU32]
  omega

/-- What the slice returns: the characters that start in the columns, and their width, exactly when the order of the sequences
    around the start makes no difference and the width is a 32-bit number. -/
theorem slice_iff {host : Segmentation} {line : JsString} (well : WellEscaped line) (startCol length : Nat) (strict : Option Bool) (tabWidth : Nat) :
    let chosen := (lineCells host (clampTabWidth tabWidth) line).filter (within startCol (startCol + length) (strict.getD false))
    (∃ out, Yields (fun fuel => sliceWithWidth host fuel line startCol length strict tabWidth) out ∧ Shows out.text out.width chosen) ↔
    OrderKept startCol (startCol + length) (strict.getD false) [] [] 0 (events host (clampTabWidth tabWidth) line) ∧
      placedWidth chosen ≤ u32Max := by
  intro chosen
  by_cases empty : length = 0
  · subst empty
    have none : chosen = [] := by
      rw [List.filter_eq_nil_iff]
      intro p _
      simp only [within, inColumns, Bool.and_eq_true, decide_eq_true_eq]
      omega
    have gives : ∀ fuel, sliceWithWidth host fuel line startCol 0 strict tabWidth = some ⟨[],0⟩ := fun _ => by
      rw [sliceWithWidth, if_pos rfl]
      rfl
    refine ⟨fun _ => ⟨orderKept_past (fun started => started) (.inl (Nat.le_refl startCol)),by rw [none]; exact Nat.zero_le _⟩,fun _ => ?_⟩
    refine ⟨⟨[],0⟩,⟨0,fun fuel _ => gives fuel⟩,?_,by rw [none]; rfl⟩
    rw [none, styled, symbols_nil]
    rfl
  · have none : ∀ q ∈ ([] : List JsString), escapes.sequence q = some q.length := fun q mem => by cases mem
    have late : ([] : List JsString) ≠ [] → startCol ≤ 0 := fun visible => absurd rfl visible
    obtain ⟨settled,same,width⟩ := @slice_written startCol (startCol + length) (strict.getD false) _
      (@good_events host (clampTabWidth tabWidth) line well) [] [] none none 0 late
    have run := @runPieces_events Slicing (sliceEvent startCol (startCol + length) (strict.getD false)) host (clampTabWidth tabWidth)
      (sliceScanner host (clampTabWidth tabWidth) startCol (startCol + length) (strict.getD false)) _ (good_pieces well) (fun _ _ => rfl)
      (fun s segment => congrArg (·, true) (sliceCells_run _ s)) ⟨[],0,0,[]⟩
    have scanned := scan_yields (sliceScanner host (clampTabWidth tabWidth) startCol (startCol + length) (strict.getD false)) ⟨[],0,0,[]⟩ line
    generalize runPieces (sliceScanner host (clampTabWidth tabWidth) startCol (startCol + length) (strict.getD false)) ⟨[],0,0,[]⟩
      (pieces escapes line) = ended at run scanned
    obtain ⟨trail,whole,trailed⟩ := trail_yields ended.1.out (ended.2.flatMap Piece.text)
    have cut : Yields (fun fuel => sliceWithWidthImpl host (clampTabWidth tabWidth) startCol (startCol + length) (strict.getD false) fuel line)
        (ended.1.out ++ trail.flatten, ended.1.outW) := by
      unfold sliceWithWidthImpl
      refine yields_bind scanned ?_
      exact yields_bind trailed (yields_pure _)
    have impl : Yields (fun fuel => sliceWithWidth host fuel line startCol length strict tabWidth)
        ⟨buildUtf16String (ended.1.out ++ trail.flatten),clampU32 ended.1.outW⟩ := by
      unfold sliceWithWidth
      simp only [if_neg empty]
      exact yields_map _ cut
    have here : ended.1 = sliceRun startCol (startCol + length) (strict.getD false) ⟨[],0,0,[]⟩ (events host (clampTabWidth tabWidth) line) := run
    rw [List.flatten_nil, ← here] at settled same width
    have only := sequences_only whole settled
    have shows : visible (styled (buildUtf16String (ended.1.out ++ trail.flatten))) = visible (styled ended.1.out) := by
      rw [styled_build only.1, only.2.1]
    have measured : ended.1.outW = placedWidth chosen := width
    rw [← same, ← clamp_same, ← measured]
    constructor
    · rintro ⟨out,gives,characters,counted⟩
      obtain rfl := yields_same gives impl
      exact ⟨shows.symm.trans characters,counted.trans measured.symm⟩
    · rintro ⟨characters,counted⟩
      exact ⟨_,impl,shows.trans characters,counted.trans measured⟩

end slice
end AnsiText
