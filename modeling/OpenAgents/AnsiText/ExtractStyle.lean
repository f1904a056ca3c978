import OpenAgents.AnsiText.SliceStyle

/- Which characters the segments around an overlay hold: `before` keeps the order of its sequences, `after`
   starts from the state restored, and the scan may end before `before` is complete. -/
namespace AnsiText
open JsText WhileLoop RunScanner

section extract
variable (beforeEnd afterStart afterEnd doneCol : Nat) (strictAfter : Bool)

def extractEvent (s : Extracting) : Event → Extracting
  | .inl q =>
      let read := { s with state := readEscape s.state q }
      if s.currentCol < beforeEnd then { read with pendingBeforeAnsi := s.pendingBeforeAnsi ++ [q] }
      else if extendsAfter afterStart afterEnd s then { read with after := s.after ++ q }
      else read
  | .inr cell => extractCell beforeEnd afterStart afterEnd strictAfter s cell

def extractRun (s : Extracting) (left : List Event) : Extracting :=
  eventsRun (fun s => !decide (s.currentCol < doneCol)) (extractEvent beforeEnd afterStart afterEnd strictAfter) s left

def inBefore (p : Placed) : Bool := decide (p.column < beforeEnd)

/- What the scan comes to of them. -/
def inBoth (p : Placed) : Bool := inBefore beforeEnd p && decide (p.column < doneCol)

def inAfter (p : Placed) : Bool := decide (beforeEnd ≤ p.column) && within afterStart afterEnd strictAfter p

/- `before` holds what it shows and waits with its sequences for a character; `after`, once begun, is in the line's state. -/
structure Extracted (s : Extracting) : Prop where
  beforeSettled : WellEscaped s.before
  afterSettled : WellEscaped s.after
  pendingWhole : ∀ q ∈ s.pendingBeforeAnsi, escapes.sequence q = some q.length
  waiting : s.currentCol < beforeEnd → s.pendingBeforeAnsi.foldl readEscape (stateFrom fresh (symbols escapes s.before)) = s.state
  begun : s.afterStarted = true → stateFrom fresh (symbols escapes s.after) = s.state ∧ beforeEnd ≤ s.currentCol ∧
    afterStart ≤ s.currentCol ∧ afterStart < afterEnd
  unbegun : s.afterStarted = false → s.after = []

end extract

section extract
variable {beforeEnd afterStart afterEnd doneCol : Nat} {strictAfter : Bool}

theorem extractCells_run (shown : List Cell) (s : Extracting) :
    extractCells beforeEnd afterStart afterEnd doneCol strictAfter shown s =
      extractRun beforeEnd afterStart afterEnd doneCol strictAfter s (shown.map .inr) := by
  induction shown generalizing s with
  | nil => rfl
  | cons cell later ih =>
    rw [extractCells, extractRun, List.map_cons, eventsRun, ih]
    by_cases past : doneCol ≤ s.currentCol
    · rw [if_pos past, if_pos (by simpa using past)]
    · rw [if_neg past, if_neg (by simpa using past)]
      rfl

/-- A sequence read keeps what holds of the segments, and shows nothing. -/
theorem extracted_sequence {s : Extracting} (holds : Extracted beforeEnd afterStart afterEnd s) {q : JsString}
    (whole : escapes.sequence q = some q.length) (running : s.currentCol < doneCol) (range : afterEnd = doneCol ∨ afterEnd ≤ afterStart) :
    let next := extractEvent beforeEnd afterStart afterEnd strictAfter s (.inl q)
    Extracted beforeEnd afterStart afterEnd next ∧ next.currentCol = s.currentCol ∧ next.state = readEscape s.state q ∧
      styled next.before = styled s.before ∧ styled next.after = styled s.after ∧ next.beforeW = s.beforeW ∧ next.afterW = s.afterW := by
  dsimp only
  rw [extractEvent]
  by_cases early : s.currentCol < beforeEnd
  · rw [if_pos early]
    have unstarted : s.afterStarted = false := by
      cases started : s.afterStarted with
      | false => rfl
      | true => exact absurd early (Nat.not_lt.mpr (holds.begun started).2.1)
    refine ⟨⟨holds.beforeSettled,holds.afterSettled,?_,fun _ => ?_,fun started => ?_,holds.unbegun⟩,rfl,rfl,rfl,rfl,rfl,rfl⟩
    · intro p mem
      rcases List.mem_append.mp mem with inside | last
      · exact holds.pendingWhole p inside
      · rw [List.mem_singleton.mp last]
        exact whole
    · rw [List.foldl_append, holds.waiting early]
      rfl
    · exact absurd (unstarted.symm.trans started) (by simp)
  · rw [if_neg early]
    by_cases extends_ : extendsAfter afterStart afterEnd s = true
    · rw [if_pos extends_]
      have started : s.afterStarted = true := by
        simp only [extendsAfter, Bool.and_eq_true] at extends_
        exact extends_.2
      obtain ⟨state,later⟩ := holds.begun started
      refine ⟨⟨holds.beforeSettled,settled_append escapes holds.afterSettled (settled_whole escapes whole),holds.pendingWhole,
        fun early' => absurd early' early,fun _ => ⟨?_,later⟩,fun off => absurd (started.symm.trans off) (by simp)⟩,rfl,rfl,rfl,
        styled_sequence holds.afterSettled whole,rfl,rfl⟩
      dsimp only
      rw [state_sequence holds.afterSettled whole, state]
    · rw [if_neg extends_]
      have unstarted : s.afterStarted = false := by
        cases started : s.afterStarted with
        | false => rfl
        | true =>
          obtain ⟨_,_,after,some⟩ := holds.begun started
          exact absurd (by simp only [extendsAfter, started, Bool.and_true, Bool.and_eq_true, decide_eq_true_eq]; omega) extends_
      exact ⟨⟨holds.beforeSettled,holds.afterSettled,holds.pendingWhole,fun early' => absurd early' early,
        fun started => absurd (unstarted.symm.trans started) (by simp),holds.unbegun⟩,rfl,rfl,rfl,rfl,rfl,rfl⟩

/-- A cell goes to `before`, to `after`, or to neither. -/
theorem extracted_cell {s : Extracting} (holds : Extracted beforeEnd afterStart afterEnd s) {cell : Cell} (plain : plainUnits cell.units) :
    let next := extractEvent beforeEnd afterStart afterEnd strictAfter s (.inr cell)
    let here : Placed := ⟨cell,s.currentCol,s.state⟩
    Extracted beforeEnd afterStart afterEnd next ∧ next.currentCol = s.currentCol + cell.width ∧ next.state = s.state ∧
      styled next.before = styled s.before ++ shown ([here].filter (inBefore beforeEnd)) ∧
      styled next.after = styled s.after ++ shown ([here].filter (inAfter beforeEnd afterStart afterEnd strictAfter)) ∧
      next.beforeW = s.beforeW + placedWidth ([here].filter (inBefore beforeEnd)) ∧
      next.afterW = s.afterW + placedWidth ([here].filter (inAfter beforeEnd afterStart afterEnd strictAfter)) := by
  dsimp only
  rw [extractEvent, extractCell]
  by_cases early : s.currentCol < beforeEnd
  · have yes : inBefore beforeEnd ⟨cell,s.currentCol,s.state⟩ = true := decide_eq_true early
    have no : ¬ inAfter beforeEnd afterStart afterEnd strictAfter ⟨cell,s.currentCol,s.state⟩ = true := by
      simp only [inAfter, Bool.and_eq_true, decide_eq_true_eq]
      omega
    have flushed := sequences_only holds.pendingWhole holds.beforeSettled
    rw [if_pos early, List.filter_cons_of_pos yes, List.filter_cons_of_neg no, List.filter_nil, List.filter_nil]
    have unstarted : s.afterStarted = false := by
      cases started : s.afterStarted with
      | false => rfl
      | true => exact absurd early (Nat.not_lt.mpr (holds.begun started).2.1)
    refine ⟨⟨settled_append escapes flushed.1 (plain_settled plain),holds.afterSettled,fun q mem => (by cases mem),fun _ => ?_,
      fun started => absurd (unstarted.symm.trans started) (by simp),holds.unbegun⟩,rfl,rfl,?_,(List.append_nil _).symm,rfl,rfl⟩
    · dsimp only
      rw [state_run flushed.1 plain, flushed.2.2, holds.waiting early]
      rfl
    · dsimp only
      rw [styled_run flushed.1 plain, flushed.2.1, flushed.2.2, holds.waiting early, shown, List.flatMap_singleton]
  · have no : ¬ inBefore beforeEnd ⟨cell,s.currentCol,s.state⟩ = true := by simpa [inBefore] using early
    rw [if_neg early, List.filter_cons_of_neg no, List.filter_nil]
    by_cases fits : afterStart ≤ s.currentCol ∧ s.currentCol < afterEnd ∧ (strictAfter = false ∨ s.currentCol + cell.width ≤ afterEnd)
    · have yes : inAfter beforeEnd afterStart afterEnd strictAfter ⟨cell,s.currentCol,s.state⟩ = true := by
        simp only [inAfter, within, inColumns, Bool.and_eq_true, decide_eq_true_eq, Bool.or_eq_true, Bool.not_eq_true']
        exact ⟨by omega,⟨fits.1,fits.2.1⟩,fits.2.2⟩
      rw [if_pos fits, List.filter_cons_of_pos yes, List.filter_nil]
      have ready : WellEscaped (s.after ++ if s.afterStarted = true then [] else writeRestore s.state) ∧
          styled (s.after ++ if s.afterStarted = true then [] else writeRestore s.state) = styled s.after ∧
          stateFrom fresh (symbols escapes (s.after ++ if s.afterStarted = true then [] else writeRestore s.state)) = s.state := by
        cases started : s.afterStarted with
        | true =>
          rw [if_pos rfl, List.append_nil]
          exact ⟨holds.afterSettled,rfl,(holds.begun started).1⟩
        | false =>
          rw [if_neg (by simp), holds.unbegun started, List.nil_append]
          refine ⟨restore_settled s.state,?_,restore_state s.state⟩
          rcases restore_cases s.state with ⟨none,_⟩ | whole
          · rw [none]
          · have alone := styled_sequence empty_settled (q := writeRestore s.state) whole
            rwa [List.nil_append] at alone
      refine ⟨⟨holds.beforeSettled,settled_append escapes ready.1 (plain_settled plain),holds.pendingWhole,fun early' => ?_,
        fun _ => ⟨?_,?_,?_,?_⟩,fun off => by cases off⟩,rfl,rfl,(List.append_nil _).symm,?_,rfl,rfl⟩
      · dsimp only at early'
        omega
      · dsimp only
        rw [state_run ready.1 plain, ready.2.2]
      · dsimp only
        omega
      · dsimp only
        omega
      · omega
      · dsimp only
        rw [styled_run ready.1 plain, ready.2.1, ready.2.2, shown, List.flatMap_singleton]
    · have neither : ¬ inAfter beforeEnd afterStart afterEnd strictAfter ⟨cell,s.currentCol,s.state⟩ = true := by
        simp only [inAfter, within, inColumns, Bool.and_eq_true, decide_eq_true_eq, Bool.or_eq_true, Bool.not_eq_true']
        exact fun all => fits ⟨all.2.1.1,all.2.1.2,all.2.2⟩
      rw [if_neg fits, List.filter_cons_of_neg neither, List.filter_nil]
      refine ⟨⟨holds.beforeSettled,holds.afterSettled,holds.pendingWhole,fun early' => ?_,fun started => ?_,holds.unbegun⟩,rfl,rfl,
        (List.append_nil _).symm,(List.append_nil _).symm,rfl,rfl⟩
      · dsimp only at early'
        omega
      · obtain ⟨state,before,after,some⟩ := holds.begun started
        exact ⟨state,by dsimp only; omega,by dsimp only; omega,some⟩

/-- Past a column, the cells that start before it are all read. -/
theorem chosen_past {column : Nat} (past : doneCol ≤ column) (state : AnsiState) (left : List Event) {keep : Placed → Bool}
    (near : ∀ p, keep p = true → p.column < doneCol) : (placed column state left).filter keep = [] := by
  rw [List.filter_eq_nil_iff]
  intro p mem chosen
  have far := placed_column mem
  have close := near p chosen
  omega

/-- The segments hold the cells chosen for them, each in its state, up to the column where the scan ends. -/
theorem extract_written {left : List Event} (good : ∀ event ∈ left, GoodEvent event) {s : Extracting}
    (holds : Extracted beforeEnd afterStart afterEnd s) (range : afterEnd = doneCol ∨ afterEnd ≤ afterStart) :
    let ended := extractRun beforeEnd afterStart afterEnd doneCol strictAfter s left
    let cells := placed s.currentCol s.state left
    WellEscaped ended.before ∧ WellEscaped ended.after ∧
      styled ended.before = styled s.before ++ shown (cells.filter (inBoth beforeEnd doneCol)) ∧
      styled ended.after = styled s.after ++ shown (cells.filter (inAfter beforeEnd afterStart afterEnd strictAfter)) ∧
      ended.beforeW = s.beforeW + placedWidth (cells.filter (inBoth beforeEnd doneCol)) ∧
      ended.afterW = s.afterW + placedWidth (cells.filter (inAfter beforeEnd afterStart afterEnd strictAfter)) := by
  have nearAfter : ∀ p, inAfter beforeEnd afterStart afterEnd strictAfter p = true → p.column < doneCol := by
    intro p chosen
    simp only [inAfter, within, inColumns, Bool.and_eq_true, decide_eq_true_eq] at chosen
    omega
  have nearBoth : ∀ p, inBoth beforeEnd doneCol p = true → p.column < doneCol := by
    intro p chosen
    simp only [inBoth, Bool.and_eq_true, decide_eq_true_eq] at chosen
    exact chosen.2
  induction left generalizing s with
  | nil => exact ⟨holds.beforeSettled,holds.afterSettled,(List.append_nil _).symm,(List.append_nil _).symm,rfl,rfl⟩
  | cons event later ih =>
    have here := good event List.mem_cons_self
    have further : ∀ other ∈ later, GoodEvent other := fun other mem => good other (List.mem_cons_of_mem _ mem)
    dsimp only
    by_cases past : doneCol ≤ s.currentCol
    · rw [extractRun, eventsRun_stopped (by simpa using past), chosen_past past _ _ nearAfter, chosen_past past _ _ nearBoth]
      exact ⟨holds.beforeSettled,holds.afterSettled,(List.append_nil _).symm,(List.append_nil _).symm,rfl,rfl⟩
    · have step : extractRun beforeEnd afterStart afterEnd doneCol strictAfter s (event :: later) =
          extractRun beforeEnd afterStart afterEnd doneCol strictAfter (extractEvent beforeEnd afterStart afterEnd strictAfter s event) later := by
        rw [extractRun, eventsRun, if_neg (by simpa using past)]
        rfl
      rw [step]
      cases event with
      | inl q =>
        obtain ⟨still,column,state,before,after,beforeW,afterW⟩ :=
          @extracted_sequence beforeEnd afterStart afterEnd doneCol strictAfter s holds q here (Nat.not_le.mp past) range
        have rest := ih further still
        dsimp only at rest
        rw [column, state, before, after, beforeW, afterW] at rest
        exact rest
      | inr cell =>
        obtain ⟨still,column,state,before,after,beforeW,afterW⟩ :=
          @extracted_cell beforeEnd afterStart afterEnd strictAfter s holds cell here
        have rest := ih further still
        dsimp only at rest
        rw [column, state, before, after, beforeW, afterW] at rest
        have both : [(⟨cell,s.currentCol,s.state⟩ : Placed)].filter (inBoth beforeEnd doneCol) =
            [(⟨cell,s.currentCol,s.state⟩ : Placed)].filter (inBefore beforeEnd) := by
          simp only [List.filter_cons, List.filter_nil, inBoth, decide_eq_true (Nat.not_le.mp past), Bool.and_true]
        have width : ∀ first later : List Placed, placedWidth (first ++ later) = placedWidth first + placedWidth later := by
          intro first later
          rw [placedWidth, List.map_append, List.sum_append]
          rfl
        rw [placed, ← List.singleton_append, List.filter_append, List.filter_append, shown_append, shown_append, width, width, both]
        simp only [List.append_assoc, Nat.add_assoc] at rest
        exact rest

end extract

section segments
variable {host : Segmentation} {tabWidth : Nat}

/-- A cell that shows nothing takes no column. -/
theorem blank_width (documented : Documented host) {segment : JsString} {cell : Cell} (mem : cell ∈ cells host tabWidth segment)
    (blank : showsSomething cell = false) : cell.width = 0 := by
  have nul : ∀ u ∈ cell.units, u = 0 := by simpa [showsSomething] using blank
  have some := cells_nonempty segment cell mem
  rw [cells] at mem
  split at mem
  · obtain ⟨u,_,rfl⟩ := List.mem_map.mp mem
    rw [nul u List.mem_cons_self]
    rfl
  · obtain ⟨grapheme,among,rfl⟩ := List.mem_map.mp mem
    have first : (0 : CodeUnit) ∈ grapheme := by
      cases grapheme with
      | nil => exact absurd rfl some
      | cons u rest => rw [← nul u List.mem_cons_self]; exact List.mem_cons_self
    rw [documented.nulAlone segment grapheme among first]
    exact documented.nulWidth

theorem lineCells_cell {line : JsString} {p : Placed} (mem : p ∈ lineCells host tabWidth line) :
    ∃ segment, p.cell ∈ cells host tabWidth segment := by
  have among : ∀ {column state left}, p ∈ placed column state left → .inr p.cell ∈ left := by
    intro column state left mem
    induction left generalizing column state with
    | nil => cases mem
    | cons event later ih =>
      cases event with
      | inl q => exact List.mem_cons_of_mem _ (ih mem)
      | inr cell =>
        rcases List.mem_cons.mp mem with rfl | further
        · exact List.mem_cons_self
        · exact List.mem_cons_of_mem _ (ih further)
  obtain ⟨piece,_,here⟩ := List.mem_flatMap.mp (among mem)
  cases piece with
  | sequence q => simp [pieceEvents] at here
  | lone c => simp [pieceEvents] at here
  | run segment =>
    obtain ⟨cell,inside,same⟩ := List.mem_map.mp here
    cases same
    exact ⟨segment,inside⟩

theorem shown_blank {p : Placed} (blank : showsSomething p.cell = false) (later : List Placed) :
    visible (shown (p :: later)) = visible (shown later) := by
  rw [← List.singleton_append, shown_append, visible_append_chars, shown, List.flatMap_singleton, visible_units, nothing_visible blank]
  rfl

/-- Leaving cells out shows the same exactly when those left out show nothing. -/
theorem fewer_shown {fewer more : Placed → Bool} (weaker : ∀ p, fewer p = true → more p = true) (all : List Placed) :
    (visible (shown (all.filter fewer))).length ≤ (visible (shown (all.filter more))).length ∧
    (visible (shown (all.filter fewer)) = visible (shown (all.filter more)) ↔
      ∀ p ∈ all, more p = true → fewer p = false → showsSomething p.cell = false) := by
  induction all with
  | nil => exact ⟨Nat.le_refl _,fun _ p mem => (by cases mem),fun _ => rfl⟩
  | cons p later ih =>
    obtain ⟨short,same⟩ := ih
    have split_ : ∀ chosen, visible (shown (p :: chosen)) = visible (shown [p]) ++ visible (shown chosen) := by
      intro chosen
      rw [← List.singleton_append, shown_append, visible_append_chars]
    by_cases few : fewer p = true
    · have many := weaker p few
      rw [List.filter_cons_of_pos few, List.filter_cons_of_pos many, split_, split_ (later.filter more), List.length_append, List.length_append]
      refine ⟨by omega,?_⟩
      rw [List.append_cancel_left_eq, same, List.forall_mem_cons]
      simp [few]
    · rw [List.filter_cons_of_neg few]
      by_cases many : more p = true
      · rw [List.filter_cons_of_pos many]
        by_cases shows : showsSomething p.cell = true
        · have longer : 0 < (visible (shown [p])).length := by
            obtain ⟨u,rest,units⟩ := something_visible shows
            rw [shown, List.flatMap_singleton, visible_units, units]
            simp
          rw [split_ (later.filter more), List.length_append]
          refine ⟨by omega,fun equal => ?_,fun left => ?_⟩
          · have lengths := congrArg List.length equal
            rw [List.length_append] at lengths
            omega
          · have blank := left p List.mem_cons_self many (by simpa using few)
            exact absurd (shows.symm.trans blank) (by simp)
        · rw [Bool.not_eq_true] at shows
          rw [shown_blank shows, same, List.forall_mem_cons]
          exact ⟨short,fun left => ⟨fun _ _ => shows,left⟩,fun both => both.2⟩
      · rw [List.filter_cons_of_neg many, same, List.forall_mem_cons]
        exact ⟨short,fun left => ⟨fun yes => absurd yes many,left⟩,fun both => both.2⟩

theorem placedWidth_fewer {fewer more : Placed → Bool} (weaker : ∀ p, fewer p = true → more p = true) {all : List Placed}
    (nothing : ∀ p ∈ all, more p = true → fewer p = false → p.cell.width = 0) :
    placedWidth (all.filter fewer) = placedWidth (all.filter more) := by
  induction all with
  | nil => rfl
  | cons p later ih =>
    have rest := ih fun q mem => nothing q (List.mem_cons_of_mem _ mem)
    by_cases few : fewer p = true
    · rw [List.filter_cons_of_pos few, List.filter_cons_of_pos (weaker p few)]
      exact congrArg (p.cell.width + ·) rest
    · rw [List.filter_cons_of_neg few]
      by_cases many : more p = true
      · have zero := nothing p List.mem_cons_self many (by simpa using few)
        rw [List.filter_cons_of_pos many, rest, placedWidth, placedWidth, List.map_cons, List.sum_cons, zero, Nat.zero_add]
      · rw [List.filter_cons_of_neg many, rest]

end segments

/-- The scan for the segments ends at the end of `after`, or at that of `before` when `after` is empty. -/
def doneColumn (beforeEnd afterStart afterLen : Nat) : Nat := if afterLen = 0 then beforeEnd else afterStart + afterLen

/-- The segments show what starts in their columns exactly when nothing visible starts before the end of `before` and not
    before the end of the scan, and both widths are 32-bit numbers. -/
theorem extract_iff {host : Segmentation} (documented : Documented host) {line : JsString} (well : WellEscaped line)
    (beforeEnd afterStart afterLen : Nat) (strictAfter : Bool) (tabWidth : Nat) :
    let all := lineCells host (clampTabWidth tabWidth) line
    let before := all.filter (inBefore beforeEnd)
    let after := all.filter (inAfter beforeEnd afterStart (afterStart + afterLen) strictAfter)
    (∃ out, Yields (fun fuel => extractSegments host fuel line beforeEnd afterStart afterLen strictAfter tabWidth) out ∧
      Shows out.before out.beforeWidth before ∧ Shows out.after out.afterWidth after) ↔
    (∀ p ∈ all, p.column < beforeEnd → doneColumn beforeEnd afterStart afterLen ≤ p.column → showsSomething p.cell = false) ∧
      placedWidth before ≤ u32Max ∧ placedWidth after ≤ u32Max := by
  intro all before after
  have start : Extracted beforeEnd afterStart (afterStart + afterLen) ⟨[],0,[],0,0,[],false,fresh⟩ :=
    ⟨empty_settled,empty_settled,fun q mem => (by cases mem),fun _ => by rw [symbols_nil]; rfl,fun on => (by cases on),fun _ => rfl⟩
  have range : afterStart + afterLen = doneColumn beforeEnd afterStart afterLen ∨ afterStart + afterLen ≤ afterStart := by
    rw [doneColumn]
    split <;> omega
  obtain ⟨settledB,settledA,showsB,showsA,widthB,widthA⟩ := @extract_written beforeEnd afterStart (afterStart + afterLen)
    (doneColumn beforeEnd afterStart afterLen) strictAfter _ (@good_events host (clampTabWidth tabWidth) line well) _ start range
  have run := @runPieces_events Extracting (extractEvent beforeEnd afterStart (afterStart + afterLen) strictAfter) host (clampTabWidth tabWidth)
    (extractScanner host (clampTabWidth tabWidth) beforeEnd afterStart (afterStart + afterLen) (doneColumn beforeEnd afterStart afterLen) strictAfter)
    _ (good_pieces well) (fun _ _ => rfl) (fun s segment => congrArg (·, true) (extractCells_run _ s)) ⟨[],0,[],0,0,[],false,fresh⟩
  have scanned := scan_yields (extractScanner host (clampTabWidth tabWidth) beforeEnd afterStart (afterStart + afterLen)
    (doneColumn beforeEnd afterStart afterLen) strictAfter) ⟨[],0,[],0,0,[],false,fresh⟩ line
  generalize runPieces (extractScanner host (clampTabWidth tabWidth) beforeEnd afterStart (afterStart + afterLen)
    (doneColumn beforeEnd afterStart afterLen) strictAfter) ⟨[],0,[],0,0,[],false,fresh⟩ (pieces escapes line) = ended at run scanned
  have here : ended.1 = extractRun beforeEnd afterStart (afterStart + afterLen) (doneColumn beforeEnd afterStart afterLen) strictAfter
    ⟨[],0,[],0,0,[],false,fresh⟩ (events host (clampTabWidth tabWidth) line) := run
  rw [← here] at settledB settledA showsB showsA widthB widthA
  have impl : Yields (fun fuel => extractSegments host fuel line beforeEnd afterStart afterLen strictAfter tabWidth)
      ⟨buildUtf16String ended.1.before,clampU32 ended.1.beforeW,buildUtf16String ended.1.after,clampU32 ended.1.afterW⟩ :=
    yields_map _ scanned
  have blank : styled [] = [] := by rw [styled, symbols_nil]; rfl
  have seenB : visible (styled (buildUtf16String ended.1.before)) =
      visible (shown (all.filter (inBoth beforeEnd (doneColumn beforeEnd afterStart afterLen)))) := by
    rw [styled_build settledB, showsB]
    dsimp only
    rw [blank]
    rfl
  have seenA : visible (styled (buildUtf16String ended.1.after)) = visible (shown after) := by
    rw [styled_build settledA, showsA]
    dsimp only
    rw [blank]
    rfl
  have weaker : ∀ p, inBoth beforeEnd (doneColumn beforeEnd afterStart afterLen) p = true → inBefore beforeEnd p = true := by
    intro p both
    exact (Bool.and_eq_true _ _ ▸ both : _ ∧ _).1
  have countedB : ended.1.beforeW = placedWidth (all.filter (inBoth beforeEnd (doneColumn beforeEnd afterStart afterLen))) :=
    widthB.trans (Nat.zero_add _)
  have countedA : ended.1.afterW = placedWidth after := widthA.trans (Nat.zero_add _)
  have left : (∀ p ∈ all, inBefore beforeEnd p = true → inBoth beforeEnd (doneColumn beforeEnd afterStart afterLen) p = false →
      showsSomething p.cell = false) ↔
      ∀ p ∈ all, p.column < beforeEnd → doneColumn beforeEnd afterStart afterLen ≤ p.column → showsSomething p.cell = false := by
    refine forall₂_congr fun p _ => ?_
    simp only [inBoth, inBefore, decide_eq_true_eq, Bool.and_eq_false_iff, decide_eq_false_iff_not, Nat.not_lt]
    constructor
    · intro all early late
      exact all early (.inr late)
    · intro all early late
      exact all early (late.resolve_left (Nat.not_le.mpr early))
  have narrower := (fewer_shown weaker all).2
  have widths : (∀ p ∈ all, inBefore beforeEnd p = true → inBoth beforeEnd (doneColumn beforeEnd afterStart afterLen) p = false →
      showsSomething p.cell = false) → ended.1.beforeW = placedWidth before := by
    intro nothing
    rw [countedB]
    refine placedWidth_fewer weaker fun p mem more few => ?_
    obtain ⟨segment,among⟩ := lineCells_cell mem
    exact blank_width documented among (nothing p mem more few)
  rw [← left]
  constructor
  · rintro ⟨out,gives,showsBefore,showsAfter⟩
    obtain rfl := yields_same gives impl
    have nothing := narrower.mp (seenB.symm.trans showsBefore.characters)
    refine ⟨nothing,?_,?_⟩
    · rw [← clamp_same, ← widths nothing]
      exact showsBefore.measured.trans (widths nothing).symm
    · rw [← clamp_same, ← countedA]
      exact showsAfter.measured.trans countedA.symm
  · rintro ⟨nothing,smallB,smallA⟩
    refine ⟨_,impl,⟨seenB.trans (narrower.mpr nothing),?_⟩,⟨seenA,?_⟩⟩
    · dsimp only
      rw [widths nothing]
      exact (clamp_same _).mpr smallB
    · dsimp only
      rw [countedA]
      exact (clamp_same _).mpr smallA

section columns
variable (host : Segmentation) (line : JsString)

/-- The slice returns the characters that start in its columns, each in its state, and their width. -/
def SliceRight (startCol length : Nat) (strict : Option Bool) (tabWidth : Nat) : Prop :=
  ∃ out, Yields (fun fuel => sliceWithWidth host fuel line startCol length strict tabWidth) out ∧
    Shows out.text out.width ((lineCells host (clampTabWidth tabWidth) line).filter (within startCol (startCol + length) (strict.getD false)))

/-- So do the segments. -/
def SegmentsRight (beforeEnd afterStart afterLen : Nat) (strictAfter : Bool) (tabWidth : Nat) : Prop :=
  ∃ out, Yields (fun fuel => extractSegments host fuel line beforeEnd afterStart afterLen strictAfter tabWidth) out ∧
    Shows out.before out.beforeWidth ((lineCells host (clampTabWidth tabWidth) line).filter (inBefore beforeEnd)) ∧
    Shows out.after out.afterWidth ((lineCells host (clampTabWidth tabWidth) line).filter
      (inAfter beforeEnd afterStart (afterStart + afterLen) strictAfter))

variable {host line}

/-- When a slice is right, and when the segments are. -/
theorem columns_iff (documented : Documented host) (well : WellEscaped line) (startCol length : Nat) (strict : Option Bool)
    (beforeEnd afterStart afterLen : Nat) (strictAfter : Bool) (tabWidth : Nat) :
    (SliceRight host line startCol length strict tabWidth ↔
      OrderKept startCol (startCol + length) (strict.getD false) [] [] 0 (events host (clampTabWidth tabWidth) line) ∧
        placedWidth ((lineCells host (clampTabWidth tabWidth) line).filter (within startCol (startCol + length) (strict.getD false))) ≤ u32Max) ∧
    (SegmentsRight host line beforeEnd afterStart afterLen strictAfter tabWidth ↔
      (∀ p ∈ lineCells host (clampTabWidth tabWidth) line, p.column < beforeEnd → doneColumn beforeEnd afterStart afterLen ≤ p.column →
        showsSomething p.cell = false) ∧
        placedWidth ((lineCells host (clampTabWidth tabWidth) line).filter (inBefore beforeEnd)) ≤ u32Max ∧
        placedWidth ((lineCells host (clampTabWidth tabWidth) line).filter
          (inAfter beforeEnd afterStart (afterStart + afterLen) strictAfter)) ≤ u32Max) :=
  ⟨slice_iff well startCol length strict tabWidth,extract_iff documented well beforeEnd afterStart afterLen strictAfter tabWidth⟩

end columns

def greenSequence : JsString := esc :: js "[32m"

theorem red_a_well : WellEscaped (redSequence ++ js "a" ++ greenSequence ++ js "b") :=
  settled_append escapes (settled_append escapes (settled_append escapes (settled_whole escapes red_whole)
    (plain_settled (by decide))) (settled_whole escapes (by decide))) (plain_settled (by decide))

theorem red_a_events : events plainGraphemes 3 (redSequence ++ js "a" ++ greenSequence ++ js "b") =
    [.inl redSequence, .inr ⟨js "a",1⟩, .inl greenSequence, .inr ⟨js "b",1⟩] := by decide +kernel

theorem whole_line_sliced : SliceRight plainGraphemes (redSequence ++ js "a" ++ greenSequence ++ js "b") 0 2 none 3 ∧
    SegmentsRight plainGraphemes (redSequence ++ js "a" ++ greenSequence ++ js "b") 1 1 1 false 3 := by
  have both := columns_iff plainGraphemes_documented red_a_well 0 2 none 1 1 1 false 3
  have tabs : clampTabWidth 3 = 3 := rfl
  rw [tabs, lineCells, red_a_events] at both
  refine ⟨both.1.mpr ⟨?_,by decide +kernel⟩,both.2.mpr ⟨?_,by decide +kernel,by decide +kernel⟩⟩
  · rfl
  · intro p mem early late
    have far : doneColumn 1 1 1 = 2 := rfl
    omega

/-- Sliced from its second column, the line shows its green character in red. -/
theorem colours_swapped : ¬ SliceRight plainGraphemes (redSequence ++ js "a" ++ greenSequence ++ js "b") 1 1 none 3 := by
  intro right
  obtain ⟨kept,_⟩ := (slice_iff red_a_well 1 1 none 3).mp right
  have tabs : clampTabWidth 3 = 3 := rfl
  rw [tabs, red_a_events] at kept
  have same : stateOf [greenSequence, redSequence] = stateOf [redSequence, greenSequence] := kept
  revert same
  decide +kernel

end AnsiText
