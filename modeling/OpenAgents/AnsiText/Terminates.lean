import OpenAgents.AnsiText.Restore
import OpenAgents.AnsiText.Slice

/- Which texts the operations come to an end on. Only the breaking of a long word can stay where it stands:
   at an escape character that starts no sequence. -/
namespace AnsiText
open JsText WhileLoop RunScanner

section pure_
variable {host : Segmentation} {tabWidth : Nat}

theorem unitScan_yields {S : Type} (scanner : UnitScanner CodeUnit S) (s : S) (text : JsString) :
    Yields (fun fuel => loop (unitStep escapes scanner) fuel (s, text)) (runSymbols scanner s (symbols escapes text)) :=
  loop_yields (unitScan_symbols escapes scanner s text (Nat.lt_succ_self text.length))

theorem scan_yields {S : Type} (scanner : Scanner CodeUnit S) (s : S) (text : JsString) :
    Yields (fun fuel => loop (scanStep escapes scanner) fuel (s, text))
      ((runPieces scanner s (pieces escapes text)).1, (runPieces scanner s (pieces escapes text)).2.flatMap Piece.text) :=
  loop_yields (scan_pieces escapes scanner s text (Nat.lt_succ_self text.length))

theorem width_yields (data : JsString) : Yields (fun fuel => visibleWidth host tabWidth fuel data) (widthOf host tabWidth data) :=
  ⟨data.length + 1,fun _ enough => visibleWidth_is enough⟩

end pure_

def stateAfter (state : AnsiState) (data : JsString) : AnsiState := runSymbols updateScanner state (symbols escapes data)
def isBlank (token : JsString) : Bool := runSymbols whitespaceScanner true (symbols escapes token)

def splitRun (s : Splitting) (line : JsString) : Splitting := runSymbols splitScanner s (symbols escapes line)

/-- The tokens that a line is wrapped by. -/
def tokensOf (line : JsString) : List JsString := splitEnd (splitRun ⟨[],[],[],false⟩ line)

theorem update_yields (data : JsString) (state : AnsiState) :
    Yields (fun fuel => updateStateFromText fuel data state) (stateAfter state data) := unitScan_yields updateScanner state data

theorem blank_yields (token : JsString) : Yields (fun fuel => tokenIsWhitespace fuel token) (isBlank token) :=
  unitScan_yields whitespaceScanner true token

theorem tokens_yields (line : JsString) : Yields (fun fuel => splitIntoTokensWithAnsi fuel line) (tokensOf line) :=
  yields_map splitEnd (unitScan_yields splitScanner _ line)

/-- What any fuel gives is what enough fuel gives. -/
theorem width_same {host : Segmentation} {tabWidth fuel width : Nat} {data : JsString}
    (is : visibleWidth host tabWidth fuel data = some width) : width = widthOf host tabWidth data := by
  obtain ⟨pair,upTo,rfl⟩ := Option.map_eq_some_iff.mp is
  obtain ⟨⟨reached,rest⟩,scanned,rfl⟩ := Option.map_eq_some_iff.mp upTo
  have enough := scan_pieces escapes (widthScanner host tabWidth none) 0 data (Nat.lt_succ_self data.length)
  rw [widthRun_none, Nat.zero_add] at enough
  exact congrArg Prod.fst (loop_same scanned enough)

theorem unitScan_same {S : Type} {scanner : UnitScanner CodeUnit S} {s result : S} {fuel : Nat} {text : JsString}
    (is : loop (unitStep escapes scanner) fuel (s, text) = some result) : result = runSymbols scanner s (symbols escapes text) :=
  loop_same is (unitScan_symbols escapes scanner s text (Nat.lt_succ_self text.length))

theorem tokens_same {fuel : Nat} {line : JsString} {tokens : List JsString}
    (is : splitIntoTokensWithAnsi fuel line = some tokens) : tokens = tokensOf line := by
  obtain ⟨s,scanned,rfl⟩ := Option.map_eq_some_iff.mp is
  rw [unitScan_same scanned]
  rfl

section break_
variable {host : Segmentation} {tabWidth width : Nat}

/-- One step of the breaking: past a sequence, past a run, or nowhere. -/
theorem breakStep_cases {s : Breaking} {c : CodeUnit} {rest : JsString} :
    (∃ n next, ansiSeqLen (c :: rest) = some n ∧ breakStep host tabWidth width (s, c :: rest) = .inl (next, (c :: rest).drop n)) ∨
    (∃ next, ansiSeqLen (c :: rest) = none ∧
      breakStep host tabWidth width (s, c :: rest) = .inl (next, fromMark escapes (c :: rest))) := by
  cases found : ansiSeqLen (c :: rest) with
  | some n =>
    refine .inl ⟨n,?_,rfl,?_⟩
    rotate_left
    · simp only [breakStep, found]
      rfl
  | none =>
    refine .inr ⟨?_,rfl,?_⟩
    rotate_left
    · simp only [breakStep, found]
      rfl

theorem break_ends {word : JsString} (settled : Settled escapes word) (state : AnsiState) :
    Ends fun fuel => breakLongWord host tabWidth width fuel word state := by
  obtain ⟨result,ends⟩ := @loop_ends _ _ (breakStep host tabWidth width) (⟨[],writeRestore state,0,state⟩, word) _
    (fun s => Settled escapes s.2) (fun s => s.2.length) (by
      rintro ⟨s,text⟩ next settled steps
      cases text with
      | nil => cases steps
      | cons c rest =>
        rcases @breakStep_cases host tabWidth width s c rest with ⟨n,later,found,stepped⟩ | ⟨later,none,stepped⟩
        · rw [stepped] at steps
          cases steps
          exact ⟨(settled_sequence escapes found).mp settled,sequence_shorter escapes found⟩
        · rw [stepped] at steps
          cases steps
          have plain : escapes.opens c = false := settled c (by rw [symbols_unit (m := escapes) none]; exact List.mem_cons_self)
          exact ⟨(settled_fromMark escapes _).mpr settled,fromMark_shorter escapes plain⟩)
    settled (Nat.lt_succ_self word.length)
  exact ⟨_,yields_map _ (loop_yields ends)⟩

/-- At an escape character that starts no sequence the next run is empty, and the scan stays. -/
theorem break_never {word : JsString} (unsettled : ¬ Settled escapes word) (fuel : Nat) (state : AnsiState) :
    breakLongWord host tabWidth width fuel word state = none := by
  rw [breakLongWord, loop_never (fun s => ¬ Settled escapes s.2) _ unsettled]
  · rfl
  · rintro ⟨s,text⟩ unsettled
    cases text with
    | nil => exact absurd (by intro c mem; rw [symbols_nil] at mem; cases mem) unsettled
    | cons c rest =>
      rcases @breakStep_cases host tabWidth width s c rest with ⟨n,later,found,stepped⟩ | ⟨later,none,stepped⟩
      · exact ⟨_,stepped,fun settled => unsettled ((settled_sequence escapes found).mpr settled)⟩
      · exact ⟨_,stepped,fun settled => unsettled ((settled_fromMark escapes _).mp settled)⟩

end break_

section wrapped
variable (host : Segmentation) (tabWidth width : Nat)

/-- A token that has to be broken and holds an escape character that starts no sequence. -/
def Stuck (token : JsString) : Prop := width < widthOf host tabWidth token ∧ isBlank token = false ∧ ¬ Settled escapes token

/-- A line too wide for one row, with such a token. -/
def StuckLine (line : JsString) : Prop :=
  width < widthOf host tabWidth line ∧ ∃ token ∈ tokensOf line, Stuck host tabWidth width token

variable {host tabWidth width}

theorem place_never {token : JsString} (stuck : Stuck host tabWidth width token) (fuel : Nat) (s : Wrapping) :
    placeToken host tabWidth width fuel s token = none := by
  obtain ⟨wide,visible,unsettled⟩ := stuck
  rw [placeToken]
  cases measured : visibleWidth host tabWidth fuel token with
  | none => rfl
  | some w =>
    cases blank : tokenIsWhitespace fuel token with
    | none => rfl
    | some isWhitespace =>
      obtain rfl := width_same measured
      have same : isWhitespace = isBlank token := unitScan_same blank
      rw [visible] at same
      subst same
      simp [wide, placeBroken, break_never unsettled]

theorem place_ends {token : JsString} (free : ¬ Stuck host tabWidth width token) (s : Wrapping) :
    Ends fun fuel => placeToken host tabWidth width fuel s token := by
  unfold placeToken
  refine ends_bind (width_yields token) (ends_bind (blank_yields token) ?_)
  split
  · rename_i breaks
    have settled : Settled escapes token := Classical.not_not.mp fun unsettled => free ⟨breaks.1,breaks.2,unsettled⟩
    unfold placeBroken
    obtain ⟨⟨broken,state⟩,gives⟩ := @break_ends host tabWidth width token settled (flushLine s).state
    refine ends_bind gives ?_
    dsimp only
    cases broken.getLast? with
    | none => exact ⟨_,yields_pure _⟩
    | some last => exact ends_bind (width_yields last) ⟨_,yields_pure _⟩
  · exact ends_bind (update_yields token s.state) ⟨_,yields_pure _⟩

theorem single_never {line : JsString} (stuck : StuckLine host tabWidth width line) (fuel : Nat) :
    wrapSingleLine host tabWidth width fuel line = none := by
  obtain ⟨wide,token,mem,stuck⟩ := stuck
  have visible : line.isEmpty = false := by
    cases line with
    | nil => simp [widthOf, textCells, cellsWidth] at wide
    | cons => rfl
  rw [wrapSingleLine, visible, if_neg (by simp)]
  cases measured : visibleWidth host tabWidth fuel line with
  | none => rfl
  | some w =>
    obtain rfl := width_same measured
    cases split_ : splitIntoTokensWithAnsi fuel line with
    | none => simp [Nat.not_le.mpr wide]
    | some tokens =>
      obtain rfl := tokens_same split_
      simp [Nat.not_le.mpr wide, foldlM_none mem fun s => place_never stuck fuel s]

theorem single_ends {line : JsString} (free : ¬ StuckLine host tabWidth width line) :
    Ends fun fuel => wrapSingleLine host tabWidth width fuel line := by
  unfold wrapSingleLine
  split
  · exact ⟨_,yields_pure _⟩
  · refine ends_bind (width_yields line) ?_
    split
    · exact ⟨_,yields_pure _⟩
    · rename_i wide
      refine ends_bind (tokens_yields line) ?_
      obtain ⟨s,gives⟩ := @ends_foldlM _ _ (fun fuel => placeToken host tabWidth width fuel) (tokensOf line)
        (fun token mem s => place_ends (fun stuck => free ⟨Nat.not_le.mp wide,token,mem,stuck⟩) s) ⟨[],[],0,fresh⟩
      exact ends_bind gives ⟨_,yields_pure _⟩

end wrapped

/- A sequence put in front of a line goes to its first token. -/
section front
variable {q : JsString}

def prepend (q : JsString) (s : Splitting) : Splitting :=
  match s.tokens with
  | token :: later => { s with tokens := (q ++ token) :: later }
  | [] =>
      if s.current.isEmpty then { s with pendingAnsi := q ++ s.pendingAnsi } else { s with current := q ++ s.current }

def prependFirst (q : JsString) : List JsString → List JsString
  | [] => [q]
  | token :: later => (q ++ token) :: later

theorem splitUnit_prepend (s : Splitting) (ch : CodeUnit) : splitUnit (prepend q s) ch = prepend q (splitUnit s ch) := by
  obtain ⟨tokens,current,pending,inWhitespace⟩ := s
  cases tokens with
  | nil =>
    cases current with
    | nil => simp [prepend, splitUnit]
    | cons c rest =>
      by_cases turns : (ch == space) = inWhitespace
      · simp [prepend, splitUnit, turns]
      · simp [prepend, splitUnit, turns]
  | cons token later =>
    cases current with
    | nil => simp [prepend, splitUnit]
    | cons c rest =>
      by_cases turns : (ch == space) = inWhitespace
      · simp [prepend, splitUnit, turns]
      · simp [prepend, splitUnit, turns]

theorem splitSequence_prepend (s : Splitting) (seq : JsString) :
    splitScanner.sequence (prepend q s) seq = prepend q (splitScanner.sequence s seq) := by
  obtain ⟨tokens,current,pending,inWhitespace⟩ := s
  cases tokens with
  | nil => cases current <;> simp [prepend, splitScanner]
  | cons token later => rfl

theorem splitRun_prepend (s : Splitting) (items : List (JsString ⊕ CodeUnit)) :
    runSymbols splitScanner (prepend q s) items = prepend q (runSymbols splitScanner s items) := by
  induction items generalizing s with
  | nil => rfl
  | cons item later ih =>
    cases item with
    | inl seq => rw [runSymbols, runSymbols, splitSequence_prepend, ih]
    | inr ch =>
      have step : runSymbols splitScanner (splitUnit (prepend q s) ch) later = prepend q (runSymbols splitScanner (splitUnit s ch) later) := by
        rw [splitUnit_prepend, ih]
      exact step

theorem splitEnd_prepend (visible : q ≠ []) (s : Splitting) : splitEnd (prepend q s) = prependFirst q (splitEnd s) := by
  obtain ⟨tokens,current,pending,inWhitespace⟩ := s
  cases tokens with
  | nil =>
    cases current with
    | nil => cases pending <;> simp [prepend, splitEnd, prependFirst, visible]
    | cons c rest => simp [prepend, splitEnd, prependFirst]
  | cons token later =>
    cases blank : (current ++ pending).isEmpty with
    | true => simp only [splitEnd, prepend, blank, if_true, prependFirst]
    | false => simp only [splitEnd, prepend, blank, Bool.false_eq_true, if_false, List.cons_append, prependFirst]

theorem tokens_front (whole : ansiSeqLen q = some q.length) (line : JsString) :
    tokensOf (q ++ line) = prependFirst q (tokensOf line) := by
  have visible : q ≠ [] := by
    rintro rfl
    cases whole
  have first : splitScanner.sequence ⟨[],[],[],false⟩ q = prepend q ⟨[],[],[],false⟩ := by simp [splitScanner, prepend]
  rw [tokensOf, splitRun, symbols_whole_append escapes whole, runSymbols, first, splitRun_prepend, splitEnd_prepend visible]
  rfl

variable {host : Segmentation} {tabWidth width : Nat}

theorem width_front (whole : ansiSeqLen q = some q.length) (text : JsString) :
    widthOf host tabWidth (q ++ text) = widthOf host tabWidth text := by
  rw [widthOf, textCells, pieces_whole_append escapes whole, List.flatMap_cons]
  rfl

theorem stuck_front (whole : ansiSeqLen q = some q.length) (token : JsString) :
    Stuck host tabWidth width (q ++ token) ↔ Stuck host tabWidth width token := by
  have blank : isBlank (q ++ token) = isBlank token := by
    rw [isBlank, symbols_whole_append escapes whole]
    rfl
  rw [Stuck, width_front whole, blank, settled_whole_append escapes whole]
  rfl

theorem stuckLine_front (whole : ansiSeqLen q = some q.length) (line : JsString) :
    StuckLine host tabWidth width (q ++ line) ↔ StuckLine host tabWidth width line := by
  rw [StuckLine, StuckLine, width_front whole, tokens_front whole]
  refine and_congr_right fun _ => ?_
  cases tokensOf line with
  | nil =>
    have free : ¬ Stuck host tabWidth width q := fun stuck => stuck.2.2 (settled_whole escapes whole)
    simp [prependFirst, free]
  | cons token later => simp [prependFirst, stuck_front whole]

/-- The codes carried into a line change nothing. -/
theorem stuckLine_carried (state : AnsiState) (carried : Bool) (line : JsString) :
    StuckLine host tabWidth width ((if carried then [] else writeRestore state) ++ line) ↔ StuckLine host tabWidth width line := by
  cases carried with
  | true => rfl
  | false =>
    rcases restore_cases state with ⟨none,_⟩ | whole
    · simp [none]
    · exact stuckLine_front whole line

end front

section operations
variable (host : Segmentation) (text : JsString) (width tabWidth : Nat)

theorem wrap_never {line : JsString} (mem : line ∈ splitLines text)
    (stuck : StuckLine host (clampTabWidth tabWidth) width line) (fuel : Nat) : wrapTextWithAnsi host fuel text width tabWidth = none := by
  have visible : text.isEmpty = false := by
    cases text with
    | nil =>
      obtain rfl : line = [] := by simpa [splitLines, List.splitOn_nil] using mem
      simp [StuckLine, widthOf, textCells, cellsWidth] at stuck
    | cons => rfl
  have each : ∀ s, wrapLine host (clampTabWidth tabWidth) width fuel s line = none := by
    intro s
    rw [wrapLine, single_never ((stuckLine_carried s.2 s.1.isEmpty line).mpr stuck) fuel]
    rfl
  rw [wrapTextWithAnsi, wrapTextWithAnsiImpl, visible, if_neg (by simp), foldlM_none mem each]
  rfl

theorem wrap_ends (free : ∀ line ∈ splitLines text, ¬ StuckLine host (clampTabWidth tabWidth) width line) :
    Ends fun fuel => wrapTextWithAnsi host fuel text width tabWidth := by
  have each : ∀ line ∈ splitLines text, ∀ s, Ends fun fuel => wrapLine host (clampTabWidth tabWidth) width fuel s line := by
    intro line mem s
    unfold wrapLine
    obtain ⟨wrapped,gives⟩ := single_ends fun stuck => free line mem ((stuckLine_carried s.2 s.1.isEmpty line).mp stuck)
    exact ends_bind gives (ends_bind (update_yields line s.2) ⟨_,yields_pure _⟩)
  have impl : Ends fun fuel => wrapTextWithAnsiImpl host (clampTabWidth tabWidth) width fuel text := by
    unfold wrapTextWithAnsiImpl
    split
    · exact ⟨_,yields_pure _⟩
    · obtain ⟨s,gives⟩ := ends_foldlM (f := fun fuel => wrapLine host (clampTabWidth tabWidth) width fuel) each ([], fresh)
      exact ends_bind gives ⟨_,yields_pure _⟩
  obtain ⟨lines,gives⟩ := impl
  exact ⟨_,yields_map _ gives⟩

theorem truncate_ends (ellipsis : Option Ellipsis) (pad : Option Bool) :
    Ends fun fuel => truncateToWidth host fuel text width ellipsis pad tabWidth := by
  unfold truncateToWidth
  have measured : ∃ pair, Yields (fun fuel => visibleWidthUpTo host (clampTabWidth tabWidth) fuel text (some width)) pair :=
    ⟨_,yields_map _ (scan_yields _ 0 text)⟩
  obtain ⟨⟨reached,exceeded⟩,gives⟩ := measured
  refine ends_bind gives ?_
  dsimp only
  split
  · split
    · exact ⟨_,yields_pure _⟩
    · exact ⟨_,yields_pure _⟩
  · split
    · exact ⟨_,yields_pure _⟩
    · exact ends_bind (scan_yields _ _ text) ⟨_,yields_pure _⟩

theorem trail_ends (out rest : JsString) : Ends fun fuel => loop trailStep fuel (out, rest) := by
  obtain ⟨result,ends⟩ := @loop_ends _ _ trailStep (out, rest) _ (fun _ => True) (fun s => s.2.length) (by
    rintro ⟨out,rest⟩ next _ steps
    refine ⟨trivial,?_⟩
    rw [trailStep] at steps
    split at steps
    · rename_i n found
      cases steps
      exact sequence_shorter escapes found
    · cases steps) trivial (Nat.lt_succ_self rest.length)
  exact ⟨result,loop_yields ends⟩

theorem slice_ends (startCol : Nat) (strict : Option Bool) :
    Ends fun fuel => sliceWithWidth host fuel text startCol width strict tabWidth := by
  unfold sliceWithWidth
  split
  · exact ⟨_,yields_pure _⟩
  · have impl : Ends fun fuel => sliceWithWidthImpl host (clampTabWidth tabWidth) startCol (startCol + width) (strict.getD false) fuel text := by
      unfold sliceWithWidthImpl
      refine ends_bind (scan_yields _ _ text) ?_
      obtain ⟨out,gives⟩ := trail_ends _ _
      exact ends_bind gives ⟨_,yields_pure _⟩
    obtain ⟨sliced,gives⟩ := impl
    exact ⟨_,yields_map _ gives⟩

theorem extract_ends (beforeEnd afterStart afterLen : Nat) (strictAfter : Bool) :
    Ends fun fuel => extractSegments host fuel text beforeEnd afterStart afterLen strictAfter tabWidth :=
  ⟨_,yields_map _ (scan_yields _ _ text)⟩

structure AllEnd : Prop where
  wrap : Ends fun fuel => wrapTextWithAnsi host fuel text width tabWidth
  truncate : ∀ ellipsis pad, Ends fun fuel => truncateToWidth host fuel text width ellipsis pad tabWidth
  slice : ∀ startCol strict, Ends fun fuel => sliceWithWidth host fuel text startCol width strict tabWidth
  extract : ∀ beforeEnd afterStart afterLen strictAfter,
    Ends fun fuel => extractSegments host fuel text beforeEnd afterStart afterLen strictAfter tabWidth

/-- All four come to an end on a text exactly when no line of it that is too wide has a token, too wide by itself and
    not blank, with an escape character that starts no sequence. -/
theorem operations_end_iff : AllEnd host text width tabWidth ↔
    ∀ line ∈ splitLines text, ¬ StuckLine host (clampTabWidth tabWidth) width line := by
  constructor
  · intro ends line mem stuck
    obtain ⟨lines,least,gives⟩ := ends.wrap
    have never := wrap_never host text width tabWidth mem stuck least
    cases (gives least (Nat.le_refl least)).symm.trans never
  · intro free
    exact ⟨wrap_ends host text width tabWidth free,truncate_ends host text width tabWidth,slice_ends host text width tabWidth,
      extract_ends host text tabWidth⟩

end operations

/- Every unit a grapheme of one cell. -/
def unitGraphemes : Segmentation where
  graphemes segment := segment.map fun u => [u]
  width _ := 1
  partition segment := by
    induction segment with
    | nil => rfl
    | cons u later ih => rw [List.map_cons, List.flatten_cons, ih]; rfl
  nonempty segment grapheme mem := by
    obtain ⟨u,_,rfl⟩ := List.mem_map.mp mem
    exact List.cons_ne_nil u []

theorem lone_escape_loops : ¬ AllEnd unitGraphemes (js "ab" ++ [esc]) 1 3 := by
  intro ends
  obtain ⟨lines,least,gives⟩ := ends.wrap
  have line : js "ab" ++ [esc] ∈ splitLines (js "ab" ++ [esc]) := by decide +kernel
  have token : js "ab" ++ [esc] ∈ tokensOf (js "ab" ++ [esc]) := by decide +kernel
  have read : symbols escapes (js "ab" ++ [esc]) = [.inr 97, .inr 98, .inr esc] := by decide +kernel
  have stuck : Stuck unitGraphemes (clampTabWidth 3) 1 (js "ab" ++ [esc]) :=
    ⟨by decide +kernel,by decide +kernel,fun settled => by cases settled esc (by simp [read])⟩
  have never := wrap_never unitGraphemes _ 1 3 line ⟨stuck.1,_,token,stuck⟩ least
  cases (gives least (Nat.le_refl least)).symm.trans never

end AnsiText
