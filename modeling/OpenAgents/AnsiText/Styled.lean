import OpenAgents.AnsiText.Restore
import OpenAgents.AnsiText.Slice

/- What a terminal shows of a text: its characters, each with the SGR state it is shown in. -/
namespace AnsiText
open JsText WhileLoop RunScanner

abbrev Symbols := List (JsString ⊕ CodeUnit)

/- The text's escape characters all start a recognised sequence. -/
abbrev WellEscaped (text : JsString) : Prop := Settled escapes text

def stateFrom (state : AnsiState) (items : Symbols) : AnsiState := runSymbols updateScanner state items

def styledFrom : AnsiState → Symbols → List (CodeUnit × AnsiState)
  | _, [] => []
  | state, .inl q :: later => styledFrom (readEscape state q) later
  | state, .inr u :: later => (u, state) :: styledFrom state later

/-- The characters of a text with their states, on a fresh terminal. -/
def styled (text : JsString) : List (CodeUnit × AnsiState) := styledFrom fresh (symbols escapes text)

def shownUnits : Symbols → JsString
  | [] => []
  | .inl _ :: later => shownUnits later
  | .inr u :: later => u :: shownUnits later

theorem stateFrom_append (state : AnsiState) (first later : Symbols) :
    stateFrom state (first ++ later) = stateFrom (stateFrom state first) later := by
  induction first generalizing state with
  | nil => rfl
  | cons item first ih =>
    cases item with
    | inl q => exact ih (readEscape state q)
    | inr u => exact ih state

theorem styledFrom_append (state : AnsiState) (first later : Symbols) :
    styledFrom state (first ++ later) = styledFrom state first ++ styledFrom (stateFrom state first) later := by
  induction first generalizing state with
  | nil => rfl
  | cons item first ih =>
    cases item with
    | inl q => exact ih (readEscape state q)
    | inr u => exact congrArg (List.cons (u, state)) (ih state)

theorem shownUnits_append (first later : Symbols) : shownUnits (first ++ later) = shownUnits first ++ shownUnits later := by
  induction first with
  | nil => rfl
  | cons item first ih =>
    cases item with
    | inl q => exact ih
    | inr u => exact congrArg (List.cons u) ih

theorem shownUnits_run (run : JsString) : shownUnits (run.map .inr) = run := by
  induction run with
  | nil => rfl
  | cons u run ih => exact congrArg (List.cons u) ih

theorem stateFrom_run (state : AnsiState) (run : JsString) : stateFrom state (run.map .inr) = state := by
  induction run with
  | nil => rfl
  | cons u run ih => exact ih

theorem styledFrom_run (state : AnsiState) (run : JsString) : styledFrom state (run.map .inr) = run.map fun u => (u, state) := by
  induction run with
  | nil => rfl
  | cons u run ih => exact congrArg (List.cons (u, state)) ih

def plainUnits (run : JsString) : Prop := ∀ u ∈ run, u ≠ esc

instance (run : JsString) : Decidable (plainUnits run) := List.decidableBAll _ _

theorem plain_opens {run : JsString} (plain : plainUnits run) : ∀ u ∈ run, escapes.opens u = false := by
  intro u mem
  simpa [escapes] using plain u mem

theorem symbols_plain_run {run : JsString} (plain : plainUnits run) : symbols escapes run = run.map .inr := by
  have read := symbols_run escapes (plain_opens plain) []
  rwa [List.append_nil, symbols_nil, List.append_nil] at read

theorem plain_settled {run : JsString} (plain : plainUnits run) : WellEscaped run := settled_plain escapes (plain_opens plain)

/- A piece of a well escaped text: one sequence, or a run without escape characters. -/
def GoodPiece : Piece CodeUnit → Prop
  | .sequence q => ansiSeqLen q = some q.length
  | .lone _ => False
  | .run segment => plainUnits segment

theorem good_pieces {text : JsString} (well : WellEscaped text) : ∀ piece ∈ pieces escapes text, GoodPiece piece := by
  induction text using text_cases escapes with
  | nil =>
    intro piece mem
    rw [pieces_nil] at mem
    cases mem
  | run c rest plain ih =>
    intro piece mem
    rw [pieces_run plain] at mem
    rcases List.mem_cons.mp mem with rfl | later
    · intro u here same
      have opens := beforeMark_plain escapes (c :: rest) u here
      simp [escapes, same] at opens
    · exact ih ((settled_fromMark escapes _).mpr well) piece later
  | sequence c rest n found ih =>
    intro piece mem
    rw [pieces_sequence found] at mem
    rcases List.mem_cons.mp mem with rfl | later
    · exact piece_whole escapes found
    · exact ih ((settled_sequence escapes found).mp well) piece later
  | lone c rest marked none ih =>
    have plain := well c (by rw [symbols_unit none]; exact List.mem_cons_self)
    rw [plain] at marked
    cases marked

theorem seqEnd_last {stops : CodeUnit → Bool} {terminator : Bool} (nul : stops 0 = false) {body : JsString}
    (found : seqEnd stops terminator (body ++ [0]) = some (body.length + 1)) : False := by
  induction body with
  | nil => simp [seqEnd, nul, esc] at found
  | cons b body ih =>
    rw [List.cons_append, seqEnd] at found
    split at found
    · simp at found
    · split at found
      · rename_i ends
        cases body with
        | nil => simp at ends
        | cons => simp at found
      · obtain ⟨n,later,same⟩ := Option.map_eq_some_iff.mp found
        rw [List.length_cons] at same
        exact ih (by rw [later]; exact congrArg some (by omega))

/-- No sequence ends in a NUL. -/
theorem sequence_last {body : JsString} : ansiSeqLen (body ++ [0]) ≠ some (body.length + 1) := by
  intro found
  cases body with
  | nil => cases found
  | cons e body =>
    cases body with
    | nil =>
      rw [List.cons_append, List.nil_append, ansiSeqLen] at found
      split at found
      · cases found
      · simp at found
    | cons kind body =>
      have whole : ∀ stops terminator, stops 0 = false →
          (seqEnd stops terminator (body ++ [0])).map (· + 2) ≠ some (body.length + 1 + 1 + 1) := by
        intro stops terminator nul ends
        obtain ⟨n,at_,same⟩ := Option.map_eq_some_iff.mp ends
        exact seqEnd_last nul (by rw [at_]; exact congrArg some (by omega))
      simp only [List.cons_append, ansiSeqLen, List.length_cons] at found
      split at found
      · cases found
      · split at found
        · exact whole _ _ (by decide) found
        · split at found
          · exact whole _ _ (by decide) found
          · split at found
            · exact whole _ _ (by decide) found
            · split at found
              · exact whole _ _ (by decide) found
              · split at found
                · simp at found
                · cases found

/-- A NUL at the end of a text is a symbol of its own. -/
theorem symbols_nul {text : JsString} (well : WellEscaped (text ++ [0])) :
    symbols escapes (text ++ [0]) = symbols escapes text ++ [.inr 0] := by
  induction size : text.length using Nat.strongRecOn generalizing text with
  | ind size ih =>
    subst size
    cases text with
    | nil =>
      rw [List.nil_append, symbols_plain (m := escapes) (by decide), symbols_nil]
      rfl
    | cons c rest =>
      rw [List.cons_append] at well ⊢
      cases found : escapes.sequence (c :: (rest ++ [0])) with
      | some n =>
        have long := escapes.begins _ n found
        have short : n ≤ (c :: rest).length := by
          have bound : n ≤ (c :: rest).length + 1 := by simpa using long.2
          have other : n ≠ (c :: rest).length + 1 := by
            rintro rfl
            exact @sequence_last (c :: rest) found
          omega
        have alone : escapes.sequence (c :: rest) = some n := by
          have settled := escapes.settled _ n ((c :: rest).drop n) found
          rwa [← List.cons_append, List.take_append_of_le_length short, List.take_append_drop] at settled
        have shorter := sequence_shorter escapes alone
        rw [symbols_sequence found, symbols_sequence alone, ← List.cons_append, List.take_append_of_le_length short,
          List.drop_append_of_le_length short, ih _ shorter ?_ rfl]
        · rfl
        · rw [← List.drop_append_of_le_length short]
          exact (settled_sequence escapes found).mp well
      | none =>
        have plain : escapes.opens c = false := well c (by rw [symbols_unit found]; exact List.mem_cons_self)
        have later : WellEscaped (rest ++ [0]) := by
          intro d mem
          exact well d (by rw [symbols_unit found]; exact List.mem_cons_of_mem _ mem)
        rw [symbols_plain plain, symbols_plain plain, ih rest.length (Nat.lt_succ_self _) later rfl]
        rfl

/-- Losing the NULs at its end takes only those symbols from a text. -/
theorem build_symbols (text : JsString) (well : WellEscaped text) :
    ∃ n, symbols escapes text = symbols escapes (buildUtf16String text) ++ List.replicate n (.inr 0) := by
  induction text using List.reverseRecOn with
  | nil => exact ⟨0,by rw [List.replicate_zero, List.append_nil]; rfl⟩
  | append_singleton front u ih =>
    by_cases nul : u = 0
    · subst nul
      have read := symbols_nul well
      have before : WellEscaped front := by
        intro d mem
        exact well d (by rw [read]; exact List.mem_append.mpr (.inl mem))
      obtain ⟨n,same⟩ := ih before
      have cut : buildUtf16String (front ++ [0]) = buildUtf16String front := by
        rw [buildUtf16String, List.rdropWhile_concat_pos _ _ _ (by decide), buildUtf16String]
      refine ⟨n + 1,?_⟩
      rw [cut, read, same, List.append_assoc, ← List.replicate_succ']
    · have kept : buildUtf16String (front ++ [u]) = front ++ [u] := by
        rw [buildUtf16String, List.rdropWhile_concat_neg _ _ _ (by simpa using nul)]
      exact ⟨0,by rw [kept]; simp⟩

section cells
variable {host : Segmentation} {tabWidth : Nat}

theorem cells_units (segment : JsString) : cellsUnits (cells host tabWidth segment) = segment := by
  rw [cells]
  split
  · rw [cellsUnits, asciiCells, List.flatMap_map]
    exact List.flatMap_singleton' segment
  · rw [cellsUnits, graphemeCells, List.flatMap_map, List.flatMap_id', host.partition]

theorem cells_nonempty (segment : JsString) : ∀ cell ∈ cells host tabWidth segment, cell.units ≠ [] := by
  intro cell mem
  rw [cells] at mem
  split at mem
  · obtain ⟨u,_,rfl⟩ := List.mem_map.mp mem
    exact List.cons_ne_nil u []
  · obtain ⟨grapheme,among,rfl⟩ := List.mem_map.mp mem
    exact host.nonempty segment grapheme among

theorem textCells_units {text : JsString} (well : WellEscaped text) :
    cellsUnits (textCells host tabWidth text) = shownUnits (symbols escapes text) := by
  have good := good_pieces well
  rw [symbols_pieces, textCells]
  generalize pieces escapes text = left at good
  induction left with
  | nil => rfl
  | cons piece later ih =>
    have here := good piece List.mem_cons_self
    rw [List.flatMap_cons, List.flatMap_cons, cellsUnits_append, shownUnits_append, ih fun other mem => good other (List.mem_cons_of_mem _ mem)]
    cases piece with
    | lone c => exact absurd here id
    | sequence q => rfl
    | run segment =>
      rw [pieceCells, Piece.symbols, shownUnits_run, cells_units]

end cells
end AnsiText
