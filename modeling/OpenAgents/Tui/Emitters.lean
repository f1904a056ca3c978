import OpenAgents.Tui.Renderer

/- What each emitter leaves on a terminal that its account agrees with: the window of the new frame, the
   cursor where the account has it, and the rows that scrolled away. -/
namespace TuiEmitters
open JsText TerminalScreen TuiRenderer

/- The rows of a frame, blank below a frame that is shorter than the screen. -/
def paper (height : Nat) (lines : List JsString) : List (Row CodeUnit) :=
  lines.map shown ++ List.replicate (height - lines.length) []

def window (height : Nat) (lines : List JsString) : List (Row CodeUnit) := (paper height lines).drop (lines.length - height)

/-- The account of the renderer agrees with the terminal. -/
structure Synced (host : Host) (s : Tui) (t : Terminal CodeUnit host.rows) : Prop where
  rendered : s.maxLinesRendered = s.previousLines.length
  top : s.viewportTopRow = s.previousLines.length - host.rows
  cursor : s.hardwareCursorRow = s.viewportTopRow + t.row
  screen : t.rows = window host.rows s.previousLines

/- Lines as they are kept: none is empty, and fitting them to the width again changes nothing. -/
def Steady (host : Host) (lines : List JsString) : Prop := ∀ line ∈ lines, line ≠ [] ∧ fitLineToWidth host line = line

def Inside (host : Host) (lines : List JsString) (cursorPos : Option CursorPos) : Prop :=
  ∀ pos ∈ cursorPos, lines.length - host.rows ≤ pos.row ∧ pos.row < lines.length

/-- What an emitter leaves: an account that agrees, of these lines, and these rows scrolled away. -/
structure Paints (host : Host) (t : Terminal CodeUnit host.rows) (out : List (Control CodeUnit) × Tui)
    (lines : List JsString) (gone : List (Row CodeUnit)) : Prop where
  synced : Synced host out.2 (run (visibleWidth host) t out.1)
  lines : out.2.previousLines = lines
  scrolled : (run (visibleWidth host) t out.1).scrolled = gone

section paper
variable {height : Nat} {lines : List JsString}

theorem paper_length : (paper height lines).length = max lines.length height := by
  simp only [paper, List.length_append, List.length_map, List.length_replicate]
  omega

theorem window_length : (window height lines).length = height := by
  rw [window, List.length_drop, paper_length]
  omega

theorem paper_take {k : Nat} (within : k ≤ lines.length) : (paper height lines).take k = (lines.map shown).take k := by
  rw [paper, List.take_append_of_le_length (by simpa using within)]

theorem paper_drop {k : Nat} (behind : lines.length ≤ k) : (paper height lines).drop k = List.replicate (height - k) [] := by
  rw [paper, List.drop_append, List.drop_of_length_le (by simpa using behind), List.nil_append, List.length_map,
    List.drop_replicate]
  congr 1
  omega

/-- A sheet that ends in the rows of a frame shows its window. -/
theorem settled {t : Terminal CodeUnit height} {gone : List (Row CodeUnit)} {k : Nat}
    (sheet : t.sheet = gone ++ (paper height lines).drop k) (least : k ≤ lines.length - height) :
    t.rows = window height lines ∧ t.scrolled = gone ++ ((lines.map shown).take (lines.length - height)).drop k := by
  have long : (paper height lines).length = max lines.length height := paper_length
  have past : t.sheet.length - height = gone.length + (lines.length - height - k) := by
    rw [sheet, List.length_append, List.length_drop, long]
    omega
  constructor
  · rw [rows_eq, past, sheet, List.drop_length_add_append, List.drop_drop, window]
    congr 1
    omega
  · rw [scrolled_eq, past, sheet, List.take_length_add_append, ← paper_take (Nat.sub_le lines.length height),
      List.drop_take]

end paper

section cursor
variable {host : Host} {s : Tui} {t : Terminal CodeUnit host.rows} {lines : List JsString} {cursorPos : Option CursorPos}
  {fromRow : Int}

/-- A move that stays on the screen. -/
theorem run_moveRows {delta : Int} (least : 0 ≤ t.row + delta) (most : t.row + delta < host.rows) :
    (run (visibleWidth host) t (moveRows delta)).rows = t.rows ∧
      (run (visibleWidth host) t (moveRows delta)).scrolled = t.scrolled ∧
      (run (visibleWidth host) t (moveRows delta)).row = t.row + delta ∧
      (run (visibleWidth host) t (moveRows delta)).col = t.col := by
  unfold moveRows
  split
  · refine ⟨rfl,rfl,?_,rfl⟩
    simp only [run_cons, run_nil, exec]
    omega
  · split
    · refine ⟨rfl,rfl,?_,rfl⟩
      simp only [run_cons, run_nil, exec]
      omega
    · refine ⟨rfl,rfl,?_,rfl⟩
      rw [run_nil]
      omega

@[simp] theorem run_paintBegin : run (visibleWidth host) t paintBegin = t := rfl
@[simp] theorem run_paintEnd : run (visibleWidth host) t paintEnd = t := rfl
@[simp] theorem run_hideCursor : run (visibleWidth host) t hideCursor = t := rfl

/-- The cursor ends where the sequence says, and nothing else changes. -/
theorem run_cursorControl (inside : Inside host lines cursorPos) (start : fromRow = (lines.length - host.rows : Nat) + t.row) :
    (run (visibleWidth host) t (cursorControlSequence s cursorPos lines.length fromRow).1).rows = t.rows ∧
      (run (visibleWidth host) t (cursorControlSequence s cursorPos lines.length fromRow).1).scrolled = t.scrolled ∧
      (cursorControlSequence s cursorPos lines.length fromRow).2 =
        (lines.length - host.rows : Nat) +
          (run (visibleWidth host) t (cursorControlSequence s cursorPos lines.length fromRow).1).row := by
  cases cursorPos with
  | none => exact ⟨rfl,rfl,start⟩
  | some pos =>
    obtain ⟨above,within⟩ := inside pos rfl
    have some' : lines.length ≠ 0 := by omega
    have target : (min pos.row (lines.length - 1) : Int) = pos.row := by omega
    rw [cursorControlSequence, if_neg some']
    simp only [target]
    obtain ⟨rows,scrolled,row,col⟩ := @run_moveRows host t (pos.row - fromRow) (by omega) (by omega)
    rw [run_append, run_append]
    generalize run (visibleWidth host) t (moveRows (pos.row - fromRow)) = moved at rows scrolled row
    have still : ∀ mode : Control CodeUnit, mode = .setMode 25 ∨ mode = .resetMode 25 →
        run (visibleWidth host) (run (visibleWidth host) moved [.column (pos.col + 1)]) [mode] = { moved with col := pos.col } := by
      intro mode one
      rcases one with shows | hides
      · rw [shows]
        rfl
      · rw [hides]
        rfl
    rw [still]
    · refine ⟨rows,scrolled,?_⟩
      show (pos.row : Int) = (lines.length - host.rows : Nat) + (moved.row : Int)
      omega
    · cases s.showHardwareCursor with
      | true => exact Or.inl rfl
      | false => exact Or.inr rfl

/-- What the end of every paint comes to, once the body shows the window. -/
theorem paints_commit {counted : Tui} {body : List (Control CodeUnit)} {gone : List (Row CodeUnit)}
    (maxed : counted.maxLinesRendered = lines.length) (inside : Inside host lines cursorPos)
    (screen : (run (visibleWidth host) t body).rows = window host.rows lines)
    (start : fromRow = (lines.length - host.rows : Nat) + (run (visibleWidth host) t body).row)
    (scrolled : (run (visibleWidth host) t body).scrolled = gone) :
    Paints host t (body ++ (cursorControlSequence s cursorPos lines.length fromRow).1 ++ paintEnd,
      commit host counted lines (lines.length - host.rows) (cursorControlSequence s cursorPos lines.length fromRow).2)
      lines gone := by
  obtain ⟨rows,kept,row⟩ := @run_cursorControl host s _ lines cursorPos fromRow inside start
  constructor
  · constructor
    · exact maxed
    · rfl
    · simp only [run_append, run_paintEnd]
      exact row
    · simp only [run_append, run_paintEnd]
      exact rows.trans screen
  · rfl
  · simp only [run_append, run_paintEnd]
    exact kept.trans scrolled

end cursor

section rows
variable {host : Host} {t : Terminal CodeUnit host.rows} {lines : List JsString}

theorem flatMap_fitted {erase : Bool} (fits : ∀ line ∈ lines, fitLineToWidth host line = line) :
    (lines.flatMap fun line => below erase (fitLineToWidth host line)) = lines.flatMap (below erase) := by
  induction lines with
  | nil => rfl
  | cons line rest ih =>
    obtain ⟨first,later⟩ := List.forall_mem_cons.mp fits
    rw [List.flatMap_cons, List.flatMap_cons, first, ih later]

/-- Lines painted from the row of the cursor down lie there on the sheet. -/
theorem run_paintRows {erase : Bool} (fits : ∀ line ∈ lines, fitLineToWidth host line = line) (some' : lines ≠ [])
    (margin : t.col = 0) (clear : erase = true ∨ BlankFrom t.sheet t.place) :
    (run (visibleWidth host) t (paintRows host erase lines)).sheet =
        t.sheet.take t.place ++ lines.map shown ++ t.sheet.drop (t.place + lines.length) ∧
      (run (visibleWidth host) t (paintRows host erase lines)).place + 1 = t.place + lines.length := by
  cases lines with
  | nil => exact absurd rfl some'
  | cons first rest =>
    obtain ⟨fit,fitRest⟩ := List.forall_mem_cons.mp fits
    have clearHere : erase = true ∨ t.rows.getD t.row [] = [] := clear.imp_right blank_row
    obtain ⟨sheet,place⟩ := @run_here _ _ (visibleWidth host) t erase first margin clearHere
    rw [paintRows, fit, flatMap_fitted fitRest, run_append]
    generalize run (visibleWidth host) t (here erase first) = next at sheet place
    have bound : t.place < t.sheet.length := place_lt
    have size : (t.sheet.take t.place).length = t.place := by
      rw [List.length_take]
      omega
    have behind : ∀ k, next.sheet.drop (t.place + 1 + k) = t.sheet.drop (t.place + 1 + k) := by
      intro k
      have shift : t.place + 1 + k = (t.sheet.take t.place).length + (k + 1) := by omega
      rw [sheet, shift, List.drop_length_add_append, List.drop_succ_cons, List.drop_drop]
      congr 1
    have front : next.sheet.take (t.place + 1) = t.sheet.take t.place ++ [shown first] := by
      have one : t.place + 1 = (t.sheet.take t.place).length + 1 := by omega
      rw [sheet, one, List.take_length_add_append]
      rfl
    have clearBelow : erase = true ∨ BlankFrom next.sheet (next.place + 1) := by
      rcases clear with erased | blank
      · exact Or.inl erased
      · right
        intro row mem
        have there := behind 0
        rw [Nat.add_zero] at there
        rw [place, there, ← List.drop_drop] at mem
        exact blank row (List.mem_of_mem_drop mem)
    obtain ⟨later,last⟩ := @run_flatMap_below _ _ (visibleWidth host) next erase rest clearBelow
    constructor
    · have count : t.place + 1 + rest.length = t.place + (rest.length + 1) := by omega
      rw [later, place, front, behind, List.map_cons, List.length_cons, count]
      simp
    · rw [last, place, List.length_cons]
      omega

end rows

section full
variable {host : Host} {s : Tui} {t : Terminal CodeUnit host.rows} {lines : List JsString} {cursorPos : Option CursorPos}

theorem blank_screen {gone : List (Row CodeUnit)} {height : Nat} : BlankFrom (gone ++ List.replicate height []) gone.length := by
  intro row mem
  rw [List.drop_left] at mem
  exact List.eq_of_mem_replicate mem

/-- After the viewport was cleared, and with it the saved lines or not. -/
theorem run_cleared {clearScrollback : Bool} {gone : List (Row CodeUnit)}
    (saved : gone = if clearScrollback then [] else t.scrolled) :
    let cleared := run (visibleWidth host) t
      ([.eraseScreen, .home] ++ (if clearScrollback then [.eraseSavedLines] else []))
    cleared.sheet = gone ++ List.replicate host.rows [] ∧ cleared.place = gone.length ∧ cleared.col = 0 := by
  cases clearScrollback with
  | true =>
    rw [saved]
    exact ⟨rfl,rfl,rfl⟩
  | false =>
    rw [saved]
    exact ⟨rfl,rfl,rfl⟩

/-- The whole frame, from the top of a blank screen. -/
theorem run_whole {gone : List (Row CodeUnit)} (fits : ∀ line ∈ lines, fitLineToWidth host line = line)
    (sheet : t.sheet = gone ++ List.replicate host.rows []) (place : t.place = gone.length) (margin : t.col = 0) :
    let after := run (visibleWidth host) t (paintRows host false lines)
    after.rows = window host.rows lines ∧ after.scrolled = gone ++ (lines.map shown).take (lines.length - host.rows) ∧
      ((lines.length - 1 : Nat) : Int) = (lines.length - host.rows : Nat) + after.row := by
  have blank : BlankFrom t.sheet t.place := by
    rw [sheet, place]
    exact blank_screen
  have laid : (run (visibleWidth host) t (paintRows host false lines)).sheet = gone ++ paper host.rows lines ∧
      (run (visibleWidth host) t (paintRows host false lines)).place = gone.length + (lines.length - 1) := by
    by_cases some' : lines = []
    · rw [some']
      exact ⟨by rw [paintRows, run_nil, sheet, paper]; rfl,by rw [paintRows, run_nil, place]; rfl⟩
    · obtain ⟨written,last⟩ := run_paintRows fits some' margin (Or.inr blank)
      have long : 0 < lines.length := List.length_pos_iff.mpr some'
      constructor
      · rw [written, place, sheet, List.take_left, List.drop_length_add_append, List.drop_replicate, List.append_assoc, paper]
      · omega
  obtain ⟨rows,scrolled⟩ := settled (k := 0) laid.1 (Nat.zero_le _)
  rw [List.drop_zero] at scrolled
  refine ⟨rows,scrolled,?_⟩
  have here' := laid.2
  have size : ((lines.map shown).take (lines.length - host.rows)).length = lines.length - host.rows := by
    rw [List.length_take, List.length_map]
    omega
  rw [Terminal.place, scrolled, List.length_append, size] at here'
  have least := t.inside
  omega

/-- A full paint shows the window whatever was on the terminal, and the rest of the frame scrolls away. -/
theorem emitFullPaint_paints {clearScrollback : Bool} {gone : List (Row CodeUnit)} (steady : Steady host lines)
    (inside : Inside host lines cursorPos) (saved : gone = if clearScrollback then [] else t.scrolled) :
    Paints host t (emitFullPaint host s lines cursorPos true clearScrollback) lines
      (gone ++ (lines.map shown).take (lines.length - host.rows)) := by
  obtain ⟨sheet,place,margin⟩ := @run_cleared host t clearScrollback gone saved
  have fits : ∀ line ∈ lines, fitLineToWidth host line = line := fun line mem => (steady line mem).2
  obtain ⟨rows,scrolled,row⟩ := run_whole fits sheet place margin
  unfold emitFullPaint
  simp only [if_true]
  apply paints_commit _ inside
  · rw [run_append, run_append, run_paintBegin]
    exact rows
  · rw [run_append, run_append, run_paintBegin]
    exact row
  · rw [run_append, run_append, run_paintBegin]
    exact scrolled
  · cases clearScrollback with
    | true => rfl
    | false => rfl

end full

section repaint
variable {host : Host} {s : Tui} {t : Terminal CodeUnit host.rows} {lines : List JsString} {cursorPos : Option CursorPos}

theorem fit_empty : fitLineToWidth host [] = [] := by
  have none' : visibleWidth host [] = 0 := rfl
  rw [fitLineToWidth, none', if_pos (Nat.zero_le _), ite_self]

theorem windowLines_length : (windowLines host lines).length = host.rows := by
  rw [windowLines, List.length_map, List.length_range]

/-- The lines of the window, with empty ones below a short frame, are its rows. -/
theorem windowLines_shown : (windowLines host lines).map shown = window host.rows lines := by
  apply List.ext_getElem
  · rw [List.length_map, windowLines_length, window_length]
  · intro i within least
    rw [List.length_map, windowLines_length] at within
    simp only [windowLines, List.getElem_map, List.getElem_range, window, List.getElem_drop]
    by_cases line : lines.length - host.rows + i < lines.length
    · simp only [paper]
      rw [List.getElem_append_left (by simpa using line), List.getElem_map, List.getD_eq_getElem?_getD,
        List.getElem?_eq_getElem line, Option.getD_some]
    · simp only [paper]
      rw [List.getElem_append_right (by simpa using line), List.getElem_replicate, List.getD_eq_getElem?_getD,
        List.getElem?_eq_none (by omega)]
      rfl

theorem windowLines_fit (fits : ∀ line ∈ lines, fitLineToWidth host line = line) :
    ∀ line ∈ windowLines host lines, fitLineToWidth host line = line := by
  intro line mem
  obtain ⟨i,_,is⟩ := List.mem_map.mp mem
  rw [← is, List.getD_eq_getElem?_getD]
  cases found : lines[lines.length - host.rows + i]? with
  | none => exact fit_empty
  | some own => exact fits own (List.mem_of_getElem? found)

/-- A viewport repaint shows the window whatever was on the screen, and nothing scrolls. -/
theorem emitViewportRepaint_paints (fits : ∀ line ∈ lines, fitLineToWidth host line = line)
    (inside : Inside host lines cursorPos) : Paints host t (emitViewportRepaint host s lines cursorPos) lines t.scrolled := by
  have least := t.inside
  have some' : windowLines host lines ≠ [] := by
    rw [← List.length_pos_iff, windowLines_length]
    omega
  have home : run (visibleWidth host) t (paintBegin ++ [.home]) = { t with row := 0, col := 0, inside := by omega } := rfl
  obtain ⟨sheet,place⟩ := @run_paintRows host { t with row := 0, col := 0, inside := by omega } (windowLines host lines) true
    (windowLines_fit fits) some' rfl (Or.inl rfl)
  rw [windowLines_shown, windowLines_length] at sheet
  rw [windowLines_length] at place
  have top : ({ t with row := 0, col := 0, inside := by omega } : Terminal CodeUnit host.rows).place = t.scrolled.length := rfl
  have whole : ({ t with row := 0, col := 0, inside := by omega } : Terminal CodeUnit host.rows).sheet = t.scrolled ++ t.rows := rfl
  rw [top, whole, List.take_left, List.drop_length_add_append, List.drop_of_length_le (Nat.le_of_eq t.full), List.append_nil]
    at sheet
  rw [top] at place
  obtain ⟨rows,scrolled⟩ := settled sheet (Nat.le_refl _)
  rw [List.drop_take, Nat.sub_self, List.take_zero, List.append_nil] at scrolled
  unfold emitViewportRepaint
  apply paints_commit rfl inside
  · rw [run_append, home]
    exact rows
  · rw [run_append, home]
    rw [Terminal.place, scrolled] at place
    omega
  · rw [run_append, home]
    exact scrolled

end repaint

section shrink
variable {host : Host} {s : Tui} {t : Terminal CodeUnit host.rows} {lines : List JsString} {cursorPos : Option CursorPos}

/-- Rows erased from the row of the cursor down. -/
theorem run_eraseDown {extra : Nat} (some' : 0 < extra) (room : t.row + extra ≤ host.rows) :
    (run (visibleWidth host) t (eraseDown extra)).rows =
        t.rows.take t.row ++ List.replicate extra [] ++ t.rows.drop (t.row + extra) ∧
      (run (visibleWidth host) t (eraseDown extra)).row = t.row + (extra - 1) ∧
      (run (visibleWidth host) t (eraseDown extra)).scrolled = t.scrolled := by
  obtain ⟨k,is⟩ := Nat.exists_eq_add_of_lt some'
  rw [Nat.zero_add] at is
  have filled := t.full
  rw [is, eraseDown, run_append]
  have first : (run (visibleWidth host) t [.carriageReturn, .eraseLine]).rows = t.rows.set t.row [] := rfl
  have same : (run (visibleWidth host) t [.carriageReturn, .eraseLine]).row = t.row := rfl
  have kept : (run (visibleWidth host) t [.carriageReturn, .eraseLine]).scrolled = t.scrolled := rfl
  generalize run (visibleWidth host) t [.carriageReturn, .eraseLine] = next at first same kept
  obtain ⟨rows,row,scrolled⟩ := @run_erased _ _ (visibleWidth host) next _ erasesBelow_down k (by omega)
  refine ⟨?_,by omega,scrolled.trans kept⟩
  have front : next.rows.take (next.row + 1) = t.rows.take t.row ++ [[]] := by
    rw [first, same, List.set_eq_take_append_cons_drop, if_pos (by omega), List.take_append, List.take_take, List.length_take]
    have one : t.row + 1 - min t.row t.rows.length = 1 := by omega
    have all : min (t.row + 1) t.row = t.row := by omega
    rw [one, all]
    rfl
  have behind : next.rows.drop (next.row + 1 + k) = t.rows.drop (t.row + (k + 1)) := by
    rw [first, same, List.drop_set_of_lt (by omega)]
    congr 1
    omega
  rw [rows, front, behind, List.replicate_succ]
  simp

/-- A frame that fits is shown from the top of the screen. -/
theorem Synced.fitting (synced : Synced host s t) (fits : s.previousLines.length ≤ host.rows) :
    t.rows = paper host.rows s.previousLines ∧ s.viewportTopRow = 0 ∧ s.hardwareCursorRow = t.row ∧
      s.maxLinesRendered - host.rows = 0 := by
  have none' : s.previousLines.length - host.rows = 0 := by omega
  refine ⟨?_,?_,?_,?_⟩
  · rw [synced.screen, window, none', List.drop_zero]
  · rw [synced.top, none']
  · rw [synced.cursor, synced.top, none']
    simp
  · rw [synced.rendered, none']

/-- Rows that were behind the end of a frame, erased. -/
theorem paper_cleared {previous : List JsString} {height : Nat} (shorter : lines.length < previous.length)
    (fits : previous.length ≤ height) :
    lines.map shown ++ List.replicate (previous.length - lines.length) [] ++
      (paper height previous).drop (lines.length + (previous.length - lines.length)) = paper height lines := by
  have whole : lines.length + (previous.length - lines.length) = previous.length := by omega
  have split : height - lines.length = (previous.length - lines.length) + (height - previous.length) := by omega
  rw [whole, paper_drop (Nat.le_refl _), paper, split, List.replicate_add, List.append_assoc]

/-- To the last line that stays, down past it over the rows to erase, and back. -/
theorem run_trailing {delta : Int} {target offset extra : Nat} (reach : t.row + delta = target) (some' : 0 < extra)
    (room : target + offset + extra ≤ host.rows) :
    let after := run (visibleWidth host) t (paintBegin ++ moveRows delta ++ [.carriageReturn] ++ moveRows offset ++
      eraseDown extra ++ moveRows (-(extra - 1 + offset : Nat)))
    after.rows = t.rows.take (target + offset) ++ List.replicate extra [] ++ t.rows.drop (target + offset + extra) ∧
      after.row = target ∧ after.scrolled = t.scrolled := by
  simp only [run_append, run_paintBegin, run_cons, run_nil]
  obtain ⟨rows,scrolled,row,_⟩ := @run_moveRows host t delta (by omega) (by omega)
  generalize run (visibleWidth host) t (moveRows delta) = at' at rows scrolled row
  have margin : (exec (visibleWidth host) at' .carriageReturn).row = at'.row ∧
      (exec (visibleWidth host) at' .carriageReturn).rows = at'.rows ∧
      (exec (visibleWidth host) at' .carriageReturn).scrolled = at'.scrolled := ⟨rfl,rfl,rfl⟩
  generalize exec (visibleWidth host) at' .carriageReturn = left at margin
  obtain ⟨rows2,scrolled2,row2,_⟩ := @run_moveRows host left offset (by omega) (by omega)
  generalize run (visibleWidth host) left (moveRows offset) = first at rows2 scrolled2 row2
  obtain ⟨rows3,row3,scrolled3⟩ := @run_eraseDown host first extra some' (by omega)
  generalize run (visibleWidth host) first (eraseDown extra) = erased at rows3 row3 scrolled3
  obtain ⟨rows4,scrolled4,row4,_⟩ := @run_moveRows host erased (-(extra - 1 + offset : Nat)) (by omega) (by omega)
  have start : first.row = target + offset := by omega
  refine ⟨?_,by omega,?_⟩
  · rw [rows4, rows3, start, rows2, margin.2.1, rows]
  · rw [scrolled4, scrolled3, scrolled2, margin.2.2, scrolled]

/-- The lines that are left stay where they are, and the rows below them are erased. -/
theorem emitShrink_paints (synced : Synced host s t) (steady : Steady host lines) (inside : Inside host lines cursorPos)
    (front : lines <+: s.previousLines) (shorter : lines.length < s.previousLines.length)
    (fits : s.previousLines.length ≤ host.rows ∨ host.rows < s.previousLines.length - lines.length) :
    Paints host t (emitShrink host s lines cursorPos s.hardwareCursorRow s.viewportTopRow) lines t.scrolled := by
  have some' : s.previousLines.length - lines.length ≠ 0 := by omega
  by_cases many : host.rows < s.previousLines.length - lines.length
  · rw [emitShrink, if_neg some', if_pos many]
    exact emitViewportRepaint_paints (fun line mem => (steady line mem).2) inside
  · have short := fits.resolve_right many
    obtain ⟨screen,top,cursor,max'⟩ := synced.fitting short
    have within := t.inside
    have window' : window host.rows lines = paper host.rows lines := by
      rw [window, Nat.sub_eq_zero_of_le (by omega), List.drop_zero]
    rw [emitShrink, if_neg some', if_neg many]
    simp only [top, cursor, max']
    generalize offset : (if lines.length = 0 then 0 else 1) = clearStartOffset
    have placed : lines.length - 1 + clearStartOffset = lines.length := by
      rw [← offset]
      split <;> omega
    generalize delta : (((lines.length - 1 : Nat) : Int) - ((0 : Nat) : Int) -
      (min (t.row : Int) (((0 : Nat) : Int) + host.rows - 1) - ((0 : Nat) : Int))) = toTarget
    have reach : t.row + toTarget = (lines.length - 1 : Nat) := by omega
    obtain ⟨rows,row,scrolled⟩ := @run_trailing host t toTarget (lines.length - 1) clearStartOffset
      (s.previousLines.length - lines.length) reach (by omega) (by omega)
    have kept : (paper host.rows s.previousLines).take lines.length = lines.map shown := by
      obtain ⟨rest,is⟩ := front
      rw [paper_take (Nat.le_of_lt shorter), ← is, List.map_append, List.take_append_of_le_length (by rw [List.length_map]),
        List.take_of_length_le (by rw [List.length_map])]
    rw [placed, screen, kept, paper_cleared shorter short] at rows
    exact paints_commit rfl inside (rows.trans window'.symm) (by omega) scrolled

end shrink

section diff
variable {host : Host} {s : Tui} {t : Terminal CodeUnit host.rows} {lines : List JsString} {cursorPos : Option CursorPos}
  {first last stop : Nat}

theorem Synced.on_screen (synced : Synced host s t) :
    min s.hardwareCursorRow (s.viewportTopRow + host.rows - 1) = s.hardwareCursorRow := by
  have within := t.inside
  have cursor := synced.cursor
  omega

/-- A row on the screen is reached without scrolling. -/
theorem scrollToTarget_still (synced : Synced host s t) {target : Nat} (reach : target < s.viewportTopRow + host.rows) :
    scrollToTarget host s target s.viewportTopRow s.hardwareCursorRow =
      ⟨[],s.viewportTopRow,s.viewportTopRow,s.hardwareCursorRow⟩ := by
  have short : ¬ ((s.viewportTopRow : Int) + host.rows - 1 < target) := by omega
  have max' : s.maxLinesRendered - host.rows = s.viewportTopRow := by rw [synced.rendered, synced.top]
  rw [scrollToTarget]
  simp only [if_neg short, max', synced.on_screen]

/- The controls in front of the rewritten rows, for a change that starts at `first`. -/
def approach (host : Host) (s : Tui) (appendStart : Bool) (first : Nat) : List (Control CodeUnit) :=
  let moveTargetRow := if appendStart then first - 1 else first
  let start := scrollToTarget host s moveTargetRow s.viewportTopRow s.hardwareCursorRow
  paintBegin ++ start.controls ++
    moveRows ((moveTargetRow : Int) - start.viewportTop - (start.hardwareCursorRow - start.activeViewportTop)) ++
    (if appendStart then [.carriageReturn, .lineFeed] else [.carriageReturn])

theorem appended_rows {erase : Bool} {line : JsString} {rest : List JsString} :
    [.carriageReturn, .lineFeed] ++ paintRows host erase (line :: rest) =
      (line :: rest).flatMap fun line => below erase (fitLineToWidth host line) := by
  rw [paintRows, List.flatMap_cons, below, List.append_assoc]

/-- The rewritten rows lie where the change starts, at the end of the frame after a line feed. -/
theorem run_changed (synced : Synced host s t) (fits : ∀ line ∈ lines, fitLineToWidth host line = line) (some' : lines ≠ [])
    {appendStart : Bool} (visible : s.viewportTopRow ≤ first)
    (reach : if appendStart then 0 < first ∧ first = s.previousLines.length else first < s.viewportTopRow + host.rows) :
    let after := run (visibleWidth host) t (approach host s appendStart first ++ paintRows host true lines)
    after.sheet = t.sheet.take (t.scrolled.length + (first - s.viewportTopRow)) ++ lines.map shown ++
        t.sheet.drop (t.scrolled.length + (first - s.viewportTopRow) + lines.length) ∧
      after.place + 1 = t.scrolled.length + (first - s.viewportTopRow) + lines.length := by
  have within := t.inside
  have cursor := synced.cursor
  have top := synced.top
  cases appendStart with
  | false =>
    simp only [Bool.false_eq_true, if_false] at reach
    simp only [approach, Bool.false_eq_true, if_false, scrollToTarget_still synced reach, List.append_nil, run_append,
      run_paintBegin, run_cons, run_nil]
    generalize delta : ((first : Int) - s.viewportTopRow - (s.hardwareCursorRow - s.viewportTopRow)) = d
    obtain ⟨rows,scrolled,row,_⟩ := @run_moveRows host t d (by omega) (by omega)
    generalize run (visibleWidth host) t (moveRows d) = moved at rows scrolled row
    have place : (exec (visibleWidth host) moved .carriageReturn).place = t.scrolled.length + (first - s.viewportTopRow) := by
      show moved.scrolled.length + moved.row = _
      rw [scrolled]
      omega
    have sheet : (exec (visibleWidth host) moved .carriageReturn).sheet = t.sheet := by
      show moved.scrolled ++ moved.rows = t.scrolled ++ t.rows
      rw [scrolled, rows]
    obtain ⟨written,last⟩ := @run_paintRows host (exec (visibleWidth host) moved .carriageReturn) lines true fits some' rfl (Or.inl rfl)
    rw [sheet, place] at written
    rw [place] at last
    exact ⟨written,last⟩
  | true =>
    simp only [if_true] at reach
    obtain ⟨least,end'⟩ := reach
    cases lines with
    | nil => exact absurd rfl some'
    | cons line rest =>
      simp only [approach, if_true, @scrollToTarget_still host s t synced (first - 1) (by omega), List.append_nil]
      rw [List.append_assoc, appended_rows, flatMap_fitted fits, run_append, run_append, run_paintBegin]
      generalize delta : (((first - 1 : Nat) : Int) - s.viewportTopRow - (s.hardwareCursorRow - s.viewportTopRow)) = d
      obtain ⟨rows,scrolled,row,_⟩ := @run_moveRows host t d (by omega) (by omega)
      generalize run (visibleWidth host) t (moveRows d) = moved at rows scrolled row
      have place : moved.place + 1 = t.scrolled.length + (first - s.viewportTopRow) := by
        rw [Terminal.place, scrolled]
        omega
      have sheet : moved.sheet = t.sheet := by
        rw [Terminal.sheet, Terminal.sheet, scrolled, rows]
      obtain ⟨written,last⟩ := @run_flatMap_below _ _ (visibleWidth host) moved true (line :: rest) (Or.inl rfl)
      rw [sheet, place] at written
      exact ⟨written,by omega⟩

/-- The beginning of a list of rows up to `stop`, from `top` on, cut once more in between. -/
theorem drop_parts {rows : List (Row CodeUnit)} {top : Nat} (below' : top ≤ first) (within : first ≤ rows.length) :
    rows.drop top = (rows.take first).drop top ++ rows.drop first := by
  have size : top ≤ (rows.take first).length := by
    rw [List.length_take]
    omega
  calc rows.drop top = (rows.take first ++ rows.drop first).drop top := by rw [List.take_append_drop]
    _ = (rows.take first).drop top ++ rows.drop first := by rw [List.drop_append_of_le_length size]

/-- What the sheet is once the rows from the first change up to `stop` are rewritten. -/
theorem sheet_changed (synced : Synced host s t) (same : lines.take first = s.previousLines.take first)
    (known : first ≤ s.previousLines.length) (visible : s.viewportTopRow ≤ first) (ordered : first ≤ stop)
    (within : stop ≤ lines.length) :
    t.sheet.take (t.scrolled.length + (first - s.viewportTopRow)) ++ ((lines.take stop).drop first).map shown ++
        t.sheet.drop (t.scrolled.length + (first - s.viewportTopRow) + ((lines.take stop).drop first).length) =
      t.scrolled ++ (((lines.map shown).take stop).drop s.viewportTopRow ++ (paper host.rows s.previousLines).drop stop) := by
  have size : ((lines.take stop).drop first).length = stop - first := by
    rw [List.length_drop, List.length_take]
    omega
  have sheet : t.sheet = t.scrolled ++ (paper host.rows s.previousLines).drop s.viewportTopRow := by
    rw [Terminal.sheet, synced.screen, window, synced.top]
  have front : ((paper host.rows s.previousLines).drop s.viewportTopRow).take (first - s.viewportTopRow) =
      (((lines.map shown).take stop).take first).drop s.viewportTopRow := by
    rw [← List.drop_take, paper_take known, ← List.map_take, ← same, List.take_take, Nat.min_eq_left ordered, List.map_take]
  have behind : ((paper host.rows s.previousLines).drop s.viewportTopRow).drop (first - s.viewportTopRow + (stop - first)) =
      (paper host.rows s.previousLines).drop stop := by
    rw [List.drop_drop]
    congr 1
    omega
  have parts := @drop_parts first ((lines.map shown).take stop) s.viewportTopRow visible
    (by rw [List.length_take, List.length_map]; omega)
  rw [sheet, List.take_length_add_append, size, Nat.add_assoc, List.drop_length_add_append, front, behind, parts,
    List.map_drop, List.map_take]
  simp

/-- The rows behind `stop` are those of the new frame already. -/
theorem paper_rejoined {previous : List JsString} {height top : Nat} (tail : (paper height previous).drop stop = (paper height lines).drop stop)
    (below' : top ≤ stop) (within : stop ≤ lines.length) :
    ((lines.map shown).take stop).drop top ++ (paper height previous).drop stop = (paper height lines).drop top := by
  have long : stop ≤ (paper height lines).length := by
    rw [paper_length]
    omega
  rw [tail, ← paper_take within, ← drop_parts below' long]

/-- A rewritten frame that is not shorter: what grows beyond the window scrolls away with the rows it has then. -/
theorem emitDiff_paints (synced : Synced host s t) (steady : Steady host lines) (inside : Inside host lines cursorPos)
    (least : first < lines.length) (visible : s.viewportTopRow ≤ first) (same : lines.take first = s.previousLines.take first)
    (known : first ≤ s.previousLines.length) (longer : s.previousLines.length ≤ lines.length)
    (fresh : first = s.previousLines.length → s.previousLines.length < lines.length) (ordered : first ≤ last)
    (tail : (paper host.rows s.previousLines).drop (min last (lines.length - 1) + 1) =
      (paper host.rows lines).drop (min last (lines.length - 1) + 1)) :
    Paints host t (emitDiff host s lines cursorPos first last (decide (s.previousLines.length < lines.length)) s.viewportTopRow
      s.hardwareCursorRow) lines (t.scrolled ++ ((lines.map shown).take (lines.length - host.rows)).drop s.viewportTopRow) := by
  have end' : min (last : Int) (lines.length - 1) = (min last (lines.length - 1) : Nat) := by omega
  have still : clearTrailing s lines (min last (lines.length - 1) : Nat) = ([], ((min last (lines.length - 1) : Nat) : Int)) := by
    rw [clearTrailing, if_neg (by omega)]
  generalize made : min last (lines.length - 1) = final at *
  have top := synced.top
  have within := t.inside
  have count : ((final : Int) + 1).toNat = final + 1 := by omega
  have written : (lines.take (final + 1)).drop first ≠ [] := by
    rw [← List.length_pos_iff, List.length_drop, List.length_take]
    omega
  have fits : ∀ line ∈ (lines.take (final + 1)).drop first, fitLineToWidth host line = line := fun line mem =>
    (steady line (List.mem_of_mem_take (List.mem_of_mem_drop mem))).2
  generalize start : (decide (s.previousLines.length < lines.length) && first == s.previousLines.length && decide (0 < first)) = appendStart
  have reach : if appendStart then 0 < first ∧ first = s.previousLines.length else first < s.viewportTopRow + host.rows := by
    rw [← start]
    split
    · rename_i appends
      simp only [Bool.and_eq_true, decide_eq_true_eq, beq_iff_eq] at appends
      exact ⟨appends.2,appends.1.2⟩
    · rename_i other
      simp only [Bool.and_eq_true, decide_eq_true_eq, beq_iff_eq] at other
      omega
  obtain ⟨sheet,place⟩ := @run_changed host s t _ first synced fits written appendStart visible reach
  rw [sheet_changed synced same known visible (by omega) (by omega), paper_rejoined tail (by omega) (by omega)] at sheet
  obtain ⟨rows,scrolled⟩ := settled sheet (by omega)
  unfold emitDiff
  simp only [start, end', still, count, List.append_nil]
  have row : (final : Int) = (lines.length - host.rows : Nat) +
      (run (visibleWidth host) t (approach host s appendStart first ++
        paintRows host true ((lines.take (final + 1)).drop first))).row := by
    rw [Terminal.place, scrolled] at place
    simp only [List.length_append, List.length_drop, List.length_take, List.length_map] at place
    omega
  exact paints_commit rfl inside rows row scrolled

/-- The rows of a longer frame, cleared from below the last line of the new one. -/
theorem run_clearTrailing {extra : Nat} (room : t.row + extra < host.rows) :
    let after := run (visibleWidth host) t
      ((List.replicate extra [.carriageReturn, .lineFeed, .eraseLine]).flatten ++ [.up extra])
    after.rows = t.rows.take (t.row + 1) ++ List.replicate extra [] ++ t.rows.drop (t.row + 1 + extra) ∧
      after.row = t.row ∧ after.scrolled = t.scrolled := by
  obtain ⟨rows,row,scrolled⟩ := @run_erased _ _ (visibleWidth host) t _ erasesBelow_lineFeed extra room
  simp only [run_append, run_cons, run_nil]
  generalize run (visibleWidth host) t (List.replicate extra [.carriageReturn, .lineFeed, .eraseLine]).flatten = erased
    at rows row scrolled
  refine ⟨rows,?_,scrolled⟩
  show erased.row - extra = t.row
  omega

/-- A rewritten frame that is shorter, where the previous one fitted the screen. -/
theorem emitDiff_paints_shorter (synced : Synced host s t) (steady : Steady host lines) (inside : Inside host lines cursorPos)
    (least : first < lines.length) (same : lines.take first = s.previousLines.take first)
    (shorter : lines.length < s.previousLines.length) (fitting : s.previousLines.length ≤ host.rows)
    (ends : last + 1 = s.previousLines.length) :
    Paints host t (emitDiff host s lines cursorPos first last false s.viewportTopRow s.hardwareCursorRow) lines t.scrolled := by
  obtain ⟨screen,top,cursor,_⟩ := synced.fitting fitting
  have end' : min (last : Int) (lines.length - 1) = (lines.length - 1 : Nat) := by omega
  have count : (((lines.length - 1 : Nat) : Int) + 1).toNat = lines.length := by omega
  have within := t.inside
  have written : (lines.take lines.length).drop first ≠ [] := by
    rw [← List.length_pos_iff, List.length_drop, List.length_take]
    omega
  have fits : ∀ line ∈ (lines.take lines.length).drop first, fitLineToWidth host line = line := fun line mem =>
    (steady line (List.mem_of_mem_take (List.mem_of_mem_drop mem))).2
  have reach : if false = true then 0 < first ∧ first = s.previousLines.length else first < s.viewportTopRow + host.rows := by
    rw [if_neg (by simp)]
    omega
  obtain ⟨sheet,place⟩ := @run_changed host s t _ first synced fits written false (by omega) reach
  have whole : (lines.map shown).take lines.length = lines.map shown := List.take_of_length_le (by rw [List.length_map])
  rw [sheet_changed synced same (by omega) (by omega) (by omega) (Nat.le_refl _), top, List.drop_zero, whole] at sheet
  generalize runs : run (visibleWidth host) t (approach host s false first ++
    paintRows host true ((lines.take lines.length).drop first)) = next at sheet place
  have size : next.sheet.length = t.scrolled.length + host.rows := by
    rw [sheet, List.length_append, List.length_append, List.length_map, List.length_drop, paper_length]
    omega
  have scrolled : next.scrolled = t.scrolled := by
    rw [scrolled_eq, size, Nat.add_sub_cancel, sheet, List.take_left]
  have rows : next.rows = lines.map shown ++ (paper host.rows s.previousLines).drop lines.length := by
    rw [rows_eq, size, Nat.add_sub_cancel, sheet, List.drop_left]
  have row : next.row + 1 = lines.length := by
    rw [Terminal.place, scrolled, List.length_drop, List.length_take] at place
    omega
  obtain ⟨cleared,back,kept⟩ := @run_clearTrailing host next (s.previousLines.length - lines.length) (by omega)
  have trailing : clearTrailing s lines (lines.length - 1 : Nat) =
      ((List.replicate (s.previousLines.length - lines.length) [.carriageReturn, .lineFeed, .eraseLine]).flatten ++
        [.up (s.previousLines.length - lines.length)], ((lines.length - 1 : Nat) : Int)) := by
    have none' : max 0 ((lines.length : Int) - 1 - (lines.length - 1 : Nat)) = 0 := by omega
    have final : ¬ (((lines.length - 1 : Nat) : Int) < lines.length - 1) := by omega
    rw [clearTrailing, if_pos shorter]
    simp only [none', if_neg final]
    rfl
  unfold emitDiff
  simp only [end', count, trailing, if_neg (Nat.lt_asymm shorter), Bool.false_and]
  have final : (next.rows).take lines.length ++ List.replicate (s.previousLines.length - lines.length) [] ++
      next.rows.drop (lines.length + (s.previousLines.length - lines.length)) = window host.rows lines := by
    have front : next.rows.take lines.length = lines.map shown := by
      rw [rows, List.take_left' (by rw [List.length_map])]
    have behind : next.rows.drop (lines.length + (s.previousLines.length - lines.length)) =
        (paper host.rows s.previousLines).drop (lines.length + (s.previousLines.length - lines.length)) := by
      rw [rows, ← List.drop_drop, List.drop_left' (by rw [List.length_map]), List.drop_drop]
    rw [front, behind, paper_cleared shorter fitting, window, Nat.sub_eq_zero_of_le (by omega), List.drop_zero]
  rw [row] at cleared
  have body : run (visibleWidth host) t (approach host s false first ++
      paintRows host true ((lines.take lines.length).drop first) ++
      ((List.replicate (s.previousLines.length - lines.length) [.carriageReturn, .lineFeed, .eraseLine]).flatten ++
        [.up (s.previousLines.length - lines.length)])) =
      run (visibleWidth host) next
        ((List.replicate (s.previousLines.length - lines.length) [.carriageReturn, .lineFeed, .eraseLine]).flatten ++
          [.up (s.previousLines.length - lines.length)]) := by
    rw [run_append, runs]
  have final' : ((lines.length - 1 : Nat) : Int) = (lines.length - host.rows : Nat) +
      (run (visibleWidth host) t (approach host s false first ++
        paintRows host true ((lines.take lines.length).drop first) ++
        ((List.replicate (s.previousLines.length - lines.length) [.carriageReturn, .lineFeed, .eraseLine]).flatten ++
          [.up (s.previousLines.length - lines.length)]))).row := by
    rw [body, back]
    omega
  exact paints_commit rfl inside ((congrArg Terminal.rows body).trans (cleared.trans final)) final'
    ((congrArg Terminal.scrolled body).trans (kept.trans scrolled))

end diff

section append
variable {host : Host} {s : Tui} {t : Terminal CodeUnit host.rows} {lines : List JsString}

/-- The appended lines push what they grow beyond the window off a full screen. -/
theorem emitAppendTail_scrolls (synced : Synced host s t) (fits : ∀ line ∈ lines, fitLineToWidth host line = line)
    (full : host.rows ≤ s.previousLines.length) (front : s.previousLines <+: lines) (longer : s.previousLines.length < lines.length) :
    (run (visibleWidth host) t
        (emitAppendTail host s lines s.previousLines.length s.viewportTopRow s.hardwareCursorRow).1).scrolled =
      t.scrolled ++ ((lines.map shown).take (lines.length - host.rows)).drop s.viewportTopRow := by
  obtain ⟨added,is⟩ := front
  have within := t.inside
  have cursor := synced.cursor
  have top := synced.top
  have fitsAdded : ∀ line ∈ added, fitLineToWidth host line = line := by
    intro line mem
    apply fits
    rw [← is]
    exact List.mem_append_right _ mem
  have rest : lines.drop s.previousLines.length = added := by
    rw [← is, List.drop_left]
  rw [emitAppendTail, if_neg (by omega)]
  simp only [synced.on_screen, rest, flatMap_fitted fitsAdded, run_append, run_paintBegin, run_paintEnd]
  generalize delta : ((host.rows : Int) - 1 - max 0 (min ((host.rows : Int) - 1) (s.hardwareCursorRow - s.viewportTopRow))) = d
  obtain ⟨rows,scrolled,row,_⟩ := @run_moveRows host t d (by omega) (by omega)
  generalize run (visibleWidth host) t (moveRows d) = bottom at rows scrolled row
  have sheet : bottom.sheet = t.sheet := by
    rw [Terminal.sheet, Terminal.sheet, scrolled, rows]
  have size : t.sheet.length = t.scrolled.length + host.rows := sheet_length
  have place : bottom.place + 1 = t.sheet.length := by
    rw [Terminal.place, scrolled]
    omega
  have clear : BlankFrom bottom.sheet (bottom.place + 1) := by
    intro other mem
    rw [sheet, place, List.drop_length] at mem
    contradiction
  obtain ⟨laid,_⟩ := @run_flatMap_below _ _ (visibleWidth host) bottom false added (Or.inr clear)
  rw [sheet, place, List.take_length, List.drop_of_length_le (by omega), List.append_nil] at laid
  have whole : t.sheet ++ added.map shown = t.scrolled ++ (paper host.rows lines).drop s.viewportTopRow := by
    have none' : host.rows - s.previousLines.length = 0 := by omega
    have none'' : host.rows - lines.length = 0 := by omega
    rw [Terminal.sheet, synced.screen, window, top, paper, paper, none', none'', List.replicate_zero, List.append_nil,
      List.append_nil, ← is, List.map_append, List.append_assoc, List.drop_append_of_le_length (by rw [List.length_map]; omega)]
  rw [whole] at laid
  exact (settled laid (by omega)).2

end append

end TuiEmitters
