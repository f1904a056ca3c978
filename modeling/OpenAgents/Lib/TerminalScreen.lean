import Mathlib.Data.List.Basic
import Mathlib.Data.List.TakeDrop
import Mathlib.Tactic.Cases

/- A terminal as a screen of rows over the lines that have scrolled away, the controls written to it, and
   what writing lines one below the other leaves. The two parts are read as one sheet of rows, on which a
   line feed only ever steps to the next row. -/
namespace TerminalScreen
variable {α : Type}

/- A row as what was written on it since it was erased, each piece with the column it starts in. -/
abbrev Row (α : Type) := List (Nat × List α)

inductive Control (α : Type) where
  | text (s : List α)
  | carriageReturn
  | lineFeed
  | up (n : Nat)
  | down (n : Nat)
  | column (n : Nat)
  | home
  | eraseLine
  | eraseScreen
  | eraseSavedLines
  | setMode (n : Nat)
  | resetMode (n : Nat)
  deriving DecidableEq

/-- The screen always has its height, and the cursor is on it. -/
structure Terminal (α : Type) (height : Nat) where
  rows : List (Row α)
  row : Nat
  col : Nat
  scrolled : List (Row α)
  full : rows.length = height
  inside : row < height

def piece (col : Nat) (s : List α) : Row α := if s.isEmpty then [] else [(col, s)]

/- The row of a line that was written from the first column of a blank row. -/
def shown (s : List α) : Row α := piece 0 s

variable {height : Nat} (width : List α → Nat)

/- Columns are counted from 1 by the control that sets one. Modes change nothing that is shown. -/
def exec (t : Terminal α height) : Control α → Terminal α height
  | .text s =>
      { t with
        rows := t.rows.set t.row (t.rows.getD t.row [] ++ piece t.col s)
        col := t.col + width s
        full := by rw [List.length_set, t.full] }
  | .carriageReturn => { t with col := 0 }
  | .lineFeed =>
      if below : t.row + 1 < height then { t with row := t.row + 1, inside := below }
      else
        { t with
          rows := t.rows.drop 1 ++ [[]]
          scrolled := t.scrolled ++ t.rows.take 1
          full := by
            have := t.full
            have := t.inside
            simp only [List.length_append, List.length_drop, List.length_cons, List.length_nil]
            omega }
  | .up n => { t with row := t.row - n, inside := by have := t.inside; omega }
  | .down n => { t with row := min (t.row + n) (height - 1), inside := by have := t.inside; omega }
  | .column n => { t with col := n - 1 }
  | .home => { t with row := 0, col := 0, inside := by have := t.inside; omega }
  | .eraseLine => { t with rows := t.rows.set t.row [], full := by rw [List.length_set, t.full] }
  | .eraseScreen => { t with rows := List.replicate height [], full := List.length_replicate }
  | .eraseSavedLines => { t with scrolled := [] }
  | .setMode _ => t
  | .resetMode _ => t

def run (t : Terminal α height) (controls : List (Control α)) : Terminal α height :=
  controls.foldl (exec width) t

namespace Terminal

def sheet (t : Terminal α height) : List (Row α) := t.scrolled ++ t.rows

/- The row of the sheet the cursor is on. -/
def place (t : Terminal α height) : Nat := t.scrolled.length + t.row

end Terminal

variable {width} {t : Terminal α height}

@[simp] theorem run_nil : run width t [] = t := rfl

@[simp] theorem run_cons (control : Control α) (rest : List (Control α)) :
    run width t (control :: rest) = run width (exec width t control) rest := rfl

theorem run_append (first second : List (Control α)) :
    run width t (first ++ second) = run width (run width t first) second := by
  unfold run
  exact List.foldl_append

theorem sheet_length : t.sheet.length = t.scrolled.length + height := by
  unfold Terminal.sheet
  rw [List.length_append, t.full]

theorem place_lt : t.place < t.sheet.length := by
  have := t.inside
  rw [sheet_length, Terminal.place]
  omega

theorem rows_eq : t.rows = t.sheet.drop (t.sheet.length - height) := by
  have gone : t.sheet.length - height = t.scrolled.length := by
    rw [sheet_length]
    omega
  rw [gone, Terminal.sheet, List.drop_left]

theorem scrolled_eq : t.scrolled = t.sheet.take (t.sheet.length - height) := by
  have gone : t.sheet.length - height = t.scrolled.length := by
    rw [sheet_length]
    omega
  rw [gone, Terminal.sheet, List.take_left]

/-- What was put on the row of the cursor, on the sheet. -/
theorem sheet_set (row : Row α) : t.scrolled ++ t.rows.set t.row row =
    t.sheet.take t.place ++ row :: t.sheet.drop (t.place + 1) := by
  have within : t.row < t.rows.length := by
    rw [t.full]
    exact t.inside
  have rest : (t.scrolled ++ t.rows).drop (t.scrolled.length + t.row + 1) = t.rows.drop (t.row + 1) := by
    rw [Nat.add_assoc, List.drop_length_add_append]
  rw [List.set_eq_take_append_cons_drop, if_pos within, Terminal.sheet, Terminal.place, List.take_length_add_append, rest,
    List.append_assoc]

/-- A line feed steps to the next row of the sheet, which is a new one at the end. -/
theorem exec_lineFeed : (exec width t .lineFeed).sheet = t.sheet ++ List.replicate (t.place + 2 - t.sheet.length) [] ∧
    (exec width t .lineFeed).place = t.place + 1 ∧ (exec width t .lineFeed).col = t.col := by
  have filled := t.full
  have within := t.inside
  have size : t.sheet.length = t.scrolled.length + height := sheet_length
  by_cases more : t.row + 1 < height
  · have none' : t.place + 2 - t.sheet.length = 0 := by
      unfold Terminal.place
      omega
    rw [exec, dif_pos more, none']
    exact ⟨(List.append_nil _).symm,rfl,rfl⟩
  · have one : t.place + 2 - t.sheet.length = 1 := by
      unfold Terminal.place
      omega
    rw [exec, dif_neg more, one]
    refine ⟨?_,?_,rfl⟩
    · unfold Terminal.sheet
      rw [List.append_assoc, ← List.append_assoc (t.rows.take 1), List.take_append_drop, List.append_assoc]
      rfl
    · simp only [Terminal.place, List.length_append, List.length_take]
      omega

/- One line from the first column of the row the cursor is on. -/
def here (erase : Bool) (line : List α) : List (Control α) :=
  (if erase then [.eraseLine] else []) ++ [.text line]

/- And the same on the row below. -/
def below (erase : Bool) (line : List α) : List (Control α) :=
  [.carriageReturn, .lineFeed] ++ here erase line

theorem run_here {erase : Bool} {line : List α} (margin : t.col = 0)
    (clear : erase = true ∨ t.rows.getD t.row [] = []) :
    (run width t (here erase line)).sheet = t.sheet.take t.place ++ shown line :: t.sheet.drop (t.place + 1) ∧
      (run width t (here erase line)).place = t.place := by
  have within : t.row < t.rows.length := by
    rw [t.full]
    exact t.inside
  cases erase with
  | true =>
    have blank : (t.rows.set t.row []).getD t.row [] = [] := by
      rw [List.getD_eq_getElem?_getD, List.getElem?_set_self within, Option.getD_some]
    constructor
    · simp only [here, if_true, List.cons_append, List.nil_append, run_cons, run_nil, exec, Terminal.sheet, blank,
        List.set_set, margin]
      exact sheet_set (shown line)
    · simp [here, exec, Terminal.place]
  | false =>
    have blank : t.rows.getD t.row [] = [] := by simpa using clear
    constructor
    · simp only [here, Bool.false_eq_true, if_false, List.nil_append, run_cons, run_nil, exec, Terminal.sheet, blank,
        margin]
      exact sheet_set (shown line)
    · simp [here, exec, Terminal.place]

/- Whether a row of the sheet can be written without being erased. -/
def BlankFrom (sheet : List (Row α)) (i : Nat) : Prop := ∀ row ∈ sheet.drop i, row = []

theorem blank_row (clean : BlankFrom t.sheet t.place) : t.rows.getD t.row [] = [] := by
  have within := t.inside
  have filled := t.full
  have found : t.sheet[t.place]? = some (t.rows.getD t.row []) := by
    rw [Terminal.sheet, Terminal.place, List.getElem?_append_right (Nat.le_add_right _ _), Nat.add_sub_cancel_left,
      List.getD_eq_getElem?_getD, List.getElem?_eq_getElem (by omega), Option.getD_some]
  apply clean
  rw [List.mem_iff_getElem?]
  exact ⟨0,by rw [List.getElem?_drop, Nat.add_zero, found]⟩

/-- One line more, on the row below the cursor. -/
theorem run_below {erase : Bool} {line : List α} (clear : erase = true ∨ BlankFrom t.sheet (t.place + 1)) :
    (run width t (below erase line)).sheet = t.sheet.take (t.place + 1) ++ shown line :: t.sheet.drop (t.place + 2) ∧
      (run width t (below erase line)).place = t.place + 1 := by
  have bound : t.place < t.sheet.length := place_lt
  obtain ⟨sheet,place,col⟩ := @exec_lineFeed α height width (exec width t .carriageReturn)
  generalize made : exec width (exec width t .carriageReturn) .lineFeed = next at sheet place col
  have before : (exec width t .carriageReturn).sheet = t.sheet ∧ (exec width t .carriageReturn).place = t.place := ⟨rfl,rfl⟩
  rw [before.1, before.2] at sheet
  rw [before.2] at place
  have front : next.sheet.take (t.place + 1) = t.sheet.take (t.place + 1) := by
    rw [sheet, List.take_append_of_le_length bound]
  have rest : next.sheet.drop (t.place + 2) = t.sheet.drop (t.place + 2) := by
    rw [sheet, List.drop_append, List.drop_replicate, Nat.sub_self, List.replicate_zero, List.append_nil]
  have clear' : erase = true ∨ next.rows.getD next.row [] = [] := by
    rcases clear with erased | blank
    · exact Or.inl erased
    · right
      apply blank_row
      intro row mem
      rw [place, sheet, List.drop_append_of_le_length bound, List.mem_append] at mem
      rcases mem with old | new
      · exact blank row old
      · exact List.eq_of_mem_replicate new
  have done := @run_here α height width next erase line col clear'
  rw [place, front, rest] at done
  have runs : run width t (below erase line) = run width next (here erase line) := by
    rw [below, run_append, run_cons, run_cons, run_nil, made]
  rw [runs]
  exact done

/-- Lines written one below the other, from the row below the cursor. -/
theorem run_flatMap_below {erase : Bool} (lines : List (List α)) (clear : erase = true ∨ BlankFrom t.sheet (t.place + 1)) :
    (run width t (lines.flatMap (below erase))).sheet =
        t.sheet.take (t.place + 1) ++ lines.map shown ++ t.sheet.drop (t.place + 1 + lines.length) ∧
      (run width t (lines.flatMap (below erase))).place = t.place + lines.length := by
  induction lines generalizing t with
  | nil => simp
  | cons line rest ih =>
    obtain ⟨sheet,place⟩ := @run_below α height width t erase line clear
    rw [List.flatMap_cons, run_append]
    generalize run width t (below erase line) = next at sheet place
    have bound : t.place < t.sheet.length := place_lt
    have size : (t.sheet.take (t.place + 1)).length = t.place + 1 := by
      rw [List.length_take]
      omega
    have behind : ∀ k, next.sheet.drop (t.place + 2 + k) = t.sheet.drop (t.place + 2 + k) := by
      intro k
      have shift : t.place + 2 + k = (t.sheet.take (t.place + 1)).length + (k + 1) := by omega
      rw [sheet, shift, List.drop_length_add_append, List.drop_succ_cons, List.drop_drop]
      congr 1
    have clear' : erase = true ∨ BlankFrom next.sheet (next.place + 1) := by
      rcases clear with erased | blank
      · exact Or.inl erased
      · right
        intro row mem
        rw [place, behind 0] at mem
        apply blank
        rw [show t.place + 2 + 0 = t.place + 1 + 1 by omega, ← List.drop_drop] at mem
        exact List.mem_of_mem_drop mem
    obtain ⟨later,last⟩ := ih clear'
    have front : next.sheet.take (t.place + 2) = t.sheet.take (t.place + 1) ++ [shown line] := by
      have two : t.place + 2 = (t.sheet.take (t.place + 1)).length + 1 := by omega
      rw [sheet, two, List.take_length_add_append]
      rfl
    constructor
    · have count : t.place + 2 + rest.length = t.place + 1 + (rest.length + 1) := by omega
      rw [later, place, front, behind, List.map_cons, List.length_cons, count]
      simp
    · rw [last, place, List.length_cons]
      omega

/- Controls that step to the row below and erase it, on the screen. -/
def ErasesBelow (next : List (Control α)) : Prop :=
  ∀ t : Terminal α height, t.row + 1 < height → (run width t next).rows = t.rows.set (t.row + 1) [] ∧
    (run width t next).row = t.row + 1 ∧ (run width t next).scrolled = t.scrolled

/-- Rows erased going down, as far as the screen reaches. -/
theorem run_erased {next : List (Control α)} (erases : @ErasesBelow α height width next) {k : Nat} (room : t.row + k < height) :
    (run width t (List.replicate k next).flatten).rows =
        t.rows.take (t.row + 1) ++ List.replicate k [] ++ t.rows.drop (t.row + 1 + k) ∧
      (run width t (List.replicate k next).flatten).row = t.row + k ∧
      (run width t (List.replicate k next).flatten).scrolled = t.scrolled := by
  induction k generalizing t with
  | zero => simp
  | succ k ih =>
    have filled := t.full
    obtain ⟨rows,row,scrolled⟩ := erases t (by omega)
    rw [List.replicate_succ, List.flatten_cons, run_append]
    generalize run width t next = after at rows row scrolled
    obtain ⟨laterRows,laterRow,laterScrolled⟩ := @ih after (by omega)
    have front : after.rows.take (after.row + 1) = t.rows.take (t.row + 1) ++ [[]] := by
      rw [rows, row, List.set_eq_take_append_cons_drop, if_pos (by omega), List.take_append, List.take_take,
        List.length_take]
      have one : t.row + 1 + 1 - min (t.row + 1) t.rows.length = 1 := by omega
      have all : min (t.row + 1 + 1) (t.row + 1) = t.row + 1 := by omega
      rw [one, all]
      rfl
    have behind : after.rows.drop (after.row + 1 + k) = t.rows.drop (t.row + 1 + (k + 1)) := by
      rw [rows, row, List.drop_set_of_lt (by omega)]
      congr 1
      omega
    refine ⟨?_,by omega,laterScrolled.trans scrolled⟩
    rw [laterRows, front, behind, List.replicate_succ]
    simp

theorem erasesBelow_lineFeed : @ErasesBelow α height width [.carriageReturn, .lineFeed, .eraseLine] := by
  intro t room
  have inner : (exec width t .carriageReturn).row + 1 < height := room
  simp only [run_cons, run_nil]
  rw [exec.eq_def width (exec width t .carriageReturn), dif_pos inner]
  exact ⟨rfl,rfl,rfl⟩

theorem erasesBelow_down : @ErasesBelow α height width [.down 1, .carriageReturn, .eraseLine] := by
  intro t room
  have least : min (t.row + 1) (height - 1) = t.row + 1 := by omega
  simp [run, exec, least]

end TerminalScreen
