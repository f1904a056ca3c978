import OpenAgents.AnsiText.AnsiState
import OpenAgents.Lib.RunScanner
import Mathlib.Algebra.GroupWithZero.Nat

/- Where the escape sequences of a text end, how wide its graphemes are, and the width of a text. What the
   Unicode libraries answer is a parameter. -/
namespace AnsiText
open JsText WhileLoop RunScanner

/- Through the first unit that stops it, or the first string terminator where one is allowed. -/
def seqEnd (stops : CodeUnit → Bool) (terminator : Bool) : JsString → Option Nat
  | [] => none
  | b :: rest =>
      if stops b then some 1
      else if terminator && b == esc && rest.head? == some 0x5c then some 2
      else (seqEnd stops terminator rest).map (· + 1)

def ansiSeqLen : JsString → Option Nat
  | e :: kind :: body =>
      if e ≠ esc then none
      else if kind = 0x5b then (seqEnd (fun b => 0x40 ≤ b && b ≤ 0x7e) false body).map (· + 2)
      else if kind = 0x5d then (seqEnd (· == 0x07) true body).map (· + 2)
      else if kind = 0x50 ∨ kind = 0x58 ∨ kind = 0x5e ∨ kind = 0x5f then (seqEnd (fun _ => false) true body).map (· + 2)
      else if 0x20 ≤ kind ∧ kind ≤ 0x2f then (seqEnd (fun b => 0x30 ≤ b && b ≤ 0x7e) false body).map (· + 2)
      else if 0x40 ≤ kind ∧ kind ≤ 0x7e then some 2
      else none
  | _ => none

def isSgr (seq : JsString) : Bool := 3 ≤ seq.length && seq[1]? == some 91 && seq.getLast? == some 109

section seqEnd
variable {stops : CodeUnit → Bool} {terminator : Bool}

theorem seqEnd_bounds {body : JsString} {n : Nat} (found : seqEnd stops terminator body = some n) : 0 < n ∧ n ≤ body.length := by
  induction body generalizing n with
  | nil => cases found
  | cons b rest ih =>
    rw [seqEnd] at found
    split at found
    · cases found; simp
    · split at found
      · rename_i ends
        cases found
        cases rest with
        | nil => simp at ends
        | cons => simp
      · obtain ⟨k,later,rfl⟩ := Option.map_eq_some_iff.mp found
        have bounds := ih later
        rw [List.length_cons]
        omega

/-- What follows a sequence does not change where it ends. -/
theorem seqEnd_settled {body : JsString} {n : Nat} (found : seqEnd stops terminator body = some n) (later : JsString) :
    seqEnd stops terminator (body.take n ++ later) = some n := by
  induction body generalizing n with
  | nil => cases found
  | cons b rest ih =>
    rw [seqEnd] at found
    split at found
    · rename_i stop
      cases found
      simp [seqEnd, stop]
    · rename_i on
      split at found
      · rename_i ends
        cases found
        cases rest with
        | nil => simp at ends
        | cons c rest =>
          rw [List.take_succ_cons, List.take_succ_cons, List.take_zero, List.cons_append, List.cons_append, seqEnd, if_neg on,
            if_pos (by simpa using ends)]
      · rename_i open_
        obtain ⟨k,next,rfl⟩ := Option.map_eq_some_iff.mp found
        have bounds := seqEnd_bounds next
        cases rest with
        | nil => cases next
        | cons c rest =>
          have again := ih next
          obtain ⟨k,rfl⟩ : ∃ j, k = j + 1 := ⟨k - 1,by omega⟩
          rw [List.take_succ_cons, List.cons_append] at again ⊢
          rw [List.take_succ_cons, List.cons_append, seqEnd, if_neg on, if_neg (by simpa using open_), again]
          rfl

end seqEnd

theorem ansiSeqLen_escape {text : JsString} {n : Nat} (found : ansiSeqLen text = some n) :
    ∃ kind body, text = esc :: kind :: body ∧ 2 ≤ n ∧ n ≤ text.length := by
  cases text with
  | nil => cases found
  | cons e tail =>
    cases tail with
    | nil => cases found
    | cons kind body =>
      have whole : ∀ stops terminator, (seqEnd stops terminator body).map (· + 2) = some n →
          2 ≤ n ∧ n ≤ (e :: kind :: body).length := by
        intro stops terminator ends
        obtain ⟨k,at_,rfl⟩ := Option.map_eq_some_iff.mp ends
        have bounds := seqEnd_bounds at_
        rw [List.length_cons, List.length_cons]
        omega
      rw [ansiSeqLen] at found
      split at found
      · cases found
      · rename_i escape
        obtain rfl : e = esc := by simpa using escape
        refine ⟨kind,body,rfl,?_⟩
        split at found
        · exact whole _ _ found
        · split at found
          · exact whole _ _ found
          · split at found
            · exact whole _ _ found
            · split at found
              · exact whole _ _ found
              · split at found
                · cases found; simp
                · cases found

theorem ansiSeqLen_settled {text : JsString} {n : Nat} (found : ansiSeqLen text = some n) (later : JsString) :
    ansiSeqLen (text.take n ++ later) = some n := by
  obtain ⟨kind,body,rfl,long,_⟩ := ansiSeqLen_escape found
  obtain ⟨k,rfl⟩ : ∃ j, n = j + 2 := ⟨n - 2,by omega⟩
  have whole : ∀ stops terminator, (seqEnd stops terminator body).map (· + 2) = some (k + 2) →
      (seqEnd stops terminator (body.take k ++ later)).map (· + 2) = some (k + 2) := by
    intro stops terminator ends
    obtain ⟨j,at_,same⟩ := Option.map_eq_some_iff.mp ends
    obtain rfl : j = k := by omega
    rw [seqEnd_settled at_ later]
    rfl
  rw [List.take_succ_cons, List.take_succ_cons, List.cons_append, List.cons_append]
  rw [ansiSeqLen] at found ⊢
  rw [if_neg (by simp)] at found ⊢
  split at found
  · rename_i csi
    rw [if_pos csi]
    exact whole _ _ found
  · rename_i csi
    rw [if_neg csi]
    split at found
    · rename_i osc
      rw [if_pos osc]
      exact whole _ _ found
    · rename_i osc
      rw [if_neg osc]
      split at found
      · rename_i dcs
        rw [if_pos dcs]
        exact whole _ _ found
      · rename_i dcs
        rw [if_neg dcs]
        split at found
        · rename_i between
          rw [if_pos between]
          exact whole _ _ found
        · rename_i between
          rw [if_neg between]
          exact found

/-- Escape characters and the sequences they start. -/
def escapes : Marks CodeUnit where
  opens c := c == esc
  sequence := ansiSeqLen
  begins := by
    intro text n found
    obtain ⟨_,_,_,long,short⟩ := ansiSeqLen_escape found
    exact ⟨long,short⟩
  opened := by
    intro c rest n found
    obtain ⟨_,_,same,_⟩ := ansiSeqLen_escape found
    cases same
    rfl
  settled text n later found := ansiSeqLen_settled found later

/-- How the Unicode libraries cut a segment into graphemes, and how wide they say each one is. -/
structure Segmentation where
  graphemes : JsString → List JsString
  width : JsString → Nat
  partition : ∀ segment, (graphemes segment).flatten = segment
  nonempty : ∀ segment, ∀ grapheme ∈ graphemes segment, grapheme ≠ []

structure Cell where
  units : JsString
  width : Nat
  deriving DecidableEq

def tab : CodeUnit := 9

def clampTabWidth (width : Nat) : Nat := max 1 (min width 16)

def asciiCellWidth (tabWidth : Nat) (u : CodeUnit) : Nat :=
  if u = tab then tabWidth else if 0x20 ≤ u ∧ u ≤ 0x7e then 1 else 0

def isAscii (segment : JsString) : Bool := segment.all (· ≤ 0x7f)

section cells
variable (host : Segmentation) (tabWidth : Nat)

def graphemeWidth (grapheme : JsString) : Nat := if grapheme = [tab] then tabWidth else host.width grapheme

def asciiCells (segment : JsString) : List Cell := segment.map fun u => ⟨[u],asciiCellWidth tabWidth u⟩

def graphemeCells (segment : JsString) : List Cell :=
  (host.graphemes segment).map fun grapheme => ⟨grapheme,graphemeWidth host tabWidth grapheme⟩

def cells (segment : JsString) : List Cell :=
  if isAscii segment then asciiCells tabWidth segment else graphemeCells host tabWidth segment

/- Without a limit for `usize::MAX`. -/
def exceeds : Option Nat → Nat → Bool
  | none, _ => false
  | some limit, width => limit < width

/- The width reached, and whether it is within the limit still. -/
def addWidths (limit : Option Nat) : Nat → List Cell → Nat × Bool
  | width, [] => (width, true)
  | width, cell :: later =>
      if exceeds limit (width + cell.width) then (width + cell.width, false) else addWidths limit (width + cell.width) later

def widthScanner (limit : Option Nat) : Scanner CodeUnit Nat where
  running _ := true
  sequence width _ := width
  lone width _ := width
  run width segment := addWidths limit width (cells host tabWidth segment)

/- The width, or the first width over the limit, and whether it is over. -/
def visibleWidthUpTo (fuel : Nat) (data : JsString) (limit : Option Nat) : Option (Nat × Bool) :=
  (loop (scanStep escapes (widthScanner host tabWidth limit)) fuel (0, data)).map fun (width, _) => (width, exceeds limit width)

def visibleWidth (fuel : Nat) (data : JsString) : Option Nat := (visibleWidthUpTo host tabWidth fuel data none).map Prod.fst

def pieceCells : Piece CodeUnit → List Cell
  | .run segment => cells host tabWidth segment
  | _ => []

/-- What the terminal shows of a text, cell by cell. -/
def textCells (text : JsString) : List Cell := (pieces escapes text).flatMap (pieceCells host tabWidth)

def cellsWidth (shown : List Cell) : Nat := (shown.map Cell.width).sum

def widthOf (text : JsString) : Nat := cellsWidth (textCells host tabWidth text)

end cells

def cellsUnits (shown : List Cell) : JsString := shown.flatMap Cell.units

theorem cellsWidth_append (first later : List Cell) : cellsWidth (first ++ later) = cellsWidth first + cellsWidth later := by
  rw [cellsWidth, List.map_append, List.sum_append]
  rfl

theorem cellsWidth_cons (cell : Cell) (later : List Cell) : cellsWidth (cell :: later) = cell.width + cellsWidth later := by
  rw [cellsWidth, List.map_cons, List.sum_cons]
  rfl

theorem cellsUnits_append (first later : List Cell) : cellsUnits (first ++ later) = cellsUnits first ++ cellsUnits later :=
  List.flatMap_append

theorem cellsUnits_cons (cell : Cell) (later : List Cell) : cellsUnits (cell :: later) = cell.units ++ cellsUnits later := rfl

section measured
variable {host : Segmentation} {tabWidth : Nat}

theorem addWidths_none (width : Nat) (shown : List Cell) : addWidths none width shown = (width + cellsWidth shown, true) := by
  induction shown generalizing width with
  | nil => rfl
  | cons cell later ih =>
    rw [addWidths, exceeds, if_neg (by simp), ih, cellsWidth_cons, Nat.add_assoc]

theorem addWidths_some {limit width : Nat} (within : width ≤ limit) (shown : List Cell) :
    (width + cellsWidth shown ≤ limit ∧ addWidths (some limit) width shown = (width + cellsWidth shown, true)) ∨
    (∃ reached, limit < reached ∧ reached ≤ width + cellsWidth shown ∧ addWidths (some limit) width shown = (reached, false)) := by
  induction shown generalizing width with
  | nil => exact .inl ⟨within,rfl⟩
  | cons cell later ih =>
    rw [addWidths, exceeds, cellsWidth_cons]
    by_cases past : limit < width + cell.width
    · rw [if_pos (by simpa using past)]
      exact .inr ⟨_,past,by omega,rfl⟩
    · rw [if_neg (by simpa using past), ← Nat.add_assoc]
      exact ih (by omega)

theorem widthRun_none (width : Nat) (shown : List (Piece CodeUnit)) :
    (runPieces (widthScanner host tabWidth none) width shown).1 = width + cellsWidth (shown.flatMap (pieceCells host tabWidth)) := by
  induction shown generalizing width with
  | nil => rfl
  | cons piece later ih =>
    rw [List.flatMap_cons, cellsWidth_append, ← Nat.add_assoc]
    cases piece with
    | sequence q => rw [runPieces_sequence rfl]; exact ih width
    | lone c => rw [runPieces_lone rfl]; exact ih width
    | run segment =>
      rw [runPieces_goes rfl (addWidths_none width _)]
      exact ih _

theorem widthRun_some {limit width : Nat} (within : width ≤ limit) (shown : List (Piece CodeUnit)) :
    let total := width + cellsWidth (shown.flatMap (pieceCells host tabWidth))
    let reached := (runPieces (widthScanner host tabWidth (some limit)) width shown).1
    (total ≤ limit ∧ reached = total) ∨ (limit < total ∧ limit < reached) := by
  induction shown generalizing width with
  | nil => exact .inl ⟨within,rfl⟩
  | cons piece later ih =>
    rw [List.flatMap_cons, cellsWidth_append, ← Nat.add_assoc]
    cases piece with
    | sequence q => rw [runPieces_sequence rfl]; exact ih within
    | lone c => rw [runPieces_lone rfl]; exact ih within
    | run segment =>
      rw [pieceCells]
      rcases addWidths_some within (cells host tabWidth segment) with ⟨fits,added⟩ | ⟨reached,past,short,added⟩
      · rw [runPieces_goes rfl added]
        exact ih fits
      · rw [runPieces_halts rfl added]
        exact .inr ⟨by omega,past⟩

/-- The width of a text is the sum of the widths of its cells. -/
theorem visibleWidth_is {fuel : Nat} {data : JsString} (enough : data.length < fuel) :
    visibleWidth host tabWidth fuel data = some (widthOf host tabWidth data) := by
  rw [visibleWidth, visibleWidthUpTo, scan_pieces escapes _ _ _ enough, Option.map_some, Option.map_some, widthRun_none, Nat.zero_add]
  rfl

theorem visibleWidthUpTo_is {fuel limit : Nat} {data : JsString} (enough : data.length < fuel) :
    ∃ reached, visibleWidthUpTo host tabWidth fuel data (some limit) = some (reached, decide (limit < widthOf host tabWidth data)) ∧
      (widthOf host tabWidth data ≤ limit → reached = widthOf host tabWidth data) := by
  rw [visibleWidthUpTo, scan_pieces escapes _ _ _ enough, Option.map_some]
  refine ⟨_,congrArg some (congrArg (Prod.mk _) ?_),?_⟩
  · rcases widthRun_some (Nat.zero_le limit) (pieces escapes data) with ⟨fits,same⟩ | ⟨past,past'⟩
    · rw [Nat.zero_add] at fits same
      rw [same]
      rfl
    · rw [Nat.zero_add] at past
      have past : limit < widthOf host tabWidth data := past
      rw [exceeds, decide_eq_true past, decide_eq_true past']
  · intro fits
    rcases widthRun_some (Nat.zero_le limit) (pieces escapes data) with ⟨_,same⟩ | ⟨past,_⟩
    · rw [Nat.zero_add] at same
      exact same
    · rw [Nat.zero_add] at past
      exact absurd fits (Nat.not_le.mpr past)

end measured
end AnsiText
