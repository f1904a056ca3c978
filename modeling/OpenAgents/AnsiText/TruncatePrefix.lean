import OpenAgents.AnsiText.Styled
import OpenAgents.AnsiText.Terminates

/- What truncation keeps of a text is a prefix of it, but for one case: a tab that does not fit ends only its
   own run, and runs after it are still searched for characters that fit. -/
namespace AnsiText
open JsText WhileLoop RunScanner

/-- What the Unicode annexes and tables say of a few characters: a tab and a NUL are graphemes of their own, a NUL
    takes no cell, a space takes one, and so does each character of an ellipsis. -/
structure Documented (host : Segmentation) : Prop where
  tabAlone : ∀ segment, ∀ grapheme ∈ host.graphemes segment, tab ∈ grapheme → grapheme = [tab]
  nulAlone : ∀ segment, ∀ grapheme ∈ host.graphemes segment, 0 ∈ grapheme → grapheme = [0]
  nulWidth : host.width [0] = 0
  spaces : ∀ segment, ∀ grapheme ∈ host.graphemes segment, (∀ u ∈ grapheme, u = space) → host.width grapheme = grapheme.length
  ellipses : ∀ ellipsis : Ellipsis, host.graphemes ellipsis.units = ellipsis.units.map fun u => [u]
  ellipsisWidth : ∀ ellipsis : Ellipsis, ∀ u ∈ ellipsis.units, host.width [u] = 1

/- A NUL shows nothing, and the results lose those at their end. -/
def withoutNul (units : JsString) : JsString := units.filter fun u => u != 0

theorem withoutNul_append (first later : JsString) : withoutNul (first ++ later) = withoutNul first ++ withoutNul later :=
  List.filter_append first later

def visibleText (text : JsString) : JsString := withoutNul (shownUnits (symbols escapes text))

def spaces (n : Nat) : JsString := List.replicate n space

/-- The result shows a prefix of the text's cells, then of the ellipsis if the text does not fit, then padding, in at most
    the width, and in the whole of it when padded. A text that fits stays, but for padding. -/
structure TruncatesTo (host : Segmentation) (tabWidth : Nat) (text : JsString) (maxWidth : Nat) (ellipsis : Ellipsis) (pad : Bool)
    (out : JsString) : Prop where
  parts : ∃ kept shown n, kept <+: textCells host tabWidth text ∧ shown <+: ellipsis.units ∧
    (shown = [] ∨ maxWidth < widthOf host tabWidth text) ∧
    visibleText out = withoutNul (cellsUnits kept) ++ shown ++ spaces n ∧ cellsWidth kept + shown.length + n ≤ maxWidth ∧
    (pad = true → cellsWidth kept + shown.length + n = maxWidth) ∧ (pad = false → n = 0)
  fits : widthOf host tabWidth text ≤ maxWidth → ∃ n, out = text ++ spaces n ∧ (pad = false → n = 0)

/- The cells of a run that are kept from a width on. -/
def fitting (targetW : Nat) : Nat → List Cell → List Cell
  | _, [] => []
  | w, cell :: later => if targetW < w + cell.width then [] else cell :: fitting targetW (w + cell.width) later

section scan
variable (host : Segmentation) (tabWidth targetW : Nat)

def keptOf (w : Nat) (segment : JsString) : List Cell := fitting targetW w (cells host tabWidth segment)

/- Whether the scan goes on after a run. -/
def goesOn (w : Nat) (segment : JsString) : Bool :=
  if isAscii segment then decide (w + cellsWidth (keptOf host tabWidth targetW w segment) < targetW)
  else decide (keptOf host tabWidth targetW w segment = cells host tabWidth segment)

/- The cells that the runs give from a width on. -/
def givenCells : Nat → List (Piece CodeUnit) → List Cell
  | _, [] => []
  | w, .run segment :: later =>
      let kept := keptOf host tabWidth targetW w segment
      if goesOn host tabWidth targetW w segment then kept ++ givenCells (w + cellsWidth kept) later else kept
  | w, .sequence _ :: later => givenCells w later
  | w, .lone _ :: later => givenCells w later

/- The first ASCII run with a character that does not fit though columns are left: the width reached, and the
   pieces after that run. -/
def firstGap : Nat → List (Piece CodeUnit) → Option (Nat × List (Piece CodeUnit))
  | _, [] => none
  | w, .run segment :: later =>
      let kept := keptOf host tabWidth targetW w segment
      let reached := w + cellsWidth kept
      if kept = cells host tabWidth segment then
        if isAscii segment && decide (targetW ≤ reached) then none else firstGap reached later
      else if isAscii segment && decide (reached < targetW) then some (reached, later)
      else none
  | w, .sequence _ :: later => firstGap w later
  | w, .lone _ :: later => firstGap w later

/- What the split of the cells says once a first gap is known or excluded. -/
def Split (all given : List Cell) (w : Nat) : Option (Nat × List (Piece CodeUnit)) → Prop
  | none => given <+: all
  | some (reached, after) =>
      ∃ front cell rest segment, all = front ++ cell :: rest ∧ reached = w + cellsWidth front ∧ reached < targetW ∧
        targetW < reached + cell.width ∧ isAscii segment = true ∧ cell ∈ cells host tabWidth segment ∧
        given = front ++ givenCells host tabWidth targetW reached after

end scan

section fitting
variable {targetW w : Nat}

theorem fitting_prefix (targetW w : Nat) (shown : List Cell) : fitting targetW w shown <+: shown := by
  induction shown generalizing w with
  | nil => exact List.prefix_refl []
  | cons cell later ih =>
    rw [fitting]
    split
    · exact List.nil_prefix
    · exact List.cons_prefix_cons.mpr ⟨rfl,ih _⟩

theorem fitting_width (within : w ≤ targetW) (shown : List Cell) : w + cellsWidth (fitting targetW w shown) ≤ targetW := by
  induction shown generalizing w with
  | nil => exact within
  | cons cell later ih =>
    rw [fitting]
    split
    · exact within
    · rw [cellsWidth_cons, ← Nat.add_assoc]
      exact ih (by omega)

/-- The first cell that is not kept does not fit after those that are. -/
theorem fitting_stops {shown : List Cell} (cut : fitting targetW w shown ≠ shown) :
    ∃ cell later, shown = fitting targetW w shown ++ cell :: later ∧ targetW < w + cellsWidth (fitting targetW w shown) + cell.width := by
  induction shown generalizing w with
  | nil => exact absurd rfl cut
  | cons cell later ih =>
    rw [fitting] at cut ⊢
    by_cases over_ : targetW < w + cell.width
    · rw [if_pos over_]
      exact ⟨cell,later,rfl,by simpa [cellsWidth] using over_⟩
    · rw [if_neg over_] at cut ⊢
      obtain ⟨next,rest,same,past⟩ := ih fun all => cut (by rw [all])
      refine ⟨next,rest,by rw [List.cons_append, ← same],?_⟩
      rw [cellsWidth_cons, ← Nat.add_assoc]
      exact past

theorem fitting_fits {cell : Cell} {shown : List Cell} (mem : cell ∈ fitting targetW w shown) : w + cell.width ≤ targetW := by
  induction shown generalizing w with
  | nil => cases mem
  | cons first later ih =>
    rw [fitting] at mem
    split at mem
    · cases mem
    · rcases List.mem_cons.mp mem with rfl | further
      · omega
      · have fits := ih further
        omega

theorem takeFitting_is (shown : List Cell) (out : JsString) :
    takeFitting targetW shown out w =
      ⟨out ++ cellsUnits (fitting targetW w shown),w + cellsWidth (fitting targetW w shown),decide (fitting targetW w shown = shown)⟩ := by
  induction shown generalizing w out with
  | nil => simp [takeFitting, fitting, cellsUnits, cellsWidth]
  | cons cell later ih =>
    rw [takeFitting, fitting]
    by_cases past : targetW < w + cell.width
    · rw [if_pos past, if_pos past]
      simp [cellsUnits, cellsWidth]
    · rw [if_neg past, if_neg past, ih, cellsUnits_cons, cellsWidth_cons, List.append_assoc, Nat.add_assoc]
      simp

end fitting

section scan
variable {host : Segmentation} {tabWidth targetW : Nat}

variable {left : List (Piece CodeUnit)} {w : Nat}

/-- The scan adds the cells the runs give to what it has, escapes apart. -/
theorem truncate_given (good : ∀ piece ∈ left, GoodPiece piece) (s : Truncating) (settled : WellEscaped s.out) :
    let ended := (runPieces (truncateScanner host tabWidth targetW) s left).1
    let given := givenCells host tabWidth targetW s.w left
    WellEscaped ended.out ∧ ended.w = s.w + cellsWidth given ∧
      shownUnits (symbols escapes ended.out) = shownUnits (symbols escapes s.out) ++ cellsUnits given := by
  induction left generalizing s with
  | nil => exact ⟨settled,rfl,(List.append_nil _).symm⟩
  | cons piece later ih =>
    have here := good piece List.mem_cons_self
    have next := fun s settled => ih (fun other mem => good other (List.mem_cons_of_mem _ mem)) s settled
    cases piece with
    | lone c => exact absurd here id
    | sequence q =>
      have whole : ansiSeqLen q = some q.length := here
      rw [runPieces_sequence rfl, givenCells]
      obtain ⟨ends,width,shown⟩ := next { s with out := s.out ++ q, sawSgr := s.sawSgr || isSgr q }
        (settled_append escapes settled (settled_whole escapes whole))
      refine ⟨ends,width,shown.trans ?_⟩
      dsimp only
      rw [symbols_append escapes settled, symbols_whole escapes whole, shownUnits_append, shownUnits, shownUnits, List.append_nil]
    | run segment =>
      have plain : plainUnits (cellsUnits (keptOf host tabWidth targetW s.w segment)) := by
        intro u mem
        obtain ⟨rest,same⟩ := fitting_prefix targetW s.w (cells host tabWidth segment)
        refine here u ?_
        rw [← @cells_units host tabWidth segment, ← same, cellsUnits_append]
        exact List.mem_append.mpr (.inl mem)
      have settled' := settled_append escapes settled (plain_settled plain)
      have shown' : shownUnits (symbols escapes (s.out ++ cellsUnits (keptOf host tabWidth targetW s.w segment))) =
          shownUnits (symbols escapes s.out) ++ cellsUnits (keptOf host tabWidth targetW s.w segment) := by
        rw [symbols_append escapes settled, symbols_plain_run plain, shownUnits_append, shownUnits_run]
      have ran : (truncateScanner host tabWidth targetW).run s segment =
          ({ s with out := s.out ++ cellsUnits (keptOf host tabWidth targetW s.w segment),
                    w := s.w + cellsWidth (keptOf host tabWidth targetW s.w segment) }, goesOn host tabWidth targetW s.w segment) := by
        simp only [truncateScanner, takeFitting_is]
        rfl
      rw [givenCells]
      cases goes : goesOn host tabWidth targetW s.w segment with
      | true =>
        rw [goes] at ran
        rw [runPieces_goes rfl ran, if_pos rfl]
        obtain ⟨ends,width,shown⟩ := next { s with out := s.out ++ cellsUnits (keptOf host tabWidth targetW s.w segment),
                                                     w := s.w + cellsWidth (keptOf host tabWidth targetW s.w segment) } settled'
        refine ⟨ends,width.trans ?_,shown.trans ?_⟩
        · rw [cellsWidth_append, Nat.add_assoc]
        · rw [shown', cellsUnits_append, List.append_assoc]
      | false =>
        rw [goes] at ran
        rw [runPieces_halts rfl ran, if_neg (by simp)]
        exact ⟨settled',rfl,shown'⟩

theorem given_width (within : w ≤ targetW) (left : List (Piece CodeUnit)) :
    w + cellsWidth (givenCells host tabWidth targetW w left) ≤ targetW := by
  induction left generalizing w with
  | nil => exact within
  | cons piece later ih =>
    cases piece with
    | lone c => exact ih within
    | sequence q => exact ih within
    | run segment =>
      have here := fitting_width within (cells host tabWidth segment)
      rw [givenCells]
      split
      · rw [cellsWidth_append, ← Nat.add_assoc]
        exact ih here
      · exact here

theorem given_cell {cell : Cell} (mem : cell ∈ givenCells host tabWidth targetW w left) :
    (∃ segment, cell ∈ cells host tabWidth segment) ∧ w + cell.width ≤ targetW := by
  induction left generalizing w with
  | nil => cases mem
  | cons piece later ih =>
    cases piece with
    | lone c => exact ih mem
    | sequence q => exact ih mem
    | run segment =>
      have here : ∀ kept, cell ∈ fitting targetW w kept → kept = cells host tabWidth segment →
          (∃ segment, cell ∈ cells host tabWidth segment) ∧ w + cell.width ≤ targetW := by
        rintro _ among rfl
        exact ⟨⟨segment,( fitting_prefix targetW w _).subset among⟩,fitting_fits among⟩
      rw [givenCells] at mem
      split at mem
      · rcases List.mem_append.mp mem with among | further
        · exact here _ among rfl
        · obtain ⟨among,fits⟩ := ih further
          exact ⟨among,by omega⟩
      · exact here _ mem rfl

theorem given_deeper {first kept all given : List Cell} (whole : kept = first) {gap : Option (Nat × List (Piece CodeUnit))}
    (deeper : Split host tabWidth targetW all given (w + cellsWidth kept) gap) :
    Split host tabWidth targetW (first ++ all) (kept ++ given) w gap := by
  subst whole
  cases gap with
  | none => exact (List.prefix_append_right_inj _).mpr deeper
  | some found =>
    obtain ⟨front,cell,rest,source,same,reached,inside,past,ascii,among,is⟩ := deeper
    refine ⟨kept ++ front,cell,rest,source,?_,?_,inside,past,ascii,among,?_⟩
    · rw [same, List.append_assoc]
    · rw [reached, cellsWidth_append, Nat.add_assoc]
    · rw [is, List.append_assoc]

/-- Before the gap the runs give a prefix of the cells; the cell after it, at a gap, is one that does not fit. -/
theorem given_split (w : Nat) (left : List (Piece CodeUnit)) :
    Split host tabWidth targetW (left.flatMap (pieceCells host tabWidth)) (givenCells host tabWidth targetW w left) w
      (firstGap host tabWidth targetW w left) := by
  induction left generalizing w with
  | nil => exact List.prefix_refl []
  | cons piece later ih =>
    cases piece with
    | lone c => exact ih w
    | sequence q => exact ih w
    | run segment =>
      have kept_prefix : keptOf host tabWidth targetW w segment <+: cells host tabWidth segment := fitting_prefix targetW w _
      rw [firstGap, givenCells, List.flatMap_cons, pieceCells]
      by_cases whole : keptOf host tabWidth targetW w segment = cells host tabWidth segment
      · have deeper := ih (w + cellsWidth (keptOf host tabWidth targetW w segment))
        rw [if_pos whole]
        by_cases ends : isAscii segment = true ∧ targetW ≤ w + cellsWidth (keptOf host tabWidth targetW w segment)
        · have stops : goesOn host tabWidth targetW w segment = false := by
            rw [goesOn, if_pos ends.1, decide_eq_false (Nat.not_lt.mpr ends.2)]
          have last : (isAscii segment && decide (targetW ≤ w + cellsWidth (keptOf host tabWidth targetW w segment))) = true := by
            simpa using ends
          rw [stops, last, if_pos rfl, if_neg (by simp)]
          exact kept_prefix.trans (List.prefix_append _ _)
        · have goes : goesOn host tabWidth targetW w segment = true := by
            rw [goesOn]
            split
            · rename_i ascii
              exact decide_eq_true (Nat.not_le.mp fun past => ends ⟨ascii,past⟩)
            · exact decide_eq_true whole
          have last : (isAscii segment && decide (targetW ≤ w + cellsWidth (keptOf host tabWidth targetW w segment))) = false := by
            simpa using ends
          rw [goes, last, if_pos rfl, if_neg (by simp)]
          exact given_deeper whole deeper
      · rw [if_neg whole]
        obtain ⟨cell,rest,same,past⟩ := fitting_stops whole
        by_cases gap : isAscii segment = true ∧ w + cellsWidth (keptOf host tabWidth targetW w segment) < targetW
        · have goes : goesOn host tabWidth targetW w segment = true := by
            rw [goesOn, if_pos gap.1, decide_eq_true gap.2]
          have here : (isAscii segment && decide (w + cellsWidth (keptOf host tabWidth targetW w segment) < targetW)) = true := by
            simpa using gap
          rw [goes, here, if_pos rfl, if_pos rfl]
          refine ⟨keptOf host tabWidth targetW w segment,cell,rest ++ later.flatMap (pieceCells host tabWidth),segment,?_,rfl,
            gap.2,past,gap.1,?_,rfl⟩
          · rw [← List.cons_append, ← List.append_assoc]
            exact congrArg (· ++ _) same
          · rw [same]
            exact List.mem_append.mpr (.inr List.mem_cons_self)
        · have stops : goesOn host tabWidth targetW w segment = false := by
            rw [goesOn]
            split
            · rename_i ascii
              exact decide_eq_false fun short => gap ⟨ascii,short⟩
            · exact decide_eq_false whole
          have here : (isAscii segment && decide (w + cellsWidth (keptOf host tabWidth targetW w segment) < targetW)) = false := by
            simpa using gap
          rw [stops, here, if_neg (by simp), if_neg (by simp)]
          exact kept_prefix.trans (List.prefix_append _ _)

end scan

/- The text the truncation gives, with fuel enough. -/
def truncation (host : Segmentation) (tabWidth : Nat) (text : JsString) (maxWidth : Nat) (ellipsis : Ellipsis) (pad : Bool) : JsString :=
  if widthOf host tabWidth text ≤ maxWidth then
    if pad && decide (widthOf host tabWidth text < maxWidth) then buildUtf16String (text ++ padTo maxWidth (widthOf host tabWidth text))
    else text
  else if maxWidth - ellipsis.width = 0 then buildUtf16String (cutEllipsis host tabWidth ellipsis maxWidth pad)
  else
    buildUtf16String (truncated (runPieces (truncateScanner host tabWidth (maxWidth - ellipsis.width)) ⟨[],0,false⟩ (pieces escapes text)).1
      ellipsis maxWidth pad)

theorem truncation_yields (host : Segmentation) (text : JsString) (maxWidth : Nat) (ellipsisKind : Option Ellipsis) (pad : Option Bool)
    (tabWidth : Nat) : Yields (fun fuel => truncateToWidth host fuel text maxWidth ellipsisKind pad tabWidth)
      (truncation host (clampTabWidth tabWidth) text maxWidth (ellipsisKind.getD .unicode) (pad.getD false)) := by
  refine ⟨text.length + 1,fun fuel enough => ?_⟩
  obtain ⟨reached,measured,within⟩ := @visibleWidthUpTo_is host (clampTabWidth tabWidth) fuel maxWidth text enough
  rw [truncation]
  dsimp only
  simp only [truncateToWidth, measured, Option.bind_eq_bind, Option.bind_some, decide_eq_false_iff_not, Nat.not_lt]
  by_cases fits : widthOf host (clampTabWidth tabWidth) text ≤ maxWidth
  · rw [if_pos fits, if_pos fits, within fits]
    split <;> rfl
  · rw [if_neg fits, if_neg fits]
    split
    · rfl
    · rw [scan_pieces escapes _ _ _ enough]
      rfl

section result
variable {host : Segmentation} {tabWidth : Nat}

theorem visible_append {first : JsString} (settled : WellEscaped first) (later : JsString) :
    visibleText (first ++ later) = visibleText first ++ visibleText later := by
  rw [visibleText, symbols_append escapes settled, shownUnits_append, withoutNul_append]
  rfl

theorem visible_plain {run : JsString} (plain : plainUnits run) : visibleText run = withoutNul run := by
  rw [visibleText, symbols_plain_run plain, shownUnits_run]

theorem visible_build {text : JsString} (well : WellEscaped text) : visibleText (buildUtf16String text) = visibleText text := by
  obtain ⟨n,same⟩ := build_symbols text well
  have none : ∀ n, withoutNul (shownUnits (List.replicate n (.inr 0))) = [] := by
    intro n
    induction n with
    | zero => rfl
    | succ n ih => simpa [List.replicate_succ, shownUnits, withoutNul] using ih
  rw [visibleText, visibleText, same, shownUnits_append, withoutNul_append, none, List.append_nil]

theorem spaces_plain (n : Nat) : plainUnits (spaces n) := by
  intro u mem
  obtain ⟨_,rfl⟩ := List.mem_replicate.mp mem
  decide

theorem spaces_visible (n : Nat) : visibleText (spaces n) = spaces n := by
  rw [visible_plain (spaces_plain n), withoutNul, List.filter_eq_self]
  intro u mem
  obtain ⟨_,rfl⟩ := List.mem_replicate.mp mem
  decide

theorem ellipsis_plain (ellipsis : Ellipsis) : plainUnits ellipsis.units := by
  cases ellipsis <;> decide

theorem ellipsis_visible (ellipsis : Ellipsis) : visibleText ellipsis.units = ellipsis.units := by
  rw [visible_plain (ellipsis_plain ellipsis)]
  cases ellipsis <;> decide

theorem ellipsis_length (ellipsis : Ellipsis) : ellipsis.units.length = ellipsis.width := by
  cases ellipsis <;> rfl

theorem reset_whole : escapes.sequence resetSgr = some resetSgr.length := by decide

/- The spaces that padding adds. -/
def padding (pad : Bool) (maxWidth reached : Nat) : Nat := if pad then maxWidth - reached else 0

variable {pad : Bool} {maxWidth : Nat} {segment : JsString}

theorem padding_none {maxWidth reached : Nat} (off : pad = false) : padding pad maxWidth reached = 0 := by
  rw [padding, off, if_neg (by simp)]

theorem padding_fills {maxWidth reached : Nat} (within : reached ≤ maxWidth) :
    reached + padding pad maxWidth reached ≤ maxWidth ∧ (pad = true → reached + padding pad maxWidth reached = maxWidth) := by
  cases pad with
  | true =>
    rw [padding, if_pos rfl]
    exact ⟨by omega,fun _ => by omega⟩
  | false =>
    rw [padding, if_neg (by simp)]
    exact ⟨within,fun on => by cases on⟩

theorem build_spaced (text : JsString) (n : Nat) (some : 0 < n) : buildUtf16String (text ++ spaces n) = text ++ spaces n := by
  obtain ⟨k,rfl⟩ : ∃ k, n = k + 1 := ⟨n - 1,by omega⟩
  rw [spaces, List.replicate_succ', ← List.append_assoc, buildUtf16String, List.rdropWhile_concat_neg _ _ _ (by decide)]

/-- A text that fits stays, but for padding. -/
theorem fitting_out (text : JsString) (maxWidth : Nat) (ellipsis : Ellipsis) (pad : Bool)
    (fits : widthOf host tabWidth text ≤ maxWidth) :
    truncation host tabWidth text maxWidth ellipsis pad = text ++ spaces (padding pad maxWidth (widthOf host tabWidth text)) := by
  rw [truncation, if_pos fits]
  cases pad with
  | false =>
    rw [Bool.false_and, if_neg (by simp), padding_none rfl]
    exact (List.append_nil text).symm
  | true =>
    rw [Bool.true_and, padding, if_pos rfl]
    by_cases room : widthOf host tabWidth text < maxWidth
    · rw [if_pos (decide_eq_true room)]
      exact build_spaced text _ (by omega)
    · rw [if_neg (by simpa using room), Nat.sub_eq_zero_of_le (Nat.le_of_not_lt room)]
      exact (List.append_nil text).symm

theorem fits_truncates {text : JsString} (well : WellEscaped text) (ellipsis : Ellipsis) (pad : Bool)
    (fits : widthOf host tabWidth text ≤ maxWidth) :
    TruncatesTo host tabWidth text maxWidth ellipsis pad (truncation host tabWidth text maxWidth ellipsis pad) := by
  have out := @fitting_out host _ text maxWidth ellipsis pad fits
  obtain ⟨short,filled⟩ := @padding_fills pad maxWidth _ fits
  refine ⟨⟨textCells host tabWidth text,[],_,List.prefix_refl _,List.nil_prefix,.inl rfl,?_,short,filled,padding_none⟩,
    fun _ => ⟨_,out,padding_none⟩⟩
  rw [out, visible_append well, spaces_visible, visibleText, textCells_units well, List.append_nil]

theorem ellipsis_cells (documented : Documented host) (ellipsis : Ellipsis) :
    graphemeCells host tabWidth ellipsis.units = ellipsis.units.map fun u => ⟨[u],1⟩ := by
  rw [graphemeCells, documented.ellipses, List.map_map]
  refine List.map_congr_left fun u mem => ?_
  have other : u ≠ tab := by
    rintro rfl
    cases ellipsis <;> simp [Ellipsis.units, tab] at mem
  rw [Function.comp_apply, graphemeWidth, if_neg (by simpa using other), documented.ellipsisWidth ellipsis u mem]

theorem single_cells (units : JsString) :
    cellsUnits (units.map fun u => ⟨[u],1⟩) = units ∧ cellsWidth (units.map fun u => ⟨[u],1⟩) = units.length := by
  induction units with
  | nil => exact ⟨rfl,rfl⟩
  | cons u units ih =>
    rw [List.map_cons, cellsUnits_cons, cellsWidth_cons, ih.1, ih.2, List.length_cons, Nat.add_comm]
    exact ⟨rfl,rfl⟩

/-- When only the ellipsis can be shown, what fits of it is. -/
theorem cut_truncates (documented : Documented host) {text : JsString} (ellipsis : Ellipsis) (pad : Bool)
    (past : maxWidth < widthOf host tabWidth text) (small : maxWidth - ellipsis.width = 0) :
    TruncatesTo host tabWidth text maxWidth ellipsis pad (truncation host tabWidth text maxWidth ellipsis pad) := by
  obtain ⟨rest,same⟩ := fitting_prefix maxWidth 0 (graphemeCells host tabWidth ellipsis.units)
  have within := fitting_width (Nat.zero_le maxWidth) (graphemeCells host tabWidth ellipsis.units)
  have taken := @takeFitting_is maxWidth 0 (graphemeCells host tabWidth ellipsis.units) []
  rw [ellipsis_cells documented] at same within taken
  generalize fitting maxWidth 0 (ellipsis.units.map fun u => (⟨[u],1⟩ : Cell)) = shown at same within taken
  obtain ⟨front,later,parts,shown_is,rest_is⟩ := List.map_eq_append_iff.mp same.symm
  obtain ⟨units,width⟩ := single_cells front
  rw [shown_is] at units width
  rw [width, Nat.zero_add] at within taken
  have prefix_ : front <+: ellipsis.units := ⟨later,parts.symm⟩
  have plain : plainUnits front := fun u mem => ellipsis_plain ellipsis u (prefix_.subset mem)
  have visible : visibleText front = front := by
    rw [visible_plain plain, withoutNul, List.filter_eq_self]
    intro u mem
    have among := prefix_.subset mem
    cases ellipsis <;> simp [Ellipsis.units] at among <;> simp [among]
  obtain ⟨short,filled⟩ := @padding_fills pad maxWidth _ within
  have out : truncation host tabWidth text maxWidth ellipsis pad = buildUtf16String (front ++ spaces (padding pad maxWidth front.length)) := by
    rw [truncation, if_neg (Nat.not_le.mpr past), if_pos small, cutEllipsis, ellipsis_cells documented, taken, units]
    cases pad with
    | true => rfl
    | false => rw [padding_none rfl]; rfl
  refine ⟨⟨[],front,padding pad maxWidth front.length,List.nil_prefix,prefix_,.inr past,?_,?_,?_,padding_none⟩,fun fits => absurd past (Nat.not_lt.mpr fits)⟩
  · rw [out, visible_build (settled_append escapes (plain_settled plain) (plain_settled (spaces_plain _))),
      visible_append (plain_settled plain), visible, spaces_visible]
    rfl
  · rw [show cellsWidth [] = 0 from rfl, Nat.zero_add]
    exact short
  · intro on
    rw [show cellsWidth [] = 0 from rfl, Nat.zero_add]
    exact filled on

/-- What the main branch shows: the cells given, the ellipsis, and padding. -/
theorem main_visible {text : JsString} (well : WellEscaped text) (ellipsis : Ellipsis) (pad : Bool)
    (past : maxWidth < widthOf host tabWidth text) (room : maxWidth - ellipsis.width ≠ 0) :
    let given := givenCells host tabWidth (maxWidth - ellipsis.width) 0 (pieces escapes text)
    visibleText (truncation host tabWidth text maxWidth ellipsis pad) =
      withoutNul (cellsUnits given) ++ ellipsis.units ++ spaces (padding pad maxWidth (cellsWidth given + ellipsis.width)) := by
  intro given
  obtain ⟨settled,width,shown⟩ := @truncate_given host tabWidth (maxWidth - ellipsis.width) _
    (good_pieces well) ⟨[],0,false⟩ (plain_settled (fun u mem => by cases mem))
  rw [truncation, if_neg (Nat.not_le.mpr past), if_neg room]
  generalize (runPieces (truncateScanner host tabWidth (maxWidth - ellipsis.width)) ⟨[],0,false⟩ (pieces escapes text)).1 = s
    at settled width shown
  have reset : WellEscaped (if s.sawSgr then resetSgr else []) ∧ visibleText (if s.sawSgr then resetSgr else []) = [] := by
    split
    · refine ⟨settled_whole escapes reset_whole,?_⟩
      rw [visibleText, symbols_whole escapes reset_whole]
      rfl
    · refine ⟨plain_settled (fun u mem => by cases mem),?_⟩
      rw [visibleText, symbols_nil]
      rfl
  have pads : (if pad = true then padTo maxWidth (s.w + ellipsis.width) else []) = spaces (padding pad maxWidth (cellsWidth given + ellipsis.width)) := by
    rw [width, Nat.zero_add]
    cases pad with
    | true => rfl
    | false => rw [padding_none rfl]; rfl
  have kept : visibleText s.out = withoutNul (cellsUnits given) := by
    rw [visibleText, shown, symbols_nil]
    rfl
  have first := settled_append escapes settled reset.1
  have second := settled_append escapes first (plain_settled (ellipsis_plain ellipsis))
  rw [truncated, pads, visible_build (settled_append escapes second (plain_settled (spaces_plain _))), visible_append second,
    visible_append first, visible_append settled, kept, reset.2, ellipsis_visible, spaces_visible, List.append_nil]

theorem tab_cell {cell : Cell} (documented : Documented host) (mem : cell ∈ cells host tabWidth segment)
    (holds : tab ∈ cell.units) : cell = ⟨[tab],tabWidth⟩ := by
  rw [cells] at mem
  split at mem
  · obtain ⟨u,_,rfl⟩ := List.mem_map.mp mem
    obtain rfl : tab = u := by simpa using holds
    rw [asciiCellWidth, if_pos rfl]
  · obtain ⟨grapheme,among,rfl⟩ := List.mem_map.mp mem
    obtain rfl := documented.tabAlone segment grapheme among holds
    rw [graphemeWidth, if_pos rfl]

/-- An ASCII character that does not fit where a column is left is a tab. -/
theorem wide_ascii {cell : Cell} (ascii : isAscii segment = true) (mem : cell ∈ cells host tabWidth segment)
    (wide : 1 < cell.width) : cell = ⟨[tab],tabWidth⟩ := by
  rw [cells, if_pos ascii] at mem
  obtain ⟨u,_,rfl⟩ := List.mem_map.mp mem
  by_cases tabbed : u = tab
  · rw [tabbed, asciiCellWidth, if_pos rfl]
  · rw [asciiCellWidth, if_neg tabbed] at wide
    dsimp only at wide
    split at wide <;> omega

/-- Cells of spaces and NULs only are as wide as they have spaces. -/
theorem blank_cells (documented : Documented host) {shown : List Cell} (among : ∀ cell ∈ shown, ∃ segment, cell ∈ cells host tabWidth segment)
    (blank : ∀ u ∈ cellsUnits shown, u = 0 ∨ u = space) : withoutNul (cellsUnits shown) = spaces (cellsWidth shown) := by
  induction shown with
  | nil => rfl
  | cons cell later ih =>
    have here : withoutNul cell.units = spaces cell.width := by
      obtain ⟨segment,mem⟩ := among cell List.mem_cons_self
      have units : ∀ u ∈ cell.units, u = 0 ∨ u = space := fun u inside => blank u (by
        rw [cellsUnits_cons]
        exact List.mem_append.mpr (.inl inside))
      rw [cells] at mem
      split at mem
      · obtain ⟨u,_,rfl⟩ := List.mem_map.mp mem
        rcases units u (by simp) with rfl | rfl <;> rfl
      · obtain ⟨grapheme,inside,rfl⟩ := List.mem_map.mp mem
        dsimp only at units ⊢
        by_cases nul : 0 ∈ grapheme
        · obtain rfl := documented.nulAlone segment grapheme inside nul
          rw [graphemeWidth, if_neg (by decide), documented.nulWidth]
          rfl
        · have all : ∀ u ∈ grapheme, u = space := by
            intro u mem
            rcases units u mem with rfl | same
            · exact absurd mem nul
            · exact same
          have same : grapheme = spaces grapheme.length := List.eq_replicate_iff.mpr ⟨rfl,all⟩
          have other : grapheme ≠ [tab] := by
            rintro rfl
            cases all tab List.mem_cons_self
          rw [graphemeWidth, if_neg other, documented.spaces segment grapheme inside all, ← same, withoutNul, List.filter_eq_self]
          intro u mem
          rw [all u mem]
          decide
    have rest := ih (fun other mem => among other (List.mem_cons_of_mem _ mem)) fun u mem => blank u (by
      rw [cellsUnits_cons]
      exact List.mem_append.mpr (.inr mem))
    rw [cellsUnits_cons, cellsWidth_cons, withoutNul_append]
    exact (congrArg₂ (· ++ ·) here rest).trans List.replicate_append_replicate

/-- The ellipsis shown last cannot be taken for text and an ellipsis shown earlier. -/
theorem ellipsis_last {ellipsis : Ellipsis} (visible : ellipsis ≠ .omit) {before shown : JsString} {n k : Nat} (front : shown <+: ellipsis.units)
    (same : before ++ ellipsis.units ++ spaces n = shown ++ spaces k) : before = [] := by
  obtain ⟨dot,count,some,other,units⟩ : ∃ dot count, 0 < count ∧ dot ≠ space ∧ ellipsis.units = List.replicate count dot := by
    rcases ellipsis
    · exact ⟨0x2026,1,by decide,by decide,rfl⟩
    · exact ⟨0x2e,3,by decide,by decide,rfl⟩
    · exact absurd rfl visible
  rw [units] at front same
  obtain ⟨j,within,rfl⟩ : ∃ j, j ≤ count ∧ shown = List.replicate j dot := by
    refine ⟨shown.length,by simpa using front.length_le,List.eq_replicate_iff.mpr ⟨rfl,fun u mem => ?_⟩⟩
    exact (List.mem_replicate.mp (front.subset mem)).2
  have counted := congrArg (List.count dot) same
  have none : ∀ m, List.count dot (spaces m) = 0 := fun m => List.count_replicate.trans (if_neg (by simpa using Ne.symm other))
  simp only [List.count_append, List.count_replicate_self, none, Nat.add_zero] at counted
  cases before with
  | nil => rfl
  | cons u rest =>
    obtain rfl : j = count := by omega
    obtain ⟨j,rfl⟩ : ∃ i, j = i + 1 := ⟨j - 1,by omega⟩
    have first : u = dot := by
      have heads := congrArg List.head? same
      simpa [List.replicate_succ] using heads
    rw [first, List.count_cons_self] at counted
    omega

end result

/-- Nothing but what padding would show is given by the runs after an ASCII run that is cut though columns are left. -/
def EndsAtTab (host : Segmentation) (tabWidth : Nat) (text : JsString) (maxWidth : Nat) (ellipsis : Ellipsis) (pad : Bool) : Prop :=
  maxWidth < widthOf host tabWidth text → ellipsis.width < maxWidth → ∀ reached after,
    firstGap host tabWidth (maxWidth - ellipsis.width) 0 (pieces escapes text) = some (reached, after) →
    ∀ u ∈ cellsUnits (givenCells host tabWidth (maxWidth - ellipsis.width) reached after),
      u = 0 ∨ u = space ∧ ellipsis = .omit ∧ pad = true

section main
variable {host : Segmentation} {tabWidth maxWidth : Nat} {text : JsString} {ellipsis : Ellipsis} {pad : Bool}

theorem main_truncates (documented : Documented host) (well : WellEscaped text) (past : maxWidth < widthOf host tabWidth text)
    (room : ellipsis.width < maxWidth) (ends : EndsAtTab host tabWidth text maxWidth ellipsis pad) :
    TruncatesTo host tabWidth text maxWidth ellipsis pad (truncation host tabWidth text maxWidth ellipsis pad) := by
  have visible := main_visible well ellipsis pad past (by omega)
  have width := @given_width host tabWidth _ _ (Nat.zero_le (maxWidth - ellipsis.width)) (pieces escapes text)
  have split_ := @given_split host tabWidth (maxWidth - ellipsis.width) 0 (pieces escapes text)
  dsimp only at visible
  generalize givenCells host tabWidth (maxWidth - ellipsis.width) 0 (pieces escapes text) = given at visible width split_
  obtain ⟨short,filled⟩ := @padding_fills pad maxWidth (cellsWidth given + ellipsis.width) (by omega)
  cases gap : firstGap host tabWidth (maxWidth - ellipsis.width) 0 (pieces escapes text) with
  | none =>
    rw [gap] at split_
    refine ⟨⟨given,ellipsis.units,_,split_,List.prefix_refl _,.inr past,visible,?_,?_,padding_none⟩,
      fun fits => absurd past (Nat.not_lt.mpr fits)⟩
    · rw [ellipsis_length]; exact short
    · rw [ellipsis_length]; exact filled
  | some found =>
    obtain ⟨reached,after⟩ := found
    rw [gap] at split_
    obtain ⟨front,cell,rest,segment,all,is,_,_,_,_,rfl⟩ := split_
    have later := ends past room reached after gap
    have blank := blank_cells documented (fun cell mem => (given_cell mem).1) fun u mem => (later u mem).imp id fun h => h.1
    generalize givenCells host tabWidth (maxWidth - ellipsis.width) reached after = extra at visible width later blank short filled
    have front_prefix : front <+: textCells host tabWidth text := ⟨cell :: rest,all.symm⟩
    rw [cellsWidth_append] at short filled visible
    rw [cellsUnits_append, withoutNul_append, blank] at visible
    by_cases shows : cellsWidth extra = 0
    · rw [shows] at visible short filled
      rw [Nat.add_zero] at visible short filled
      refine ⟨⟨front,ellipsis.units,padding pad maxWidth (cellsWidth front + ellipsis.width), front_prefix,List.prefix_refl _,.inr past,?_,?_,?_,padding_none⟩,
        fun fits => absurd past (Nat.not_lt.mpr fits)⟩
      · rw [visible]; simp [spaces]
      · rw [ellipsis_length]; exact short
      · rw [ellipsis_length]; exact filled
    · have mem : space ∈ cellsUnits extra := by
        have inside : space ∈ withoutNul (cellsUnits extra) := by
          rw [blank]
          exact List.mem_replicate.mpr ⟨shows,rfl⟩
        exact (List.mem_filter.mp inside).1
      obtain ⟨_,rfl,rfl⟩ := (later space mem).resolve_left (by decide)
      have full := filled rfl
      refine ⟨⟨front,[],cellsWidth extra + padding true maxWidth (cellsWidth front + cellsWidth extra + Ellipsis.omit.width), front_prefix,
        List.nil_prefix,.inl rfl,?_,?_,?_,fun off => by cases off⟩,fun fits => absurd past (Nat.not_lt.mpr fits)⟩
      · rw [visible, show Ellipsis.omit.units = [] from rfl, List.append_nil, List.append_nil, List.append_assoc]
        exact congrArg _ List.replicate_append_replicate
      · have none : Ellipsis.omit.width = 0 := rfl
        rw [List.length_nil]
        omega
      · intro _
        have none : Ellipsis.omit.width = 0 := rfl
        rw [List.length_nil]
        omega

theorem begins_in {c u : CodeUnit} {rest extra later : JsString} (same : c :: rest = extra ++ later) (mem : u ∈ extra) : c ∈ extra := by
  cases extra with
  | nil => cases mem
  | cons d extra =>
    rw [List.cons_append, List.cons.injEq] at same
    rw [same.1]
    exact List.mem_cons_self

theorem main_only (documented : Documented host) (well : WellEscaped text)
    (truncates : TruncatesTo host tabWidth text maxWidth ellipsis pad (truncation host tabWidth text maxWidth ellipsis pad)) :
    EndsAtTab host tabWidth text maxWidth ellipsis pad := by
  intro past room reached after gap u mem
  have visible := main_visible well ellipsis pad past (by omega)
  have split_ := @given_split host tabWidth (maxWidth - ellipsis.width) 0 (pieces escapes text)
  dsimp only at visible
  rw [gap] at split_
  obtain ⟨front,cell,rest,segment,all,is,inside,over_,ascii,among,given⟩ := split_
  rw [given, cellsUnits_append, withoutNul_append] at visible
  generalize padding pad maxWidth (cellsWidth (front ++ givenCells host tabWidth (maxWidth - ellipsis.width) reached after) +
    ellipsis.width) = filled at visible
  have tabbed : withoutNul (cellsUnits [⟨[tab],tabWidth⟩]) = [tab] := rfl
  obtain ⟨kept,shown,n, kept_prefix, shown_prefix,_,shows,_,_,unpadded⟩ := truncates.parts
  rw [shows] at visible
  obtain rfl := wide_ascii ascii among (by omega)
  by_cases nul : u = 0
  · exact .inl nul
  · right
    have member : u ∈ withoutNul (cellsUnits (givenCells host tabWidth (maxWidth - ellipsis.width) reached after)) :=
      List.mem_filter.mpr ⟨mem,by simpa using nul⟩
    have noTab : tab ∉ withoutNul (cellsUnits (givenCells host tabWidth (maxWidth - ellipsis.width) reached after)) := by
      intro inText
      obtain ⟨other,inCells,inUnits⟩ := List.mem_flatMap.mp (List.mem_filter.mp inText).1
      obtain ⟨⟨source,from_⟩,fits⟩ := given_cell inCells
      rw [tab_cell documented from_ inUnits] at fits
      dsimp only at over_ fits
      omega
    generalize withoutNul (cellsUnits (givenCells host tabWidth (maxWidth - ellipsis.width) reached after)) = extra at visible member noTab
    have next : front ++ [⟨[tab],tabWidth⟩] <+: textCells host tabWidth text := ⟨rest,by rw [textCells, all]; simp⟩
    rcases List.prefix_or_prefix_of_prefix kept_prefix next with shorter | ⟨further,rfl⟩
    · rcases List.prefix_concat_iff.mp shorter with rfl | ⟨dropped,rfl⟩
      · rw [cellsUnits_append, withoutNul_append, tabbed] at visible
        have same : [tab] ++ (shown ++ spaces n) = extra ++ (ellipsis.units ++ spaces filled) := by
          simpa only [List.append_assoc, List.append_cancel_left_eq] using visible
        exact absurd (begins_in same member) noTab
      · -- the whole result after the kept cells is ellipsis and spaces
        rw [cellsUnits_append, withoutNul_append] at visible
        have after_ : shown ++ spaces n = withoutNul (cellsUnits dropped) ++ extra ++ ellipsis.units ++ spaces filled := by
          simpa only [List.append_assoc, List.append_cancel_left_eq] using visible
        by_cases omitted : ellipsis = .omit
        · subst omitted
          obtain rfl : shown = [] := List.prefix_nil.mp shown_prefix
          have space_ : u ∈ spaces n := by
            have inside : u ∈ [] ++ spaces n := by
              rw [after_]
              simp [member]
            simpa using inside
          obtain ⟨some,rfl⟩ := List.mem_replicate.mp space_
          refine ⟨rfl,rfl,?_⟩
          cases off : pad with
          | true => rfl
          | false => exact absurd (unpadded off) some
        · have nothing := ellipsis_last omitted shown_prefix after_.symm
          rw [(List.append_eq_nil_iff.mp nothing).2] at member
          cases member
    · rw [cellsUnits_append, cellsUnits_append, withoutNul_append, withoutNul_append, tabbed] at visible
      have same : [tab] ++ (withoutNul (cellsUnits further) ++ (shown ++ spaces n)) = extra ++ (ellipsis.units ++ spaces filled) := by
        simpa only [List.append_assoc, List.append_cancel_left_eq] using visible
      exact absurd (begins_in same member) noTab

/-- Truncation keeps a prefix, and fills the width as asked, exactly when the runs after a tab that does not fit, though
    columns are left, give nothing that padding would not show. -/
theorem truncates_iff (documented : Documented host) (well : WellEscaped text) (maxWidth : Nat) (ellipsisKind : Option Ellipsis)
    (pad : Option Bool) (tabWidth : Nat) :
    (∃ out, Yields (fun fuel => truncateToWidth host fuel text maxWidth ellipsisKind pad tabWidth) out ∧
      TruncatesTo host (clampTabWidth tabWidth) text maxWidth (ellipsisKind.getD .unicode) (pad.getD false) out) ↔
    EndsAtTab host (clampTabWidth tabWidth) text maxWidth (ellipsisKind.getD .unicode) (pad.getD false) := by
  have gives := truncation_yields host text maxWidth ellipsisKind pad tabWidth
  constructor
  · rintro ⟨out,given,truncates⟩
    rw [yields_same given gives] at truncates
    exact main_only documented well truncates
  · intro ends
    refine ⟨_,gives,?_⟩
    by_cases fits : widthOf host (clampTabWidth tabWidth) text ≤ maxWidth
    · exact fits_truncates well _ _ fits
    · have past := Nat.not_le.mp fits
      by_cases small : maxWidth - (ellipsisKind.getD .unicode).width = 0
      · exact cut_truncates documented _ _ past small
      · exact main_truncates documented well past (by omega) ends

end main

/- Every unit a grapheme, and the control characters without width. -/
def plainGraphemes : Segmentation where
  graphemes segment := segment.map fun u => [u]
  width grapheme := if grapheme.all (fun u => 0x20 ≤ u) then grapheme.length else 0
  partition := unitGraphemes.partition
  nonempty := unitGraphemes.nonempty

theorem plainGraphemes_documented : Documented plainGraphemes where
  tabAlone segment grapheme mem holds := by
    obtain ⟨u,_,rfl⟩ := List.mem_map.mp mem
    rw [List.mem_singleton.mp holds]
  nulAlone segment grapheme mem holds := by
    obtain ⟨u,_,rfl⟩ := List.mem_map.mp mem
    rw [List.mem_singleton.mp holds]
  nulWidth := by decide
  spaces segment grapheme mem all := by
    obtain ⟨u,_,rfl⟩ := List.mem_map.mp mem
    obtain rfl := all u List.mem_cons_self
    decide
  ellipses ellipsis := rfl
  ellipsisWidth ellipsis u mem := by
    rcases ellipsis
    · obtain rfl := List.mem_singleton.mp mem
      decide
    · obtain rfl : u = 0x2e := by simpa [Ellipsis.units] using mem
      decide
    · cases mem

def redSequence : JsString := esc :: js "[31m"

theorem red_whole : escapes.sequence redSequence = some redSequence.length := by decide

theorem red_well {front later : JsString} (plain : plainUnits front) (plain' : plainUnits later) :
    WellEscaped (front ++ redSequence ++ later) :=
  settled_append escapes (settled_append escapes (plain_settled plain) (settled_whole escapes red_whole)) (plain_settled plain')

theorem truncates_words : ∃ out, Yields (fun fuel => truncateToWidth plainGraphemes fuel (js "abc" ++ redSequence ++ js "def") 5 none none 3) out ∧
    TruncatesTo plainGraphemes 3 (js "abc" ++ redSequence ++ js "def") 5 .unicode false out := by
  have well : WellEscaped (js "abc" ++ redSequence ++ js "def") := red_well (by decide) (by decide)
  refine (truncates_iff plainGraphemes_documented well 5 none none 3).mpr fun _ _ reached after gap => ?_
  have none : firstGap plainGraphemes 3 4 0 (pieces escapes (js "abc" ++ redSequence ++ js "def")) = none := by decide +kernel
  cases none.symm.trans gap

/-- A tab that does not fit is left out, and what follows it after an escape sequence is kept. -/
theorem tab_left_out : ¬ ∃ out, Yields (fun fuel => truncateToWidth plainGraphemes fuel (js "abc\t" ++ redSequence ++ js "de") 5 (some .omit) none 3) out ∧
    TruncatesTo plainGraphemes 3 (js "abc\t" ++ redSequence ++ js "de") 5 .omit false out := by
  rintro ⟨out,given,truncates⟩
  have well : WellEscaped (js "abc\t" ++ redSequence ++ js "de") := red_well (by decide) (by decide)
  rw [yields_same given (truncation_yields plainGraphemes _ 5 (some .omit) none 3)] at truncates
  have ends := main_only plainGraphemes_documented well truncates
  have gap : firstGap plainGraphemes 3 5 0 (pieces escapes (js "abc\t" ++ redSequence ++ js "de")) =
      some (3, [.sequence redSequence, .run (js "de")]) := by decide +kernel
  have member : 100 ∈ cellsUnits (givenCells plainGraphemes 3 5 3 [.sequence redSequence, .run (js "de")]) := by decide +kernel
  have past : 5 < widthOf plainGraphemes 3 (js "abc\t" ++ redSequence ++ js "de") := by decide +kernel
  rcases ends past (by decide) 3 _ gap 100 member with zero | ⟨same,_⟩
  · cases zero
  · cases same

end AnsiText
