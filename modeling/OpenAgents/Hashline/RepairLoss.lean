import OpenAgents.Hashline.PlacedText
import OpenAgents.Hashline.ReplacementGroups

/- When the rows a boundary repair takes away are really there, next to the replacement,
   in the text that all hunks of the patch produce. -/
namespace Hashline
open JsText LineSplice KeyedBlocks

def lineAt (fileLines : List JsString) (n : Nat) : PlacedLine := ⟨lineKey n,fileLines[n - 1]?.getD []⟩

def linesFrom (fileLines : List JsString) (start count : Nat) : List PlacedLine :=
  (List.range' start count).map (lineAt fileLines)

/-- Nothing behind the line is kept, and no row goes behind it. -/
structure StandsLast (edits : List AppliedEdit) (fileLines : List JsString) (n : Nat) : Prop where
  kept : edits.any (deletesLine n) = false
  laterDeleted : ∀ m, n < m → m ≤ fileLines.length → edits.any (deletesLine m) = true
  noRows : ∀ edit ∈ edits, ∀ key, rowKey edit = some key → key < lineKey n

/-- The lines are kept and no row goes between two bounds; rows for the end of the text go
    in front of a blank last line, so that must not be one of them. -/
structure Undisturbed (edits : List AppliedEdit) (fileLines : List JsString) (low high : Nat) (lines : List Nat) :
    Prop where
  kept : ∀ n ∈ lines, edits.any (deletesLine n) = false
  noRows : ∀ edit ∈ edits, ∀ key, rowKey edit = some key → ¬ (low < key ∧ key < high)
  noTail : tailRows edits = [] ∨ ∀ n, low < lineKey n - 1 → lineKey n - 1 < high →
    fileLines[n - 1]? = some [] → ¬ StandsLast edits fileLines n

section segment
variable {edits : List AppliedEdit} {fileLines : List JsString}

variable {n : Nat} {last : PlacedLine}

theorem lineAt_kept (low : 1 ≤ n) (high : n ≤ fileLines.length) :
    lineAt fileLines n ∈ placedBody edits fileLines ↔ edits.any (deletesLine n) = false := by
  have inside : n - 1 < fileLines.length := by omega
  rw [lineAt, line_in_body, List.getElem?_eq_getElem inside, Option.getD_some]
  simp [low]

theorem row_key_not_line {edit : AppliedEdit} {key : Nat} (placed : rowKey edit = some key) : isLineKey key = false := by
  unfold rowKey at placed
  split at placed <;> cases placed
  · exact (row_key_free _).1
  · exact (row_key_free _).2.2
  · exact (row_key_free _).2.1
  · exact (row_key_free _).2.1

/-- Everything stands before the last row, or is it. -/
theorem last_is_greatest {last x : PlacedLine} (found : (placedBody edits fileLines).getLast? = some last)
    (mem : x ∈ placedBody edits fileLines) : x = last ∨ InOrder PlacedLine.key isLineKey x last := by
  have split := List.dropLast_append_getLast? last found
  have ordered := body_ordered edits fileLines
  rw [← split] at mem ordered
  rcases List.mem_append.mp mem with early | final
  · exact .inr ((List.pairwise_append.mp ordered).2.2 x early last (by simp))
  · exact .inl (List.mem_singleton.mp final)

theorem last_of_standsLast (low : 1 ≤ n) (high : n ≤ fileLines.length) (stands : StandsLast edits fileLines n) : (placedBody edits fileLines).getLast? = some (lineAt fileLines n) := by
  have here := (lineAt_kept low high).mpr stands.kept
  cases found : (placedBody edits fileLines).getLast? with
  | none =>
    rw [List.getLast?_eq_none_iff.mp found] at here
    exact absurd here List.not_mem_nil
  | some last =>
    rcases last_is_greatest found here with same | follows
    · rw [same]
    · exfalso
      have different : lineKey n ≠ last.key := by
        intro same
        have shared := follows.2 same
        rw [show isLineKey (lineAt fileLines n).key = true from line_key_once n] at shared
        contradiction
      have reached : lineKey n ≤ last.key := follows.1
      rcases body_cases (List.mem_of_getLast? found) with ⟨m,key,body⟩ | ⟨_,edit,mem,placed⟩
      · obtain ⟨_,text,kept⟩ := line_in_body.mp body
        have inside := (List.getElem?_eq_some_iff.mp text).1
        rw [key] at different reached
        simp only [lineKey] at different reached
        have deleted := stands.laterDeleted m (by omega) (by omega)
        rw [kept] at deleted
        contradiction
      · have early := stands.noRows edit mem last.key placed
        omega

theorem standsLast_of_last (bounds : InBounds edits fileLines) (found : (placedBody edits fileLines).getLast? = some last)
    (key : last.key = lineKey n) : StandsLast edits fileLines n ∧ 1 ≤ n ∧ fileLines[n - 1]? = some last.text := by
  have here : (⟨lineKey n,last.text⟩ : PlacedLine) ∈ placedBody edits fileLines := by
    rw [← key]
    exact List.mem_of_getLast? found
  obtain ⟨low,text,kept⟩ := line_in_body.mp here
  refine ⟨⟨kept,?_,?_⟩,low,text⟩
  · intro m later inside
    cases deleted : edits.any (deletesLine m) with
    | true => rfl
    | false =>
      rcases last_is_greatest found ((lineAt_kept (by omega) inside).mpr deleted) with same | follows
      · have sameKey : lineKey m = lineKey n := by rw [← key, ← same]; rfl
        simp only [lineKey] at sameKey
        omega
      · have reached : lineKey m ≤ last.key := follows.1
        rw [key] at reached
        simp only [lineKey] at reached
        omega
  · intro edit mem rowAt placed
    obtain ⟨x,body,rfl⟩ := row_in_body bounds mem placed
    have free := row_key_not_line placed
    rcases last_is_greatest found body with same | follows
    · rw [same, key, line_key_once] at free
      contradiction
    · have reached : x.key ≤ last.key := follows.1
      have different : x.key ≠ lineKey n := by
        intro same
        rw [same, line_key_once] at free
        contradiction
      omega

theorem not_blank_of_visible (mem : lineAt fileLines n ∈ placedBody edits fileLines)
    (visible : fileLines[n - 1]?.getD [] ≠ []) : texts (placedBody edits fileLines) ≠ [[]] := by
  intro blank
  have text : fileLines[n - 1]?.getD [] ∈ texts (placedBody edits fileLines) := List.mem_map.mpr ⟨_,mem,rfl⟩
  rw [blank] at text
  exact visible (List.mem_singleton.mp text)

variable {low high start count : Nat}

/-- With every line of the run in the text and nothing else between the bounds, the patch leaves the run alone. -/
theorem undisturbed_of_between (bounds : InBounds edits fileLines) (enough : 8 ≤ low)
    (inside : ∀ n ∈ List.range' start count, 1 ≤ n ∧ n ≤ fileLines.length ∧ low < lineKey n ∧ lineKey n < high)
    (visible : ∃ n ∈ List.range' start count, fileLines[n - 1]?.getD [] ≠ [])
    (blockLine : ∀ b ∈ linesFrom fileLines start count, isLineKey b.key = true)
    (present : ∀ b ∈ linesFrom fileLines start count, b ∈ placedText edits fileLines)
    (only : ∀ x ∈ placedText edits fileLines, low < x.key → x.key < high → x ∈ linesFrom fileLines start count) :
    Undisturbed edits fileLines low high (List.range' start count) := by
  have inBody : ∀ n ∈ List.range' start count, lineAt fileLines n ∈ placedBody edits fileLines := by
    intro n among
    have once := line_key_once n
    rcases placed_cases (present _ (List.mem_map.mpr ⟨n,among,rfl⟩)) with body | zero | top | ⟨_,last,_,_,key⟩
    · exact body
    · rw [show lineKey n = 0 from zero] at once
      contradiction
    · have under := (inside n among).2.1
      simp only [lineAt, lineKey] at top
      omega
    · rw [show lineKey n = tailKey last from key, tailKey_free] at once
      contradiction
  obtain ⟨seen,amongSeen,notBlankSeen⟩ := visible
  have notBlank := not_blank_of_visible (inBody seen amongSeen) notBlankSeen
  refine ⟨?_,?_,?_⟩
  · intro n among
    obtain ⟨first,last,_⟩ := inside n among
    exact (lineAt_kept first last).mp (inBody n among)
  · intro edit mem key placed between'
    obtain ⟨x,body,rfl⟩ := row_in_body bounds mem placed
    have line := blockLine x (only x (body_in_placed notBlank body) between'.1 between'.2)
    rw [row_key_not_line placed] at line
    contradiction
  · by_cases none' : tailRows edits = []
    · exact .inl none'
    · refine .inr ?_
      intro n above beneath blank stands
      have low' : 1 ≤ n := by
        simp only [lineKey] at above
        omega
      have found := last_of_standsLast low' (by have := (List.getElem?_eq_some_iff.mp blank).1; omega) stands
      obtain ⟨x,mem,key⟩ := tail_in_placed notBlank found (by simp [lineAt, blank]) none'
      have place : x.key = lineKey n - 1 := by
        rw [key, tailKey, if_pos (show isLineKey (lineAt fileLines n).key = true from line_key_once n)]
        rfl
      have line := blockLine x (only x mem (by omega) (by omega))
      rw [key, tailKey_free] at line
      contradiction

/-- The tail stands between the bounds only behind a blank line of theirs. -/
theorem tail_outside (bounds : InBounds edits fileLines)
    (quiet : Undisturbed edits fileLines low high (List.range' start count)) (some' : tailRows edits ≠ [])
    (found : (placedBody edits fileLines).getLast? = some last) (blank : last.text = [])
    (noRow : ∀ y ∈ placedBody edits fileLines, isLineKey y.key = false → ¬ (low < y.key ∧ y.key < high)) :
    ¬ (low < tailKey last ∧ tailKey last < high) := by
  rintro ⟨above,beneath⟩
  rw [tailKey] at above beneath
  by_cases line : isLineKey last.key = true
  · rw [if_pos line] at above beneath
    rcases body_cases (List.mem_of_getLast? found) with ⟨n,lastKey,_⟩ | ⟨free,_⟩
    · obtain ⟨stands,_,text⟩ := standsLast_of_last bounds found lastKey
      rw [blank] at text
      rw [lastKey] at above beneath
      rcases quiet.noTail with none' | never
      · exact absurd none' some'
      · exact absurd stands (never n (by omega) (by omega) text)
    · rw [free] at line
      contradiction
  · rw [if_neg line] at above beneath
    exact absurd ⟨by omega,by omega⟩ (noRow last (List.mem_of_getLast? found) (by simpa using line))

/-- What the patch leaves alone is in the text, with nothing else between the bounds. -/
theorem between_of_undisturbed (bounds : InBounds edits fileLines) (enough : 8 ≤ low) (below : high ≤ 8 * fileLines.length + 8)
    (inside : ∀ n ∈ List.range' start count, 1 ≤ n ∧ n ≤ fileLines.length ∧ low < lineKey n ∧ lineKey n < high)
    (others : ∀ n, low < lineKey n → lineKey n < high → n ∈ List.range' start count ∨ edits.any (deletesLine n) = true)
    (visible : ∃ n ∈ List.range' start count, fileLines[n - 1]?.getD [] ≠ [])
    (quiet : Undisturbed edits fileLines low high (List.range' start count)) :
    (∀ b ∈ linesFrom fileLines start count, b ∈ placedText edits fileLines) ∧
      ∀ x ∈ placedText edits fileLines, low < x.key → x.key < high → x ∈ linesFrom fileLines start count := by
  have inBody : ∀ n ∈ List.range' start count, lineAt fileLines n ∈ placedBody edits fileLines := by
    intro n among
    obtain ⟨first,last,_⟩ := inside n among
    exact (lineAt_kept first last).mpr (quiet.kept n among)
  obtain ⟨seen,amongSeen,notBlankSeen⟩ := visible
  have notBlank := not_blank_of_visible (inBody seen amongSeen) notBlankSeen
  have noRow : ∀ y ∈ placedBody edits fileLines, isLineKey y.key = false → ¬ (low < y.key ∧ y.key < high) := by
    intro y body free
    rcases body_cases body with ⟨n,key,_⟩ | ⟨_,edit,among,placed⟩
    · rw [key, line_key_once] at free
      contradiction
    · exact quiet.noRows edit among y.key placed
  refine ⟨?_,?_⟩
  · intro b mem
    obtain ⟨n,among,rfl⟩ := List.mem_map.mp mem
    exact body_in_placed notBlank (inBody n among)
  · intro x mem above beneath
    rcases placed_cases mem with body | zero | top | ⟨some',last,found,blank,key⟩
    · rcases body_cases body with ⟨n,key,line⟩ | ⟨free,_⟩
      · obtain ⟨_,text,kept⟩ := line_in_body.mp line
        rw [key] at above beneath
        rcases others n above beneath with among | deleted
        · refine List.mem_map.mpr ⟨n,among,?_⟩
          cases x with
          | mk xKey xText =>
            obtain rfl : xKey = lineKey n := key
            rw [lineAt, text, Option.getD_some]
        · rw [kept] at deleted
          contradiction
      · exact absurd ⟨above,beneath⟩ (noRow x body free)
    · omega
    · omega
    · rw [key] at above beneath
      exact absurd ⟨above,beneath⟩ (tail_outside bounds quiet some' found blank noRow)

/-- A run of lines, one of them not blank, is all there is between two bounds iff the patch leaves it alone. -/
theorem between_iff_undisturbed (bounds : InBounds edits fileLines) (enough : 8 ≤ low)
    (below : high ≤ 8 * fileLines.length + 8)
    (inside : ∀ n ∈ List.range' start count, 1 ≤ n ∧ n ≤ fileLines.length ∧ low < lineKey n ∧ lineKey n < high)
    (others : ∀ n, low < lineKey n → lineKey n < high → n ∈ List.range' start count ∨ edits.any (deletesLine n) = true)
    (visible : ∃ n ∈ List.range' start count, fileLines[n - 1]?.getD [] ≠ []) :
    between PlacedLine.key low high (placedText edits fileLines) = linesFrom fileLines start count ↔
      Undisturbed edits fileLines low high (List.range' start count) := by
  have blockLine : ∀ b ∈ linesFrom fileLines start count, isLineKey b.key = true := by
    intro b mem
    obtain ⟨n,_,rfl⟩ := List.mem_map.mp mem
    exact line_key_once n
  have strict : (linesFrom fileLines start count).Pairwise fun a b => a.key < b.key := by
    rw [linesFrom, List.pairwise_map]
    refine List.Pairwise.imp ?_ (List.pairwise_lt_range' 1)
    intro m n before
    simp only [lineAt, lineKey]
    omega
  have range : ∀ b ∈ linesFrom fileLines start count, low < b.key ∧ b.key < high := by
    intro b mem
    obtain ⟨n,among,rfl⟩ := List.mem_map.mp mem
    exact (inside n among).2.2
  rw [between_eq_iff placed_ordered strict blockLine range]
  constructor
  · rintro ⟨present,only⟩
    exact undisturbed_of_between bounds enough inside visible blockLine present only
  · exact between_of_undisturbed bounds enough below inside others visible

end segment

variable {fileLines : List JsString}

theorem texts_linesFrom {start count : Nat} (low : 1 ≤ start) (high : start + count ≤ fileLines.length + 1) :
    texts (linesFrom fileLines start count) = (fileLines.drop (start - 1)).take count := by
  refine List.ext_getElem ?_ ?_
  · simp only [texts, linesFrom, List.length_map, List.length_range', List.length_take, List.length_drop]
    omega
  · intro i here there
    have position : start + 1 * i - 1 = start - 1 + i := by omega
    have inside : start - 1 + i < fileLines.length := by
      simp only [List.length_take, List.length_drop] at there
      omega
    simp only [texts, linesFrom, lineAt, List.map_map, List.getElem_map, Function.comp_apply, List.getElem_range',
      List.getElem_take, List.getElem_drop, position]
    rw [List.getElem?_eq_getElem inside, Option.getD_some]

/- The kept lines that the dropped leading rows restate. -/
def keptAbove (g : ReplacementGroup) (r : Repair) (fileLines : List JsString) : List PlacedLine :=
  linesFrom fileLines (g.startLine - r.leading) r.leading

/- The spared lines, and the kept lines that the dropped trailing rows restate. -/
def keptBelow (g : ReplacementGroup) (r : Repair) (fileLines : List JsString) : List PlacedLine :=
  linesFrom fileLines (g.endLine + 1 - r.spared) (r.spared + r.trailing)

/-- Every row the repair dropped is matched by a line next to the replacement's output, and
every line it spared stands there. -/
structure Justified (placed : List PlacedLine) (fileLines : List JsString) (g : ReplacementGroup) (r : Repair) :
    Prop where
  leading : g.payload.take r.leading = texts (keptAbove g r fileLines)
  trailing : lastRows r.trailing g.payload = texts ((keptBelow g r fileLines).drop r.spared)
  above : keptAbove g r fileLines <:+ placed.takeWhile fun x => x.key < outputKey g.startLine
  below : keptBelow g r fileLines <+: placed.dropWhile fun x => x.key ≤ outputKey g.startLine

structure GroupUndisturbed (edits : List AppliedEdit) (fileLines : List JsString) (g : ReplacementGroup) (r : Repair) :
    Prop where
  above : 0 < r.leading → Undisturbed edits fileLines (lineKey (g.startLine - r.leading) - 1) (outputKey g.startLine)
    (List.range' (g.startLine - r.leading) r.leading)
  below : 0 < r.spared + r.trailing → Undisturbed edits fileLines (outputKey g.startLine)
    (lineKey (g.endLine + r.trailing) + 1) (List.range' (g.endLine + 1 - r.spared) (r.spared + r.trailing))

theorem visible_line {start count : Nat} (low : 1 ≤ start) (high : start + count ≤ fileLines.length + 1)
    (visible : ∃ row ∈ (fileLines.drop (start - 1)).take count, row ≠ []) :
    ∃ n ∈ List.range' start count, fileLines[n - 1]?.getD [] ≠ [] := by
  obtain ⟨row,mem,notBlank⟩ := visible
  rw [← texts_linesFrom low high] at mem
  obtain ⟨line,among,rfl⟩ := List.mem_map.mp mem
  obtain ⟨n,here,rfl⟩ := List.mem_map.mp among
  exact ⟨n,here,notBlank⟩

theorem lines_end_iff {edits : List AppliedEdit} {start count cut : Nat} (positive : 0 < count) :
    (linesFrom fileLines start count <:+ (placedText edits fileLines).takeWhile fun x => x.key < cut) ↔
      between PlacedLine.key (lineKey start - 1) cut (placedText edits fileLines) = linesFrom fileLines start count := by
  obtain ⟨more,rfl⟩ : ∃ more, count = more + 1 := ⟨count - 1,by omega⟩
  have lines : linesFrom fileLines start (more + 1) = lineAt fileLines start :: linesFrom fileLines (start + 1) more := by
    rw [linesFrom, List.range'_succ, List.map_cons]
    rfl
  rw [lines]
  refine ends_at_cut_iff placed_ordered (show 0 < lineKey start by simp [lineKey]) (line_key_once start) ?_
  intro b mem
  rw [← lines] at mem
  obtain ⟨n,among,rfl⟩ := List.mem_map.mp mem
  have place := List.mem_range'_1.mp among
  simp only [lineAt, lineKey]
  omega

theorem lines_start_iff {edits : List AppliedEdit} {start count cut last : Nat} (positive : 0 < count)
    (end' : last + 1 = start + count) :
    (linesFrom fileLines start count <+: (placedText edits fileLines).dropWhile fun x => x.key ≤ cut) ↔
      between PlacedLine.key cut (lineKey last + 1) (placedText edits fileLines) = linesFrom fileLines start count := by
  obtain ⟨more,rfl⟩ : ∃ more, count = more + 1 := ⟨count - 1,by omega⟩
  have lines : linesFrom fileLines start (more + 1) = linesFrom fileLines start more ++ [lineAt fileLines last] := by
    rw [linesFrom, List.range'_1_concat, List.map_append, show start + more = last by omega]
    rfl
  rw [lines]
  refine starts_at_cut_iff placed_ordered (line_key_once last) ?_
  intro b mem
  rw [← lines] at mem
  obtain ⟨n,among,rfl⟩ := List.mem_map.mp mem
  have place := List.mem_range'_1.mp among
  simp only [lineAt, lineKey]
  omega

section group
variable {edits : List AppliedEdit} {fileLines : List JsString} {g : ReplacementGroup} {r : Repair}

theorem above_iff (bounds : InBounds edits fileLines) (fits : RepairFits g fileLines r)
    (inside : g.startLine ≤ fileLines.length) (positive : 0 < r.leading) :
    (keptAbove g r fileLines <:+ (placedText edits fileLines).takeWhile fun x => x.key < outputKey g.startLine) ↔
      Undisturbed edits fileLines (lineKey (g.startLine - r.leading) - 1) (outputKey g.startLine)
        (List.range' (g.startLine - r.leading) r.leading) := by
  have room := fits.leadingBound
  have seen := fits.visibleAbove positive
  rw [linesAbove, show g.startLine - 1 - r.leading = g.startLine - r.leading - 1 by omega] at seen
  rw [keptAbove, lines_end_iff positive]
  refine between_iff_undisturbed bounds ?_ ?_ ?_ ?_ (visible_line (by omega) (by omega) seen)
  · simp only [lineKey]
    omega
  · simp only [outputKey]
    omega
  · intro n among
    have place := List.mem_range'_1.mp among
    simp only [lineKey, outputKey]
    omega
  · intro n above below
    refine .inl (List.mem_range'_1.mpr ?_)
    simp only [lineKey, outputKey] at above below
    omega

/-- The lines of the range that are not spared are deleted by the group itself. -/
theorem below_iff (bounds : InBounds edits fileLines) (fits : RepairFits g fileLines r) (low : 1 ≤ g.startLine)
    (some' : g.deletes ≠ []) (inside : g.endLine ≤ fileLines.length)
    (own : ∀ n, g.startLine ≤ n → n + r.spared ≤ g.endLine → edits.any (deletesLine n) = true)
    (positive : 0 < r.spared + r.trailing) :
    (keptBelow g r fileLines <+: (placedText edits fileLines).dropWhile fun x => x.key ≤ outputKey g.startLine) ↔
      Undisturbed edits fileLines (outputKey g.startLine) (lineKey (g.endLine + r.trailing) + 1)
        (List.range' (g.endLine + 1 - r.spared) (r.spared + r.trailing)) := by
  have room := fits.trailingBound
  have sparedRoom := fits.sparedBound
  have nonempty := List.length_pos_of_ne_nil some'
  have stop : g.endLine = g.startLine + g.deletes.length - 1 := rfl
  have seen := fits.visibleBelow positive
  rw [show g.endLine - r.spared = g.endLine + 1 - r.spared - 1 by omega] at seen
  have reach : g.endLine + r.trailing + 1 = g.endLine + 1 - r.spared + (r.spared + r.trailing) := by omega
  rw [keptBelow, lines_start_iff positive reach]
  refine between_iff_undisturbed bounds ?_ ?_ ?_ ?_ (visible_line (by omega) (by omega) seen)
  · simp only [outputKey]
    omega
  · simp only [lineKey]
    omega
  · intro n among
    have place := List.mem_range'_1.mp among
    simp only [lineKey, outputKey]
    omega
  · intro n above below
    simp only [lineKey, outputKey] at above below
    by_cases early : n + r.spared ≤ g.endLine
    · exact .inr (own n (by omega) early)
    · exact .inl (List.mem_range'_1.mpr (by omega))

theorem justified_iff (bounds : InBounds edits fileLines) (fits : RepairFits g fileLines r) (low : 1 ≤ g.startLine)
    (some' : g.deletes ≠ []) (inside : g.endLine ≤ fileLines.length)
    (own : ∀ n, g.startLine ≤ n → n + r.spared ≤ g.endLine → edits.any (deletesLine n) = true) :
    Justified (placedText edits fileLines) fileLines g r ↔ GroupUndisturbed edits fileLines g r := by
  have nonempty := List.length_pos_of_ne_nil some'
  have stop : g.endLine = g.startLine + g.deletes.length - 1 := rfl
  constructor
  · intro justified
    constructor
    · intro positive
      exact (above_iff bounds fits (by omega) positive).mp justified.above
    · intro positive
      exact (below_iff bounds fits low some' inside own positive).mp justified.below
  · intro quiet
    have leadRoom := fits.leadingBound
    have tailRoom := fits.trailingBound
    have sparedRoom := fits.sparedBound
    constructor
    · rw [fits.leadingRows, keptAbove, linesAbove]
      by_cases none' : r.leading = 0
      · simp [none', linesFrom, texts]
      · rw [texts_linesFrom (by omega) (by omega), show g.startLine - r.leading - 1 = g.startLine - 1 - r.leading by omega]
    · have start : g.endLine + 1 - r.spared + r.spared = g.endLine + 1 := by omega
      have rest : (keptBelow g r fileLines).drop r.spared = linesFrom fileLines (g.endLine + 1) r.trailing := by
        rw [keptBelow, linesFrom, ← List.map_drop, List.drop_range', Nat.mul_one, Nat.add_sub_cancel_left, start]
        rfl
      rw [rest, texts_linesFrom (by omega) (by omega), fits.trailingRows, linesBelow, Nat.add_sub_cancel]
    · by_cases none' : r.leading = 0
      · simp [none', keptAbove, linesFrom]
      · exact (above_iff bounds fits (by omega) (by omega)).mpr (quiet.above (by omega))
    · by_cases none' : r.spared + r.trailing = 0
      · simp [none', keptBelow, linesFrom]
      · exact (below_iff bounds fits low some' inside own (by omega)).mpr (quiet.below (by omega))

end group

variable {fileLines : List JsString} {g : ReplacementGroup}

theorem undisturbed_of_same {edits others : List AppliedEdit} {low high : Nat} {lines : List Nat}
    (same : ∀ edit, edit ∈ edits ↔ edit ∈ others) (quiet : Undisturbed edits fileLines low high lines) : Undisturbed others fileLines low high lines := by
  have deletes : ∀ n, edits.any (deletesLine n) = others.any (deletesLine n) := by
    intro n
    rw [Bool.eq_iff_iff, List.any_eq_true, List.any_eq_true]
    exact exists_congr fun edit => and_congr_left' (same edit)
  constructor
  · intro n among
    rw [← deletes]
    exact quiet.kept n among
  · intro edit mem
    exact quiet.noRows edit ((same edit).mpr mem)
  · rcases quiet.noTail with none' | never
    · refine .inl ?_
      rw [tailRows, List.filterMap_eq_nil_iff] at none' ⊢
      intro edit mem
      exact none' edit ((same edit).mpr mem)
    · refine .inr ?_
      intro n above below blank stands
      refine never n above below blank ⟨?_,?_,?_⟩
      · rw [deletes]
        exact stands.kept
      · intro m later inside
        rw [deletes]
        exact stands.laterDeleted m later inside
      · intro edit mem
        exact stands.noRows edit ((same edit).mp mem)

theorem group_undisturbed_same {edits others : List AppliedEdit} (same : ∀ edit, edit ∈ edits ↔ edit ∈ others)
    (fileLines : List JsString) (g : ReplacementGroup) (r : Repair) :
    GroupUndisturbed edits fileLines g r ↔ GroupUndisturbed others fileLines g r := by
  have flipped : ∀ edit, edit ∈ others ↔ edit ∈ edits := fun edit => (same edit).symm
  constructor
  · intro quiet
    exact ⟨fun positive => undisturbed_of_same same (quiet.above positive),
      fun positive => undisturbed_of_same same (quiet.below positive)⟩
  · intro quiet
    exact ⟨fun positive => undisturbed_of_same flipped (quiet.above positive),
      fun positive => undisturbed_of_same flipped (quiet.below positive)⟩

theorem bounds_of_subset {part edits : List AppliedEdit} (inside : part ⊆ edits) (bounds : InBounds edits fileLines) : InBounds part fileLines :=
  fun edit mem => bounds edit (inside mem)

theorem group_in_bounds {edits : List AppliedEdit} (bounds : InBounds edits fileLines) (mem : g ∈ replacementGroups edits) :
    1 ≤ g.startLine ∧ g.endLine ≤ fileLines.length ∧ g.deletes ≠ [] ∧
      g.deletes.map (fun d => d.anchor.line) = List.range' g.startLine g.deletes.length := by
  obtain ⟨part,found,inside⟩ := visited_inside mem
  obtain ⟨split',some',lines⟩ := group_split found
  have lineBounds : ∀ n ∈ List.range' g.startLine g.deletes.length, 1 ≤ n ∧ n ≤ fileLines.length := by
    intro n among
    rw [← lines] at among
    obtain ⟨d,here,rfl⟩ := List.mem_map.mp among
    have present : AppliedEdit.delete d ∈ edits := by
      refine inside ?_
      rw [split']
      exact List.mem_append_right _ (List.mem_append_left _ (List.mem_map.mpr ⟨d,here,rfl⟩))
    exact bounds _ present d.anchor (by simp [getEditAnchors])
  have nonempty := List.length_pos_of_ne_nil some'
  have stop : g.endLine = g.startLine + g.deletes.length - 1 := rfl
  have first := lineBounds g.startLine (List.mem_range'_1.mpr (by omega))
  have last := lineBounds g.endLine (List.mem_range'_1.mpr (by omega))
  exact ⟨first.1,last.2,some',lines⟩

/-- The lines of a group's range stay deleted but for the spared ones. -/
theorem own_deletes {edits : List AppliedEdit} (mem : g ∈ replacementGroups edits) (positive : 1 ≤ g.startLine)
    (lines : g.deletes.map (fun d => d.anchor.line) = List.range' g.startLine g.deletes.length) {n : Nat}
    (low : g.startLine ≤ n) (high : n + (chooseRepair g fileLines).spared ≤ g.endLine) :
    (repairReplacementBoundaries edits fileLines).edits.any (deletesLine n) = true := by
  have stop : g.endLine = g.startLine + g.deletes.length - 1 := rfl
  have early : n - g.startLine < g.deletes.length - (chooseRepair g fileLines).spared := by omega
  have inside : n - g.startLine < g.deletes.length := by omega
  have kept : g.deletes[n - g.startLine] ∈ keptDeletes g (chooseRepair g fileLines) := by
    rw [keptDeletes]
    exact List.mem_take_iff_getElem.mpr ⟨n - g.startLine,by omega,rfl⟩
  have line : g.deletes[n - g.startLine].anchor.line = n := by
    have here := congrArg (fun list => list[n - g.startLine]?) lines
    simp only [List.getElem?_map, List.getElem?_eq_getElem inside, Option.map_some] at here
    rw [List.getElem?_range' inside] at here
    injection here with same
    omega
  refine List.any_eq_true.mpr ⟨_,visited_kept mem kept,?_⟩
  simp [deletesLine, line]

/-- When no replacement loses a row to its boundary repair: the other hunks of the patch leave
    the matched and the spared lines where they are. -/
theorem repair_justified_iff_undisturbed {text : JsString} {edits : List AppliedEdit} {result : ApplyResult}
    (applied : applyEdits text (edits.map .applied) = .ok result) :
    let fileLines := splitLines text
    let targetEdits := cloneAppliedEdits edits
    let repaired := (repairReplacementBoundaries targetEdits fileLines).edits
    let groups := replacementGroups targetEdits
    targetEdits.Perm (repaired ++ takenFrom fileLines groups) ∧
      result.text = joinLines (texts (placedText repaired fileLines)) ∧
      ((∀ g ∈ groups, Justified (placedText repaired fileLines) fileLines g (chooseRepair g fileLines)) ↔
        ∀ g ∈ groups, GroupUndisturbed (remainingEdits targetEdits fileLines) fileLines g (chooseRepair g fileLines)) := by
  intro fileLines targetEdits repaired groups
  have taken : targetEdits.Perm (repaired ++ takenFrom fileLines groups) := repair_perm fileLines _ _
  have both : InBounds targetEdits fileLines ∧ result.text = joinLines (applyRepaired repaired fileLines).fileLines := by
    cases edits with
    | nil =>
      cases applied
      exact ⟨fun edit mem => absurd mem List.not_mem_nil,(join_split text).symm⟩
    | cons edit edits =>
      have resolved : applyEdits text ((edit :: edits).map .applied) = applyResolved text (edit :: edits) := by
        simp only [applyEdits, applied_only]
        rfl
      rw [resolved] at applied
      simp only [applyResolved] at applied
      cases checked : validateLineBounds (cloneAppliedEdits (edit :: edits)) (splitLines text) with
      | error message =>
        rw [checked] at applied
        contradiction
      | ok done =>
        rw [checked] at applied
        cases applied
        exact ⟨bounds_checked checked,rfl⟩
  obtain ⟨bounds,final⟩ := both
  have inside : repaired ⊆ targetEdits := repair_subset targetEdits fileLines
  have repairedBounds := bounds_of_subset inside bounds
  refine ⟨taken,?_,?_⟩
  · rw [final, placed_is_text repairedBounds]
  · refine forall_congr' fun g => forall_congr' fun mem => ?_
    obtain ⟨low,high,some',lines⟩ := group_in_bounds bounds mem
    rw [justified_iff repairedBounds (choice_fits g fileLines) low some' high fun n first last =>
      own_deletes mem low lines first last]
    exact group_undisturbed_same (mem_repaired (cloned_nodup edits) fileLines) fileLines g _

def echoPatch : JsString := js "replace 2..2:\n+a\n+X\n+c"
def echoEdits : List AppliedEdit :=
  [.insert ⟨.beforeAnchor ⟨2⟩,js "a",1,0,.replacement⟩, .insert ⟨.beforeAnchor ⟨2⟩,js "X",1,1,.replacement⟩,
    .insert ⟨.beforeAnchor ⟨2⟩,js "c",1,2,.replacement⟩, .delete ⟨⟨2⟩,1,3⟩]

def echoGroup (edits : List AppliedEdit) : ReplacementGroup :=
  ⟨[⟨.beforeAnchor ⟨2⟩,js "a",1,0,.replacement⟩, ⟨.beforeAnchor ⟨2⟩,js "X",1,1,.replacement⟩,
    ⟨.beforeAnchor ⟨2⟩,js "c",1,2,.replacement⟩],[⟨⟨2⟩,1,3⟩],2,edits⟩

theorem repair_justified_iff_undisturbed_echo :
    parsePatch echoPatch = .ok ⟨echoEdits.map .applied,[]⟩ ∧ replacementGroups echoEdits = [echoGroup []] ∧
      (chooseRepair (echoGroup []) [js "a", js "b", js "c"]).leading = 1 ∧
      GroupUndisturbed (remainingEdits (cloneAppliedEdits echoEdits) (splitLines (js "a\nb\nc"))) (splitLines (js "a\nb\nc"))
        (echoGroup []) (chooseRepair (echoGroup []) (splitLines (js "a\nb\nc"))) := by
  have applied : ∃ result, applyEdits (js "a\nb\nc") (echoEdits.map .applied) = .ok result := ⟨_,rfl⟩
  obtain ⟨result,applied⟩ := applied
  have groups : replacementGroups (cloneAppliedEdits echoEdits) = [echoGroup []] := by decide
  refine ⟨by decide,by decide,by decide,?_⟩
  refine (repair_justified_iff_undisturbed applied).2.2.mp ?_ (echoGroup []) (by rw [groups]; exact List.mem_singleton_self _)
  intro g mem
  rw [groups] at mem
  obtain rfl := List.mem_singleton.mp mem
  exact ⟨by decide,by decide,by decide,by decide⟩

def echoDeletePatch : JsString := js "replace 2..2:\n+a\n+X\n+c\ndelete 1"
def echoDeleteEdits : List AppliedEdit := echoEdits ++ [.delete ⟨⟨1⟩,5,4⟩]

/-- The row restating line 1 is dropped although the patch deletes line 1. -/
theorem restated_line_is_lost :
    parsePatch echoDeletePatch = .ok ⟨echoDeleteEdits.map .applied,[]⟩ ∧
      (∃ first warnings, applyEdits (js "a\nb\nc") (echoDeleteEdits.map .applied) = .ok ⟨js "X\nc",first,warnings⟩) ∧
      ∃ g ∈ replacementGroups (cloneAppliedEdits echoDeleteEdits),
        js "a" ∈ g.payload.take (chooseRepair g (splitLines (js "a\nb\nc"))).leading ∧
          js "a" ∉ splitLines (js "X\nc") := by
  refine ⟨by decide,⟨_,_,rfl⟩,echoGroup [.delete ⟨⟨1⟩,5,4⟩],by decide,by decide,by decide⟩

end Hashline
