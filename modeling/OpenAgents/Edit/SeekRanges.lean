import OpenAgents.Edit.ExactPatch

/- Where a sequence of lines is found: first where it stands exactly, and otherwise inside the file,
   unless a line of white space is looked for behind the last line. -/
namespace Edit
open JsText Hashline TextLines

section
variable {Score : Type} (sc : Scoring Score)

/-- Whatever else would match: the first place from `start` on where the pattern stands as it is. -/
theorem exact_match_wins {lines pattern : List JsString} {start : Nat} (allowFuzzy : Bool)
    (occurs : ∃ i, start ≤ i ∧ StandsAt lines pattern i) :
    ∃ first, start ≤ first ∧ StandsAt lines pattern first ∧ (∀ i, start ≤ i → i < first → ¬ StandsAt lines pattern i) ∧
      seekSequence sc lines pattern start false allowFuzzy = ⟨some first,sc.const 1000,none,[],some .exact⟩ := by
  classical
  by_cases empty : pattern = []
  · refine ⟨start,Nat.le_refl start,?_,fun i low high => absurd low (by omega),?_⟩
    · rw [empty]
      exact List.nil_prefix
    · rw [seekSequence, if_pos (by rw [empty]; rfl)]
  · obtain ⟨reached,stands⟩ := Nat.find_spec occurs
    have first : ∀ i, start ≤ i → i < Nat.find occurs → ¬ StandsAt lines pattern i :=
      fun i low high here => Nat.find_min occurs high ⟨low,here⟩
    exact ⟨Nat.find occurs,reached,stands,first,seek_exact sc allowFuzzy empty stands reached first⟩

end

theorem exact_match_wins_later : ∃ first, 1 ≤ first ∧ StandsAt [js "a", js " a", js "a"] [js "a"] first ∧
    (∀ i, 1 ≤ i → i < first → ¬ StandsAt [js "a", js " a", js "a"] [js "a"] i) ∧
    seekSequence wholeScores [js "a", js " a", js "a"] [js "a"] 1 false true = ⟨some first,wholeScores.const 1000,none,[],some .exact⟩ :=
  exact_match_wins wholeScores true ⟨2,by decide,List.prefix_refl _⟩

/- A pattern of lines fits at an index of the file. -/
def Fits (lines pattern : List JsString) (i : Nat) : Prop := i + pattern.length ≤ lines.length

/-- Everything a search reports lies inside the file. -/
structure FoundInside {Score : Type} (lines pattern : List JsString) (result : SearchResult Score) : Prop where
  index : ∀ i, result.index = some i → Fits lines pattern i
  indices : ∀ i ∈ result.matchIndices, Fits lines pattern i

theorem found_nowhere {Score : Type} (lines pattern : List JsString) (confidence : Score) (count : Option Nat) :
    FoundInside lines pattern ⟨none,confidence,count,[],none⟩ :=
  ⟨fun _ none' => (nomatch none'),fun _ none' => absurd none' List.not_mem_nil⟩

/- One line, not empty, of white space only. -/
def oneBlank : List JsString → Bool
  | [line] => !line.isEmpty && isBlankLine line
  | _ => false

/-- Where scores tell a line of white space from any other: compared with nothing but the depth mark,
    a text behind that mark is below nine tenths. -/
def Scoring.TellsBlank {Score : Type} (sc : Scoring Score) : Prop :=
  ∀ mark ∈ [js "0|", js "|"], ∀ text ≠ [], sc.ge (sc.average [sc.similarity (mark ++ text) mark]) (sc.const 920) = false

section texts

theorem collapse_visible {s : JsString} (some' : s ≠ []) : collapseBlanks false s ≠ [] := by
  cases s with
  | nil => exact absurd rfl some'
  | cons c rest =>
    rw [collapseBlanks]
    split <;> simp

theorem normal_visible {line : JsString} (visible : isBlankLine line = false) : normalizeForFuzzy (JsText.trim line) ≠ [] := by
  apply collapse_visible
  rw [trim_trim]
  intro none'
  rw [List.map_eq_nil_iff] at none'
  rw [isBlankLine, none'] at visible
  exact absurd visible (by decide)

theorem normalize_line (line : JsString) (includeDepth : Bool) : normalizeLines [line] includeDepth =
    [(if includeDepth then js "0|" else js "|") ++ if isBlankLine line then [] else normalizeForFuzzy (JsText.trim line)] := by
  have flat : computeRelativeIndentDepths [line] = [0] := by
    by_cases blank : isBlankLine line = true
    · simp [computeRelativeIndentDepths, blank]
    · have visible : isNonEmptyLine line = true := by
        rw [isNonEmptyLine, Bool.eq_false_iff.mpr blank]
        rfl
      simp [computeRelativeIndentDepths, visible]
  cases includeDepth <;> simp [normalizeLines, flat] <;> rfl

theorem count_join_lines (lines : List JsString) : lines.length ≤ (joinLines lines).count lineFeed + 1 := by
  cases lines with
  | nil => exact Nat.zero_le _
  | cons line rest =>
    rw [join_cons, List.count_append, List.length_cons]
    have each : rest.length ≤ (precede rest).count lineFeed := by
      induction rest with
      | nil => exact Nat.zero_le _
      | cons next rest ih =>
        have head : precede (next :: rest) = lineFeed :: next ++ precede rest := rfl
        rw [head, List.count_append, List.count_cons_self, List.length_cons]
        omega
    omega

end texts

section seeking
variable {Score : Type} {sc : Scoring Score} {lines pattern : List JsString}

variable {predicate : Nat → Bool} {confidence : Score} {strategy : Strategy}

theorem collected_inside {start i : Nat} (short : pattern.length ≤ lines.length)
    (mem : i ∈ (List.range' start (lines.length - pattern.length + 1 - start)).filter predicate) : Fits lines pattern i := by
  have range := List.mem_range'_1.mp (List.mem_of_mem_filter mem)
  rw [Fits]
  omega

theorem single_inside {start : Nat} {result : SearchResult Score} (short : pattern.length ≤ lines.length)
    (is : toSingleMatchResult (collectIndexedMatches start (lines.length - pattern.length + 1) predicate) confidence strategy =
      some result) : FoundInside lines pattern result := by
  obtain ⟨i,first,made⟩ := Option.map_eq_some_iff.mp is
  rw [← made]
  refine ⟨?_,fun _ none' => absurd none' List.not_mem_nil⟩
  intro j same
  cases same
  exact collected_inside short (List.mem_of_head? first)

theorem ambiguous_inside {start : Nat} {result : SearchResult Score} (short : pattern.length ≤ lines.length)
    (is : toAmbiguousMatchResult (collectIndexedMatches start (lines.length - pattern.length + 1) predicate) confidence strategy =
      some result) : FoundInside lines pattern result := by
  obtain ⟨i,first,made⟩ := Option.map_eq_some_iff.mp is
  rw [← made]
  refine ⟨?_,fun j mem => collected_inside short (List.mem_of_mem_take mem)⟩
  intro j same
  cases same
  exact collected_inside short (List.mem_of_head? first)

theorem passes_inside {allowFuzzy : Bool} {start : Nat} {result : SearchResult Score} (short : pattern.length ≤ lines.length)
    (is : runExactPasses sc lines pattern allowFuzzy start (lines.length - pattern.length + 1) = some result) :
    FoundInside lines pattern result := by
  rw [runExactPasses] at is
  simp only [Option.or_eq_some_iff] at is
  rcases is with is | ⟨-,is | ⟨-,is | ⟨-,is | ⟨-,is | ⟨-,is⟩⟩⟩⟩⟩
  · exact single_inside short is
  · exact single_inside short is
  · exact single_inside short is
  · exact single_inside short is
  · exact single_inside short is
  · split at is
    · simp only [Option.or_eq_some_iff] at is
      rcases is with is | ⟨-,is⟩
      · exact ambiguous_inside short is
      · exact ambiguous_inside short is
    · contradiction

/-- The scan of similar lines reports only indices it went through. -/
theorem scan_range (indices : List Nat) (scan : FuzzyScan Score) :
    let last := indices.foldl (scoreAt sc lines pattern) scan
    (∀ i, last.bestIndex = some i → i ∈ indices ∨ scan.bestIndex = some i) ∧ ∀ i ∈ last.hits, i ∈ indices ∨ i ∈ scan.hits := by
  induction indices generalizing scan with
  | nil => exact ⟨fun i is => .inr is,fun i is => .inr is⟩
  | cons next rest ih =>
    obtain ⟨best,hits⟩ := ih (scoreAt sc lines pattern scan next)
    have step : (∀ i, (scoreAt sc lines pattern scan next).bestIndex = some i → i = next ∨ scan.bestIndex = some i) ∧
        ∀ i ∈ (scoreAt sc lines pattern scan next).hits, i = next ∨ i ∈ scan.hits := by
      have counted : ∀ i ∈ (if sc.ge (fuzzyScoreAt sc lines pattern next) (sc.const 920) then scan.hits ++ [next] else scan.hits),
          i = next ∨ i ∈ scan.hits := by
        intro i mem
        split at mem
        · rcases List.mem_append.mp mem with early | last
          · exact .inr early
          · exact .inl (List.mem_singleton.mp last)
        · exact .inr mem
      rw [scoreAt]
      split
      · exact ⟨fun i is => .inl (Option.some.inj is).symm,counted⟩
      · split
        · exact ⟨fun i is => .inr is,counted⟩
        · exact ⟨fun i is => .inr is,counted⟩
    constructor
    · intro i is
      rcases best i is with later | here
      · exact .inl (List.mem_cons_of_mem next later)
      · exact (step.1 i here).imp_left fun (same : i = next) => List.mem_cons.mpr (.inl same)
    · intro i is
      rcases hits i is with later | here
      · exact .inl (List.mem_cons_of_mem next later)
      · exact (step.2 i here).imp_left fun (same : i = next) => List.mem_cons.mpr (.inl same)

/- Behind the last line there is a text of one empty line, which only a line of white space matches. -/
theorem found_behind {target : JsString} {found : FuzzyMatch Score} (tells : sc.TellsBlank)
    (is : (findMatch sc [] target true (sc.const 920)).found = some found) : oneBlank [target] = true ∧ lineFeed ∉ target := by
  obtain ⟨some',hit | ⟨-,-,accepted,best⟩⟩ := findMatch_found sc is
  · have begins := (indexOf_begins hit.1).1
    rw [List.drop_nil, List.prefix_nil] at begins
    exact absurd begins some'
  · obtain ⟨includeDepth,start,inside,made⟩ := best_fuzzy sc best
    have one : splitLines ([] : JsString) = [[]] := List.splitOn_nil lineFeed
    have count := splitLines_length target
    rw [one, List.length_singleton] at inside
    have none' : target.count lineFeed = 0 := by omega
    have clean : lineFeed ∉ target := List.count_eq_zero.mp none'
    have line : splitLines target = [target] := by
      have whole := text_whole_last target
      obtain ⟨only,is⟩ := List.length_eq_one_iff.mp (by omega : (splitLines target).length = 1)
      have same := join_split target
      rw [is, joinLines, List.intercalate_singleton] at same
      rw [is, same]
    refine ⟨?_,clean⟩
    cases blank : isBlankLine target with
    | true =>
      rw [oneBlank, blank, Bool.and_true, Bool.not_eq_true']
      simpa using some'
    | false =>
      have first : start = 0 := by omega
      have scored : found.confidence = sc.average [sc.similarity
          ((if includeDepth then js "0|" else js "|") ++ normalizeForFuzzy (JsText.trim target))
          (if includeDepth then js "0|" else js "|")] := by
        have window : windowLines [[]] 1 0 = [([] : JsString)] := rfl
        have empty : isBlankLine [] = true := rfl
        rw [made, line, one, first]
        simp only [windowScore, List.length_singleton, window, normalize_line, blank, empty, Bool.false_eq_true, if_false, if_true,
          List.append_nil, List.zip_cons_cons, List.zip_nil_right, List.map_cons, List.map_nil]
      have low : sc.ge found.confidence (sc.const 920) = false := by
        rw [scored]
        cases includeDepth with
        | true => exact tells (js "0|") (by simp) _ (normal_visible blank)
        | false => exact tells (js "|") (by simp) _ (normal_visible blank)
      rw [low] at accepted
      contradiction

theorem character_inside {start : Nat} {bestScore : Score} (clean : ∀ line ∈ lines, lineFeed ∉ line)
    (place : start < lines.length ∨ (sc.TellsBlank ∧ oneBlank pattern = false)) :
    FoundInside lines pattern (characterSearch sc lines pattern start bestScore) := by
  rw [characterSearch]
  cases outcome : (findMatch sc (joinLines (lines.drop start)) (joinLines pattern) true (sc.const 920)).found with
  | none => exact found_nowhere lines pattern bestScore _
  | some found =>
    refine ⟨?_,fun _ none' => absurd none' List.not_mem_nil⟩
    intro i same
    rw [Option.some.injEq] at same
    have rows := count_join_lines pattern
    by_cases before : start < lines.length
    · have some' : lines.drop start ≠ [] := by
        rw [Ne, List.drop_eq_nil_iff]
        omega
      have split : splitLines (joinLines (lines.drop start)) = lines.drop start :=
        split_join _ (fun line mem => clean line (List.mem_of_mem_drop mem)) some'
      have feeds := splitLines_length (joinLines (lines.drop start))
      rw [split, List.length_drop] at feeds
      rw [lineNumberAt_count] at same
      rw [Fits]
      obtain ⟨-,hit | ⟨-,-,-,best⟩⟩ := findMatch_found sc outcome
      · obtain ⟨⟨after,begins⟩,-⟩ := indexOf_begins hit.1
        have parts := List.take_append_drop found.startIndex (joinLines (lines.drop start))
        rw [← begins] at parts
        have total := congrArg (List.count lineFeed) parts
        rw [List.count_append, List.count_append] at total
        omega
      · obtain ⟨includeDepth,row,inside,made⟩ := best_fuzzy sc best
        have targets := splitLines_length (joinLines pattern)
        have offset : found.startIndex = (terminate ((lines.drop start).take row)).length := by
          rw [made]
          have at' := @offset_terminate (splitLines (joinLines (lines.drop start))) 0 row (by omega)
          rw [split, Nat.zero_add] at at'
          rw [split]
          exact at'
        have front : (joinLines (lines.drop start)).take found.startIndex = terminate ((lines.drop start).take row) := by
          have stands := @window_stands (joinLines (lines.drop start)) (splitLines (joinLines pattern)).length row (by omega) inside
          rw [split] at stands
          rw [offset]
          conv => lhs; rw [stands]
          rw [List.append_assoc, List.take_left]
        have feedsBefore : (terminate ((lines.drop start).take row)).count lineFeed = row := by
          rw [count_terminate fun line mem => clean line (List.mem_of_mem_drop (List.mem_of_mem_take mem)), List.length_take,
            List.length_drop]
          rw [split, List.length_drop] at inside
          omega
        rw [split, List.length_drop] at inside
        rw [front, feedsBefore] at same
        omega
    · obtain ⟨tells,other⟩ := place.resolve_left before
      have nothing : joinLines (lines.drop start) = [] := by
        rw [List.drop_eq_nil_of_le (by omega)]
        rfl
      rw [nothing] at outcome
      obtain ⟨blank,noFeed⟩ := found_behind tells outcome
      have single : (joinLines pattern).count lineFeed = 0 := List.count_eq_zero.mpr noFeed
      have some' := (findMatch_found sc outcome).1
      match pattern, rows, other with
      | [], _, _ => exact absurd rfl some'
      | [line], _, other =>
        rw [joinLines, List.intercalate_singleton] at blank
        rw [blank] at other
        contradiction
      | _ :: _ :: _, rows, _ =>
        rw [List.length_cons, List.length_cons] at rows
        omega

/-- A pattern is found inside the file, if the search starts inside it or is not for a line of white space. -/
theorem seek_inside {start : Nat} {eof allowFuzzy : Bool} (clean : ∀ line ∈ lines, lineFeed ∉ line)
    (place : start < lines.length ∨ (sc.TellsBlank ∧ oneBlank pattern = false))
    (reach : pattern = [] → start ≤ lines.length) :
    FoundInside lines pattern (seekSequence sc lines pattern start eof allowFuzzy) := by
  rw [seekSequence]
  split
  · rename_i empty
    refine ⟨?_,fun _ none' => absurd none' List.not_mem_nil⟩
    intro i same
    cases same
    rw [Fits, List.isEmpty_iff.mp empty]
    exact reach (List.isEmpty_iff.mp empty)
  · rename_i some'
    split
    · exact found_nowhere lines pattern _ _
    · rename_i enough
      have short : pattern.length ≤ lines.length := Nat.le_of_not_lt enough
      dsimp only
      have last : eof = true → (if eof = true then lines.length - pattern.length else start) = lines.length - pattern.length :=
        fun is => if_pos is
      generalize (if eof = true then lines.length - pattern.length else start) = searchStart at last ⊢
      have whole : (eof && decide (start < searchStart)) = true → eof = true := fun both => (Bool.and_eq_true_iff.mp both).1
      generalize (eof && decide (start < searchStart)) = early at whole ⊢
      split
      · rename_i result is
        rcases Option.or_eq_some_iff.mp is with primary | ⟨-,second⟩
        · exact passes_inside short primary
        · cases early with
          | true => exact passes_inside short second
          | false => contradiction
      · split
        · exact found_nowhere lines pattern _ _
        · have range : ∀ i ∈ List.range' searchStart (lines.length - pattern.length + 1 - searchStart) ++
              (if early = true then List.range' start (searchStart - start) else []), Fits lines pattern i := by
            intro i mem
            rw [Fits]
            rcases List.mem_append.mp mem with later | earlier
            · have bounds := List.mem_range'_1.mp later
              omega
            · cases early with
              | true =>
                have bounds := List.mem_range'_1.mp earlier
                have same := last (whole rfl)
                omega
              | false => exact absurd earlier List.not_mem_nil
          generalize List.range' searchStart (lines.length - pattern.length + 1 - searchStart) ++
            (if early = true then List.range' start (searchStart - start) else []) = indices at range ⊢
          obtain ⟨best,hits⟩ := @scan_range Score sc lines pattern indices ⟨sc.const 0,sc.const 0,none,[]⟩
          generalize indices.foldl (scoreAt sc lines pattern) ⟨sc.const 0,sc.const 0,none,[]⟩ = scan at best hits ⊢
          have inside : (∀ i, scan.bestIndex = some i → Fits lines pattern i) ∧
              ∀ i ∈ scan.hits.take maxRecordedMatches, Fits lines pattern i :=
            ⟨fun i is => range i ((best i is).resolve_right (by simp)),
              fun i mem => range i ((hits i (List.mem_of_mem_take mem)).resolve_right (by simp))⟩
          split
          · split
            · exact ⟨inside.1,inside.2⟩
            · exact ⟨inside.1,inside.2⟩
          · exact character_inside clean place

end seeking

end Edit
