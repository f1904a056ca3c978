import OpenAgents.Edit.Patch

/- The exact pass comes first: lines or a text that stand in the file verbatim are found where they stand. -/
namespace Edit
open JsText Hashline

theorem zip_equal {rows pattern : List JsString} (enough : pattern.length ≤ rows.length) :
    ((rows.zip pattern).all fun (line, expected) => line == expected) = true ↔ pattern <+: rows := by
  induction pattern generalizing rows with
  | nil => simp
  | cons expected pattern ih =>
    cases rows with
    | nil => simp at enough
    | cons line rows =>
      have rest : pattern.length ≤ rows.length := by simpa using enough
      rw [List.zip_cons_cons, List.all_cons, Bool.and_eq_true, ih rest, List.cons_prefix_cons]
      simp only [beq_iff_eq]
      exact and_congr_left fun _ => eq_comm

/-- A pattern stands at an index of the lines. -/
def StandsAt (lines pattern : List JsString) (i : Nat) : Prop := pattern <+: lines.drop i

theorem matchesAt_iff {lines pattern : List JsString} {i : Nat} (enough : i + pattern.length ≤ lines.length) :
    matchesAt lines pattern i (fun a b => a == b) = true ↔ StandsAt lines pattern i :=
  zip_equal (by rw [List.length_drop]; omega)

theorem StandsAt.fits {lines pattern : List JsString} {i : Nat} (stands : StandsAt lines pattern i)
    (nonempty : pattern ≠ []) : i + pattern.length ≤ lines.length := by
  have length := stands.length_le
  have positive : 0 < pattern.length := List.length_pos_iff.mpr nonempty
  rw [List.length_drop] at length
  omega

section
variable {Score : Type} (sc : Scoring Score)

theorem exact_pass {lines pattern : List JsString} {start i : Nat} (allowFuzzy : Bool) (nonempty : pattern ≠ [])
    (stands : StandsAt lines pattern i) (reached : start ≤ i)
    (first : ∀ j, start ≤ j → j < i → ¬ StandsAt lines pattern j) :
    runExactPasses sc lines pattern allowFuzzy start (lines.length - pattern.length + 1) =
      some ⟨some i,sc.const 1000,none,[],some .exact⟩ := by
  have fits := stands.fits nonempty
  have hit : (collectIndexedMatches start (lines.length - pattern.length + 1) fun j =>
      matchesAt lines pattern j fun a b => a == b).firstMatch = some i := by
    rw [collectIndexedMatches, List.head?_filter, List.find?_range'_eq_some]
    refine ⟨(matchesAt_iff fits).mpr stands,by simp only [List.mem_range'_1]; omega,?_⟩
    intro j fromStart before
    have misses : ¬ matchesAt lines pattern j (fun a b => a == b) = true := by
      rw [matchesAt_iff (by omega)]
      exact first j fromStart before
    simpa using misses
  rw [runExactPasses]
  simp only [toSingleMatchResult, hit, Option.map_some, Option.some_or]

/-- The first position from `start` on at which the pattern stands. -/
theorem seek_exact {lines pattern : List JsString} {start i : Nat} (allowFuzzy : Bool) (nonempty : pattern ≠ [])
    (stands : StandsAt lines pattern i) (reached : start ≤ i)
    (first : ∀ j, start ≤ j → j < i → ¬ StandsAt lines pattern j) :
    seekSequence sc lines pattern start false allowFuzzy = ⟨some i,sc.const 1000,none,[],some .exact⟩ := by
  have fits := stands.fits nonempty
  have notShort : ¬ lines.length < pattern.length := by omega
  rw [seekSequence, if_neg (by simpa using nonempty), if_neg notShort]
  simp only [Bool.false_eq_true, if_false, exact_pass sc allowFuzzy nonempty stands reached first, Option.some_or]

theorem findMatch_exact {content target : JsString} {offset : Nat} (allowFuzzy : Bool) (threshold : Score)
    (nonempty : target ≠ []) (first : indexOf target content = some offset)
    (once : countOccurrences content target ≤ 1) :
    findMatch sc content target allowFuzzy threshold =
      ⟨some ⟨target,offset,lineNumberAt content offset,sc.const 1000⟩,none,none,[],none,false⟩ := by
  have single : ¬ 1 < countOccurrences content target := by omega
  rw [findMatch, if_neg (by simpa using nonempty)]
  simp only [findExactMatchOutcome, first, if_neg single]

end

end Edit

/- What a text search finds: the one occurrence of the target, or a window of whole lines that
   scores high enough. -/
namespace Edit
open JsText Hashline TextLines

theorem indexOf_begins {token : JsString} {content : JsString} {i : Nat} (found : indexOf token content = some i) :
    token <+: content.drop i ∧ i ≤ content.length := by
  induction content generalizing i with
  | nil =>
    rw [indexOf] at found
    split at found
    · rename_i empty
      cases found
      rw [List.isEmpty_iff.mp empty]
      exact ⟨List.nil_prefix,Nat.le_refl 0⟩
    · contradiction
  | cons c rest ih =>
    rw [indexOf] at found
    split at found
    · rename_i begins
      cases found
      exact ⟨List.isPrefixOf_iff_prefix.mp begins,Nat.zero_le _⟩
    · obtain ⟨j,later,next⟩ := Option.map_eq_some_iff.mp found
      obtain ⟨stands,inside⟩ := ih later
      rw [← next]
      exact ⟨stands,Nat.succ_le_succ inside⟩

/- The lines of a window. -/
def windowLines (lines : List JsString) (count start : Nat) : List JsString := (lines.drop start).take count

section
variable {Score : Type} (sc : Scoring Score)

def windowScore (contentLines targetLines : List JsString) (includeDepth : Bool) (start : Nat) : Score :=
  sc.average (((normalizeLines targetLines includeDepth).zip
    (normalizeLines (windowLines contentLines targetLines.length start) includeDepth)).map fun (target, window) =>
      sc.similarity target window)

/-- A match is a window of lines, with its score. -/
def IsWindow (contentLines targetLines : List JsString) (offsets : List Nat) (includeDepth : Bool) (found : FuzzyMatch Score) :
    Prop :=
  ∃ start, start + targetLines.length ≤ contentLines.length ∧
    found = ⟨joinLines (windowLines contentLines targetLines.length start),offsets.getD start 0,start + 1,
      windowScore sc contentLines targetLines includeDepth start⟩

variable {threshold : Score} {best : FuzzyMatch Score}

theorem best_window {contentLines targetLines : List JsString} {offsets : List Nat} {includeDepth : Bool}
    (found : (findBestFuzzyMatchCore sc contentLines targetLines offsets threshold includeDepth).best = some best) :
    IsWindow sc contentLines targetLines offsets includeDepth best := by
  have folded : ∀ (starts : List Nat) (r : BestFuzzyMatchResult Score),
      (∀ start ∈ starts, start + targetLines.length ≤ contentLines.length) →
      (∀ b, r.best = some b → IsWindow sc contentLines targetLines offsets includeDepth b) →
      ∀ b, (starts.foldl (scoreWindow sc contentLines targetLines offsets threshold includeDepth) r).best = some b →
        IsWindow sc contentLines targetLines offsets includeDepth b := by
    intro starts
    induction starts with
    | nil => exact fun r _ holds => holds
    | cons start rest ih =>
      intro r inside holds
      apply ih _ fun other mem => inside other (List.mem_cons_of_mem start mem)
      intro b is
      rw [scoreWindow] at is
      dsimp only at is
      split at is
      · cases is
        exact ⟨start,inside start List.mem_cons_self,rfl⟩
      · split at is
        · exact holds b is
        · exact holds b is
  apply folded _ _ _ _ best found
  · intro start mem
    have below := List.mem_range.mp mem
    omega
  · intro b is
    contradiction

theorem best_fuzzy {content target : JsString} (found : (findBestFuzzyMatch sc content target threshold).best = some best) :
    ∃ includeDepth, IsWindow sc (splitLines content) (splitLines target) (computeLineOffsets 0 (splitLines content)) includeDepth best := by
  rw [findBestFuzzyMatch] at found
  dsimp only at found
  split at found
  · contradiction
  · split at found
    · rename_i none'
      rw [none'] at found
      contradiction
    · rename_i first is
      have whole := best_window sc is
      split at found
      · split at found
        · rename_i other is'
          split at found
          · rw [is'] at found
            cases found
            exact ⟨false,best_window sc is'⟩
          · rw [is] at found
            cases found
            exact ⟨true,whole⟩
        · rw [is] at found
          cases found
          exact ⟨true,whole⟩
      · rw [is] at found
        cases found
        exact ⟨true,whole⟩

/-- A text is found where it occurs, once, or as a window of lines that reaches the threshold. -/
theorem findMatch_found {content target : JsString} {allowFuzzy : Bool} {found : FuzzyMatch Score}
    (is : (findMatch sc content target allowFuzzy threshold).found = some found) : target ≠ [] ∧
    ((indexOf target content = some found.startIndex ∧ countOccurrences content target ≤ 1 ∧ found.actualText = target) ∨
      (indexOf target content = none ∧ allowFuzzy = true ∧ sc.ge found.confidence threshold = true ∧
        (findBestFuzzyMatch sc content target threshold).best = some found)) := by
  rw [findMatch] at is
  split at is
  · contradiction
  · rename_i some'
    refine ⟨by simpa using some',?_⟩
    cases exact' : indexOf target content with
    | some i =>
      by_cases many : 1 < countOccurrences content target
      · simp only [findExactMatchOutcome, exact', if_pos many] at is
        contradiction
      · simp only [findExactMatchOutcome, exact', if_neg many] at is
        cases is
        exact .inl ⟨rfl,by omega,rfl⟩
    | none =>
      simp only [findExactMatchOutcome, exact'] at is
      split at is
      · contradiction
      · rename_i best hasBest
        split at is
        · rename_i accepted
          cases is
          simp only [Bool.and_eq_true, decide_eq_true_eq] at accepted
          exact .inr ⟨rfl,accepted.1.1,accepted.1.2,hasBest⟩
        · split at is
          · rename_i accepted
            cases is
            simp only [Bool.and_eq_true, decide_eq_true_eq] at accepted
            exact .inr ⟨rfl,accepted.1.1.1.1,accepted.1.1.1.2,hasBest⟩
          · contradiction

end

theorem offset_terminate (lines : List JsString) (offset : Nat) {start : Nat} (inside : start < lines.length) :
    (computeLineOffsets offset lines).getD start 0 = offset + (terminate (lines.take start)).length := by
  induction lines generalizing offset start with
  | nil => exact absurd inside (Nat.not_lt_zero start)
  | cons line rest ih =>
    cases start with
    | zero => rfl
    | succ start =>
      have later := ih (offset + line.length + 1) (Nat.lt_of_succ_lt_succ inside)
      rw [List.getD_eq_getElem?_getD] at later
      rw [computeLineOffsets, List.getD_eq_getElem?_getD, List.getElem?_cons_succ, later, List.take_succ_cons, terminate, terminate,
        List.flatMap_cons, List.length_append, List.length_append, List.length_singleton]
      omega

theorem window_split (lines : List JsString) (count start : Nat) :
    lines = lines.take start ++ windowLines lines count start ++ lines.drop (start + count) := by
  rw [windowLines, List.append_assoc, ← List.drop_drop, List.take_append_drop, List.take_append_drop]

/-- A window of lines stands in the text behind the lines before it. -/
theorem window_stands {content : JsString} {count start : Nat} (some' : 0 < count) (inside : start + count ≤ (splitLines content).length) :
    content = terminate ((splitLines content).take start) ++ joinLines (windowLines (splitLines content) count start) ++
      precede ((splitLines content).drop (start + count)) := by
  have nonempty : windowLines (splitLines content) count start ≠ [] := by
    apply List.ne_nil_of_length_pos
    rw [windowLines, List.length_take, List.length_drop]
    omega
  rw [← join_block _ nonempty, ← window_split, join_split]

theorem lineNumberAt_count (content : JsString) (idx : Nat) : lineNumberAt content idx = (content.take idx).count lineFeed + 1 :=
  splitLines_length _

end Edit
