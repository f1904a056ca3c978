import OpenAgents.Edit.SeekRanges
import OpenAgents.Lib.FallibleState
import OpenAgents.Lib.FlatEdits

/- The replacements of a patch: ranges of the file that keep apart, so that making them one after
   the other is making them all at once. -/
namespace Edit
open JsText Hashline TextLines FlatEdits

section searches
variable {Score : Type} (sc : Scoring Score) (lines : List JsString) (allowFuzzy : Bool)

/-- A line of white space is looked for from inside the file, also where the hint is tried: when
    nothing or several places were found without it. -/
def SearchInside (pattern : List JsString) (currentIndex : Nat) (hintIndex : Option Nat) (eof : Bool) : Prop :=
  let primaryResult := seekSequence sc lines pattern currentIndex eof allowFuzzy
  oneBlank pattern = true → currentIndex < lines.length ∧
    (primaryResult.index = none ∨ primaryResult.many = true → ∀ hint ∈ hintIndex, hint < lines.length)

/- The searches instead of a context line that is not found or stands in several places. -/
def ContextInside (hunk : DiffHunk) (lineIndex : Nat) : Prop :=
  ∀ changeContext ∈ hunk.changeContext,
    let result := findHierarchicalContext sc lines changeContext lineIndex hunk.oldStartLine allowFuzzy
    let hint := (getHunkHintIndex hunk lineIndex).or hunk.oldStartLine
    let fallbackResult := findSequenceWithHint sc lines hunk.oldLines lineIndex hint false allowFuzzy
    result.index = none ∨ result.many = true → hunk.oldLines ≠ [] →
      SearchInside sc lines allowFuzzy hunk.oldLines lineIndex hint false ∧
        (fallbackResult.index = none ∨ fallbackResult.many = true →
          ∀ variant ∈ hunkVariants hunk, SearchInside sc lines allowFuzzy variant.oldLines lineIndex hint false)

/- The searches for the old lines: whole, without an empty last line, and in the smaller variants. -/
def LinesInside (hunk : DiffHunk) (lineIndex : Nat) : Prop :=
  let hint := getHunkHintIndex hunk lineIndex
  let whole := findSequenceWithHint sc lines hunk.oldLines lineIndex hint hunk.isEndOfFile allowFuzzy
  let trimmed := (searchTrimmed sc lines hunk lineIndex allowFuzzy).searchResult
  SearchInside sc lines allowFuzzy hunk.oldLines lineIndex hint hunk.isEndOfFile ∧
    (whole.index = none → SearchInside sc lines allowFuzzy hunk.oldLines.dropLast lineIndex hint hunk.isEndOfFile) ∧
    (trimmed.index = none ∨ trimmed.many = true →
      ∀ variant ∈ hunkVariants hunk, SearchInside sc lines allowFuzzy variant.oldLines lineIndex hint hunk.isEndOfFile)

/-- A hunk looks for no line of white space behind the last line of the file. -/
def HunkInside (path : JsString) (hunk : DiffHunk) (lineIndex : Nat) : Prop :=
  ContextInside sc lines allowFuzzy hunk lineIndex ∧
    ∀ contextIndex start, locateContext sc lines path hunk lineIndex allowFuzzy = .ok (contextIndex, start) → hunk.oldLines ≠ [] →
      LinesInside sc lines allowFuzzy hunk start

end searches

section contexts
variable {Score : Type} {sc : Scoring Score} {lines : List JsString}

variable {startFrom i : Nat} {allowFuzzy : Bool}

theorem context_collected {predicate : Nat → Bool} {confidence : Score} {strategy : Strategy} {result : SearchResult Score}
    (is : toAmbiguousMatchResult (collectIndexedMatches startFrom lines.length predicate) confidence strategy = some result)
    (found : result.index = some i) : i < lines.length := by
  obtain ⟨j,first,made⟩ := Option.map_eq_some_iff.mp is
  rw [← made] at found
  cases found
  have range := List.mem_range'_1.mp (List.mem_of_mem_filter (List.mem_of_head? first))
  omega

theorem substring_inside {contextNorm : JsString} {result : SearchResult Score}
    (is : substringContext sc lines contextNorm startFrom = some result) (found : result.index = some i) : i < lines.length := by
  have range : ∀ q : Nat → Bool, ∀ j ∈ (List.range' startFrom (lines.length - startFrom)).filter q, j < lines.length := by
    intro q j mem
    have bounds := List.mem_range'_1.mp (List.mem_of_mem_filter mem)
    omega
  rw [substringContext] at is
  dsimp only at is
  split at is
  · contradiction
  · split at is
    · cases is
      exact range _ i (List.mem_of_head? found)
    · split at is
      · cases is
        exact range _ i (List.mem_of_mem_filter (List.mem_of_head? found))
      · split at is
        · cases is
          exact range _ i (List.mem_of_head? found)
        · contradiction

theorem context_scan (contextNorm : JsString) (indices : List Nat) (scan : FuzzyScan Score) (i : Nat)
    (best : (indices.foldl (scoreContext sc lines contextNorm) scan).bestIndex = some i) : i ∈ indices ∨ scan.bestIndex = some i := by
  induction indices generalizing scan with
  | nil => exact .inr best
  | cons next rest ih =>
    rcases ih _ best with later | here
    · exact .inl (List.mem_cons_of_mem next later)
    · rw [scoreContext] at here
      dsimp only at here
      split at here
      · cases here
        exact .inl List.mem_cons_self
      · exact .inr here

theorem passes_context {context : JsString} {result : SearchResult Score}
    (is : findContextPasses sc lines context startFrom allowFuzzy = .inl result) (found : result.index = some i) : i < lines.length := by
  rw [findContextPasses] at is
  dsimp only at is
  split at is
  · rename_i strict hit
    cases is
    simp only [Option.or_eq_some_iff] at hit
    rcases hit with hit | ⟨-,hit | ⟨-,hit⟩⟩
    · exact context_collected hit found
    · exact context_collected hit found
    · exact context_collected hit found
  · split at is
    · cases is
      contradiction
    · split at is
      · rename_i lenient hit
        cases is
        rcases Option.or_eq_some_iff.mp hit with leading | ⟨-,inside⟩
        · split at leading
          · contradiction
          · exact context_collected leading found
        · exact substring_inside inside found
      · split at is
        · cases is
          rcases context_scan _ _ _ i found with mem | none'
          · have bounds := List.mem_range'_1.mp mem
            omega
          · contradiction
        · contradiction

theorem without_fallback {outcome : SearchResult Score ⊕ Score} (found : (withoutFallback outcome).index = some i) :
    ∃ result, outcome = .inl result ∧ result.index = some i := by
  cases outcome with
  | inl result => exact ⟨result,rfl,found⟩
  | inr score => contradiction

theorem context_inside {context : JsString} (found : (findContextLine sc lines context startFrom allowFuzzy).index = some i) : i < lines.length := by
  rw [findContextLine] at found
  split at found
  · rename_i result is
    exact passes_context is found
  · dsimp only at found
    split at found
    · split at found
      · obtain ⟨result,is,here⟩ := without_fallback found
        exact passes_context is here
      · obtain ⟨result,is,here⟩ := without_fallback found
        exact passes_context is here
    · contradiction

theorem hinted_inside {context : JsString} {hintStart i : Nat} {result : SearchResult Score}
    (is : findHinted sc lines context hintStart allowFuzzy = some result) (found : result.index = some i) : i < lines.length := by
  rw [findHinted] at is
  split at is
  · cases is
    exact context_inside found
  · contradiction

theorem nested_inside {lineHint : Option Nat} {currentStart i : Nat} {parts : List JsString}
    (found : (findNestedContext sc lines lineHint allowFuzzy currentStart parts).index = some i) : i < lines.length := by
  induction parts generalizing currentStart with
  | nil => contradiction
  | cons part later ih =>
    unfold findNestedContext at found
    cases lineHint with
    | none =>
      dsimp only [Option.getD_none] at found
      split at found
      · contradiction
      · split at found
        · contradiction
        · split at found
          · exact context_inside found
          · exact ih found
    | some hint =>
      dsimp only at found
      have hinted : ∀ (other : SearchResult Score), other.index = none →
          ((if (later.isEmpty && decide (currentStart ≤ hint - 1)) = true then findHinted sc lines part (hint - 1) allowFuzzy
            else none).getD other).index = some i → i < lines.length := by
        intro other none' is
        split at is
        · cases hit : findHinted sc lines part (hint - 1) allowFuzzy with
          | none =>
            rw [hit, Option.getD_none, none'] at is
            contradiction
          | some result =>
            rw [hit, Option.getD_some] at is
            exact hinted_inside hit is
        · rw [Option.getD_none, none'] at is
          contradiction
      split at found
      · exact hinted _ rfl found
      · split at found
        · exact hinted _ rfl found
        · split at found
          · exact context_inside found
          · exact ih found

theorem words_inside {spaceParts : List JsString} {result : SearchResult Score}
    (is : findByWords sc lines spaceParts startFrom allowFuzzy = some result) (found : result.index = some i) : i < lines.length := by
  rw [findByWords] at is
  split at is
  · cases is
    contradiction
  · split at is
    · contradiction
    · rw [findInner] at is
      split at is
      · split at is
        · cases is
          exact context_inside found
        · cases is
          exact context_inside found
      · split at is
        · cases is
          exact context_inside found
        · contradiction

theorem hierarchical_inside {context : JsString} {lineHint : Option Nat}
    (found : (findHierarchicalContext sc lines context startFrom lineHint allowFuzzy).index = some i) : i < lines.length := by
  rw [findHierarchicalContext] at found
  split at found
  · exact nested_inside found
  · dsimp only at found
    split at found
    · rename_i result is
      split at is
      · exact words_inside is found
      · contradiction
    · split at found
      · rename_i result is
        split at is
        · contradiction
        · split at is
          · exact hinted_inside is found
          · contradiction
      · split at found
        · exact context_inside found
        · split at found
          · exact context_inside found
          · split at found
            · split at found
              · contradiction
              · cases words : findByWords sc lines (splitWords context) startFrom allowFuzzy with
                | none =>
                  rw [words] at found
                  exact context_inside found
                | some result =>
                  rw [words] at found
                  exact words_inside words found
            · exact context_inside found

end contexts

section hunks
variable {Score : Type} {sc : Scoring Score} {lines : List JsString} {allowFuzzy : Bool}

theorem not_decided {result : SearchResult Score} (open' : ¬ (result.index.isSome || result.many) = true) : result.index = none := by
  simp only [Bool.or_eq_true, not_or, Bool.not_eq_true, Option.isSome_eq_false_iff, Option.isNone_iff_eq_none] at open'
  exact open'.1

variable {currentIndex i lineIndex : Nat} {hintIndex contextIndex : Option Nat} {eof : Bool} {hunk : DiffHunk}
  {path : JsString} {located : Located Score}

theorem sequence_inside {pattern : List JsString} (clean : ∀ line ∈ lines, lineFeed ∉ line) (tells : sc.TellsBlank)
    (searched : SearchInside sc lines allowFuzzy pattern currentIndex hintIndex eof) (reach : currentIndex ≤ lines.length) :
    FoundInside lines pattern (findSequenceWithHint sc lines pattern currentIndex hintIndex eof allowFuzzy) := by
  have primary : FoundInside lines pattern (seekSequence sc lines pattern currentIndex eof allowFuzzy) := by
    apply seek_inside clean _ fun _ => reach
    cases blank : oneBlank pattern with
    | true => exact .inl (searched blank).1
    | false => exact .inr ⟨tells,rfl⟩
  have fromStart : FoundInside lines pattern (seekSequence sc lines pattern 0 eof allowFuzzy) := by
    apply seek_inside clean _ fun _ => Nat.zero_le _
    cases blank : oneBlank pattern with
    | true => exact .inl (Nat.zero_lt_of_lt (searched blank).1)
    | false => exact .inr ⟨tells,rfl⟩
  have hinted : ∀ hint ∈ hintIndex, (seekSequence sc lines pattern currentIndex eof allowFuzzy).index = none ∨
      (seekSequence sc lines pattern currentIndex eof allowFuzzy).many = true →
      FoundInside lines pattern (seekSequence sc lines pattern hint eof allowFuzzy) := by
    intro hint is open'
    apply seek_inside clean
    · cases blank : oneBlank pattern with
      | true => exact .inl ((searched blank).2 open' hint is)
      | false => exact .inr ⟨tells,rfl⟩
    · intro empty
      rw [seekSequence, if_pos (by rw [empty]; rfl)] at open'
      rcases open' with none' | many
      · contradiction
      · contradiction
  unfold findSequenceWithHint
  dsimp only
  split
  · rename_i result is
    cases hintIndex with
    | none => contradiction
    | some hint =>
      dsimp only at is
      split at is
      · contradiction
      · split at is
        · cases is
          split
          · rename_i many
            exact hinted hint rfl (.inr many)
          · split
            · exact primary
            · rename_i open'
              exact hinted hint rfl (.inl (not_decided open'))
        · contradiction
  · split
    · exact primary
    · split
      · exact fromStart
      · exact primary

theorem variant_inside {variants : List HunkVariant} {variant : HunkVariant} {result : SearchResult Score}
    (clean : ∀ line ∈ lines, lineFeed ∉ line) (tells : sc.TellsBlank)
    (searched : ∀ variant ∈ variants, SearchInside sc lines allowFuzzy variant.oldLines currentIndex hintIndex eof)
    (reach : currentIndex ≤ lines.length)
    (is : firstVariant sc lines variants currentIndex hintIndex eof allowFuzzy = some (variant, result)) :
    FoundInside lines variant.oldLines result := by
  have mem := List.mem_of_find?_eq_some is
  obtain ⟨other,here,made⟩ := List.mem_map.mp mem
  cases made
  exact sequence_inside clean tells (searched _ here) reach

theorem fallback_inside {lineHint : Option Nat} {changeContext : JsString} (clean : ∀ line ∈ lines, lineFeed ∉ line)
    (tells : sc.TellsBlank) (reach : currentIndex ≤ lines.length) (context : hunk.changeContext = some changeContext)
    (hint : lineHint = hunk.oldStartLine)
    (missed : (findHierarchicalContext sc lines changeContext currentIndex hunk.oldStartLine allowFuzzy).index = none ∨
      (findHierarchicalContext sc lines changeContext currentIndex hunk.oldStartLine allowFuzzy).many = true)
    (searched : ContextInside sc lines allowFuzzy hunk currentIndex)
    (is : attemptSequenceFallback sc lines hunk currentIndex lineHint allowFuzzy (allowsAggressive hunk) = some i) :
    i ≤ lines.length := by
  rw [attemptSequenceFallback] at is
  dsimp only at is
  rw [hint] at is
  split at is
  · contradiction
  · rename_i some'
    obtain ⟨whole,variants⟩ := searched changeContext context missed (by simpa using some')
    have found := sequence_inside clean tells whole reach
    split at is
    · rename_i index notMany here
      split at is
      · contradiction
      · cases is
        have fits := found.index _ here
        rw [Fits] at fits
        omega
    · rename_i other
      obtain ⟨⟨variant,result⟩,first,index⟩ := Option.bind_eq_some_iff.mp is
      have open' : (findSequenceWithHint sc lines hunk.oldLines currentIndex ((getHunkHintIndex hunk currentIndex).or hunk.oldStartLine)
          false allowFuzzy).index = none ∨ (findSequenceWithHint sc lines hunk.oldLines currentIndex
            ((getHunkHintIndex hunk currentIndex).or hunk.oldStartLine) false allowFuzzy).many = true := by
        rcases Option.eq_none_or_eq_some (findSequenceWithHint sc lines hunk.oldLines currentIndex
          ((getHunkHintIndex hunk currentIndex).or hunk.oldStartLine) false allowFuzzy).index with none' | ⟨j,has⟩
        · exact .inl none'
        · cases many : (findSequenceWithHint sc lines hunk.oldLines currentIndex
            ((getHunkHintIndex hunk currentIndex).or hunk.oldStartLine) false allowFuzzy).many with
          | true => exact .inr rfl
          | false => exact absurd has (other j many)
      have fits := (variant_inside clean tells (variants open') reach first).index i index
      rw [Fits] at fits
      omega

/-- The search for the old lines starts inside the file or right behind it. -/
theorem context_reach {lineIndex start : Nat} (clean : ∀ line ∈ lines, lineFeed ∉ line) (tells : sc.TellsBlank)
    (reach : lineIndex ≤ lines.length) (searched : ContextInside sc lines allowFuzzy hunk lineIndex)
    (is : locateContext sc lines path hunk lineIndex allowFuzzy = .ok (contextIndex, start)) : start ≤ lines.length := by
  rw [locateContext] at is
  split at is
  · split at is
    · cases is
      exact reach
    · split at is
      · cases is
        exact reach
      · cases is
        omega
  · rename_i changeContext context
    dsimp only at is
    split at is
    · rename_i idx notMany found
      cases is
      have inside := hierarchical_inside found
      rw [startAfterContext]
      split
      · omega
      · split <;> omega
    · rename_i other
      split at is
      · rename_i index fallback
        cases is
        refine fallback_inside clean tells reach context rfl ?_ searched fallback
        rcases Option.eq_none_or_eq_some (findHierarchicalContext sc lines changeContext lineIndex hunk.oldStartLine allowFuzzy).index
          with none' | ⟨j,has⟩
        · exact .inl none'
        · cases many : (findHierarchicalContext sc lines changeContext lineIndex hunk.oldStartLine allowFuzzy).many with
          | true => exact .inr rfl
          | false => exact absurd has (other j many)
      · split at is <;> contradiction

theorem adjacent_inside {patternLine : JsString} {contextIndex i : Nat} {second : Bool} (context : contextIndex < lines.length)
    (is : findContextRelativeMatch lines patternLine contextIndex second = some i) : i < lines.length := by
  have range : ∀ q : Nat → Bool, ∀ j ∈ (List.range' (contextIndex + 1) (lines.length - (contextIndex + 1))).filter q,
      j < lines.length := by
    intro q j mem
    have bounds := List.mem_range'_1.mp (List.mem_of_mem_filter mem)
    omega
  rw [findContextRelativeMatch] at is
  split at is
  · have mem := List.mem_range.mp (List.mem_reverse.mp (List.mem_of_find?_eq_some is))
    omega
  · rename_i only one
    cases is
    exact range _ i (by rw [one]; exact List.mem_cons_self)
  · rename_i first next rest several
    cases is
    split
    · exact range _ _ (by rw [several]; exact List.mem_cons_of_mem _ List.mem_cons_self)
    · exact range _ _ (by rw [several]; exact List.mem_cons_self)

theorem context_index {lineIndex start idx : Nat}
    (is : locateContext sc lines path hunk lineIndex allowFuzzy = .ok (some idx, start)) : idx < lines.length := by
  rw [locateContext] at is
  split at is
  · split at is
    · cases is
    · split at is
      · cases is
      · cases is
  · dsimp only at is
    split at is
    · rename_i idx' notMany found
      cases is
      exact hierarchical_inside found
    · split at is
      · simp only [Except.ok.injEq, Prod.mk.injEq] at is
        exact hierarchical_inside is.1
      · split at is <;> contradiction

/- Where a hunk was located, if anywhere, its pattern fits. -/
def LocatedInside (lines : List JsString) (located : Located Score) : Prop := FoundInside lines located.pattern located.searchResult

theorem bare_inside {line : JsString} {index : Nat} (confidence : Score) (inside : index < lines.length) :
    FoundInside lines [line] (bare index confidence) := by
  refine ⟨?_,fun _ none' => absurd none' List.not_mem_nil⟩
  intro i same
  cases same
  exact inside

theorem trimmed_inside (clean : ∀ line ∈ lines, lineFeed ∉ line) (tells : sc.TellsBlank) (reach : lineIndex ≤ lines.length)
    (searched : LinesInside sc lines allowFuzzy hunk lineIndex) :
    LocatedInside lines (searchTrimmed sc lines hunk lineIndex allowFuzzy) := by
  obtain ⟨whole,last,-⟩ := searched
  rw [searchTrimmed]
  dsimp only
  split
  · rename_i missed
    rw [Bool.and_eq_true, Option.isNone_iff_eq_none] at missed
    exact sequence_inside clean tells (last missed.1) reach
  · exact sequence_inside clean tells whole reach

theorem variants_inside (clean : ∀ line ∈ lines, lineFeed ∉ line) (tells : sc.TellsBlank) (reach : lineIndex ≤ lines.length)
    (searched : LinesInside sc lines allowFuzzy hunk lineIndex) :
    LocatedInside lines (searchVariants sc lines hunk lineIndex allowFuzzy (searchTrimmed sc lines hunk lineIndex allowFuzzy)) := by
  have trimmed := trimmed_inside clean tells reach searched
  rw [searchVariants]
  split
  · exact trimmed
  · rename_i open'
    split
    · rename_i variant result first
      apply variant_inside clean tells (searched.2.2 _) reach first
      generalize (searchTrimmed sc lines hunk lineIndex allowFuzzy).searchResult = result at open'
      cases many : result.many with
      | true => exact .inr rfl
      | false =>
        rw [many, Bool.not_false, Bool.and_true, Bool.not_eq_true, Option.isSome_eq_false_iff, Option.isNone_iff_eq_none] at open'
        exact .inl open'
    · exact trimmed

theorem beside_inside (context : ∀ idx, contextIndex = some idx → idx < lines.length) (inside : LocatedInside lines located) :
    LocatedInside lines (searchAdjacent sc lines hunk contextIndex located) := by
  unfold searchAdjacent
  split
  · rename_i idx missed
    dsimp only
    split
    · rename_i variant index found
      obtain ⟨other,-,made⟩ := List.exists_of_findSome?_eq_some found
      split at made
      · rename_i removedLine newLine one single
        obtain ⟨i,adjacent,same⟩ := Option.map_eq_some_iff.mp made
        cases same
        rw [LocatedInside]
        dsimp only
        rw [one]
        exact bare_inside _ (adjacent_inside (context idx rfl) adjacent)
      · contradiction
    · exact inside
  · exact inside

theorem repeated_inside (context : ∀ idx, contextIndex = some idx → idx < lines.length)
    (inside : LocatedInside lines located) : LocatedInside lines (searchRepeated lines hunk contextIndex located) := by
  unfold searchRepeated
  split
  · rename_i place idx line here single
    split
    · split
      · rename_i index found
        rw [LocatedInside]
        dsimp only
        rw [single]
        exact bare_inside _ (adjacent_inside (context idx rfl) found)
      · exact inside
    · exact inside
  · exact inside

theorem hint_inside (inside : LocatedInside lines located) : LocatedInside lines (chooseHinted hunk lineIndex located) := by
  rw [chooseHinted]
  dsimp only
  split
  · split
    · rename_i hinted chosen
      refine ⟨?_,inside.indices⟩
      intro i same
      cases same
      unfold chooseHintedMatch at chosen
      split at chosen
      · contradiction
      · split at chosen
        · rename_i only one
          cases chosen
          exact inside.indices _ (List.mem_of_mem_filter (by rw [one]; exact List.mem_cons_self))
        · contradiction
    · exact inside
  · exact inside

theorem located_inside (clean : ∀ line ∈ lines, lineFeed ∉ line) (tells : sc.TellsBlank) (reach : lineIndex ≤ lines.length)
    (searched : LinesInside sc lines allowFuzzy hunk lineIndex)
    (context : ∀ idx, contextIndex = some idx → idx < lines.length) :
    LocatedInside lines (locateHunk sc lines hunk contextIndex lineIndex allowFuzzy) :=
  hint_inside (repeated_inside context (beside_inside context (variants_inside clean tells reach searched)))

/- The next search starts in reach of the file and what is to be replaced lies in it. -/
structure InFile (lines : List JsString) (state : ComputeState) : Prop where
  reach : state.lineIndex ≤ lines.length
  ranges : ∀ r ∈ state.replacements, r.startIndex + r.oldLen ≤ lines.length

theorem replace_inside {state next : ComputeState} (inFile : InFile lines state) (inside : LocatedInside lines located)
    (is : replaceLocated sc lines path hunk state lineIndex allowFuzzy located = .ok next) : InFile lines next := by
  rw [replaceLocated] at is
  dsimp only at is
  split at is
  · split at is <;> contradiction
  · rename_i found here
    have fits := inside.index found here
    rw [Fits] at fits
    split at is
    · contradiction
    · split at is
      · contradiction
      · split at is
        · cases is
          exact ⟨fits,inFile.ranges⟩
        · cases is
          refine ⟨fits,?_⟩
          intro r mem
          rcases List.mem_append.mp mem with early | last
          · exact inFile.ranges r early
          · rw [List.mem_singleton.mp last]
            exact fits

theorem insertion_inside (reach : lineIndex ≤ lines.length) (is : insertionIndex lines path hunk lineIndex = .ok i) : i ≤ lines.length := by
  rw [insertionIndex] at is
  split at is
  · cases is
    exact reach
  · split at is
    · split at is
      · contradiction
      · split at is
        · contradiction
        · cases is
          omega
    · cases is
      split <;> omega

/-- One hunk. -/
theorem hunk_inside {state next : ComputeState} (clean : ∀ line ∈ lines, lineFeed ∉ line) (tells : sc.TellsBlank)
    (searched : HunkInside sc lines allowFuzzy path hunk state.lineIndex) (inFile : InFile lines state)
    (is : computeHunk sc lines path allowFuzzy state hunk = .ok next) : InFile lines next := by
  rw [computeHunk] at is
  split at is
  · contradiction
  · obtain ⟨⟨contextIndex,lineIndex⟩,located,rest⟩ := ExceptRun.bind_ok.mp is
    dsimp only at rest
    have reach := context_reach clean tells inFile.reach searched.1 located
    split at rest
    · obtain ⟨insertionIdx,inserts,made⟩ := ExceptRun.bind_ok.mp rest
      cases made
      refine ⟨reach,?_⟩
      intro r mem
      rcases List.mem_append.mp mem with early | last
      · exact inFile.ranges r early
      · rw [List.mem_singleton.mp last]
        exact insertion_inside reach inserts
    · rename_i some'
      have context : ∀ idx, contextIndex = some idx → idx < lines.length := by
        intro idx has
        rw [has] at located
        exact context_index located
      have lines' := searched.2 contextIndex lineIndex located (by simpa using some')
      exact replace_inside inFile (located_inside clean tells reach lines' context) rest

end hunks

section together
variable {Score : Type} {sc : Scoring Score} {lines : List JsString}

def Replacement.edit (r : Replacement) : Edit JsString := ⟨r.startIndex,r.startIndex + r.oldLen,r.newLines⟩

/- One range ends before the next begins. -/
def Before (a b : Replacement) : Prop := a.startIndex + a.oldLen ≤ b.startIndex

theorem overlap_none {replacements : List Replacement} (none' : findOverlap replacements = none) : replacements.Pairwise Before := by
  have trans' : IsTrans Replacement Before := ⟨fun a b c first second => by unfold Before at *; omega⟩
  rw [← List.isChain_iff_pairwise]
  fun_induction findOverlap replacements with
  | case1 prev next rest overlap => contradiction
  | case2 prev next rest apart ih => exact List.isChain_cons_cons.mpr ⟨Nat.le_of_not_lt apart,ih none'⟩
  | case3 replacements short =>
    match replacements, short with
    | [], _ => exact List.isChain_nil
    | [only], _ => exact List.isChain_singleton only
    | prev :: next :: rest, short => exact absurd rfl (short prev next rest)

/-- From the last to the first is all at once. -/
theorem apply_simultaneous {replacements : List Replacement} (inside : ∀ r ∈ replacements, r.startIndex + r.oldLen ≤ lines.length)
    (apart : replacements.Pairwise Before) :
    applyReplacements lines replacements = simultaneous (replacements.map Replacement.edit) lines := by
  have valid : ∀ edit ∈ (replacements.map Replacement.edit).reverse, edit.start ≤ edit.stop ∧ edit.stop ≤ lines.length := by
    intro edit mem
    obtain ⟨r,here,made⟩ := List.mem_map.mp (List.mem_reverse.mp mem)
    rw [← made]
    exact ⟨Nat.le_add_right _ _,inside r here⟩
  have order : (replacements.map Replacement.edit).reverse.Pairwise Follows := by
    rw [List.pairwise_reverse, List.pairwise_map]
    exact apart
  have steps := sequential_eq valid order
  rw [List.reverse_reverse, List.foldl_reverse, List.foldr_map] at steps
  exact steps

theorem whole_tells_blank : wholeScores.TellsBlank := by
  intro mark _ text some'
  have other : mark ++ text ≠ mark := fun same => some' (List.append_right_eq_self.mp same)
  simp [wholeScores, other]

def changesLast : DiffHunk := ⟨none,none,none,true,[js "a", js "b"],[js "a", js "c"],false⟩

end together

end Edit
