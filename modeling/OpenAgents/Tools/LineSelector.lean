import OpenAgents.Hashline.Tokenizer
import Mathlib.Data.List.Sort

/- Line selectors of a path, `5-16,960-`, as the lines they stand for. Line numbers are naturals. -/
namespace LineSelector
open JsText Hashline

/- `endLine` is `none` for a range up to the end of the file. -/
structure LineRange where
  startLine : Nat
  endLine : Option Nat
  deriving DecidableEq, Repr

def LineRange.Has (range : LineRange) (line : Nat) : Prop :=
  range.startLine ≤ line ∧ ∀ last ∈ range.endLine, line ≤ last

/- The optional `L` of either number, in either case. -/
def dropLetter : JsString → JsString
  | [] => []
  | c :: rest => if c == 76 || c == 108 then rest else c :: rest

structure ChunkMatch where
  start : JsString
  sep : Option CodeUnit
  rhs : Option JsString
  deriving DecidableEq, Repr

/- `/^L?(\d+)(?:([-+])L?(\d+)?)?$/i`: no two of its parts can take the same character, so it never backtracks. -/
def matchChunk (sel : JsString) : Option ChunkMatch :=
  let digits := (dropLetter sel).takeWhile isDigit
  if digits.isEmpty then none
  else
    match (dropLetter sel).dropWhile isDigit with
    | [] => some ⟨digits,none,none⟩
    | c :: rest =>
        if (c == 45 || c == 43) && (dropLetter rest).all isDigit then
          some ⟨digits,some c,if (dropLetter rest).isEmpty then none else some (dropLetter rest)⟩
        else none

/- The text of a thrown `ToolError`, `none` for `null`. -/
def parseLineRangeChunk (sel : JsString) : Except JsString (Option LineRange) :=
  match matchChunk sel with
  | none => .ok none
  | some lineMatch =>
      let rawStart := digitsValue lineMatch.start
      if rawStart < 1 then .error (js "Line selector 0 is invalid; lines are 1-indexed. Use :1.")
      else
        let rhs := lineMatch.rhs.map digitsValue
        if lineMatch.sep = some 43 then
          if rhs = none ∨ rhs.getD 0 < 1 then
            .error (js "Invalid range " ++ decimal rawStart ++ js "+" ++ decimal (rhs.getD 0) ++ js ": count must be >= 1.")
          else .ok (some ⟨rawStart,some (rawStart + rhs.getD 0 - 1)⟩)
        else if lineMatch.sep = some 45 then
          match rhs with
          | none => .ok (some ⟨rawStart,none⟩)
          | some last =>
              if last < rawStart then
                .error (js "Invalid range " ++ decimal rawStart ++ js "-" ++ decimal last ++ js ": end must be >= start.")
              else .ok (some ⟨rawStart,some last⟩)
        else .ok (some ⟨rawStart,none⟩)

/- The list `merged`, which is never empty, with its last range apart. -/
structure Merged where
  front : List LineRange
  last : LineRange
  deriving DecidableEq, Repr

def Merged.ranges (merged : Merged) : List LineRange := merged.front ++ [merged.last]

def Merged.add (merged : Merged) (current : LineRange) : Merged :=
  match merged.last.endLine with
  | none => merged
  | some lastEnd =>
      if current.startLine ≤ lastEnd + 1 then
        if ∀ currentEnd ∈ current.endLine, currentEnd > lastEnd then
          { merged with last := ⟨merged.last.startLine,current.endLine⟩ }
        else merged
      else ⟨merged.ranges,current⟩

abbrev byStart (a b : LineRange) : Prop := a.startLine ≤ b.startLine

instance : Std.Total byStart := ⟨fun a b => Nat.le_total a.startLine b.startLine⟩
instance : IsTrans LineRange byStart := ⟨fun _ _ _ => Nat.le_trans⟩

/- The sort is stable, as `insertionSort` is. -/
def mergeRanges (parsed : List LineRange) : Option (List LineRange) :=
  match parsed.insertionSort byStart with
  | [] => none
  | first :: later => some (later.foldl Merged.add ⟨[],first⟩).ranges

def parseChunks : List JsString → Except JsString (Option (List LineRange))
  | [] => .ok (some [])
  | chunk :: later =>
      match parseLineRangeChunk chunk with
      | .error text => .error text
      | .ok none => .ok none
      | .ok (some range) => (parseChunks later).map fun parsed => parsed.map (range :: ·)

def parseLineRanges (sel : JsString) : Except JsString (Option (List LineRange)) :=
  (parseChunks (sel.splitOn 44)).map fun parsed => parsed.bind mergeRanges

def isLineInRanges (lineNumber : Nat) : List LineRange → Bool
  | [] => false
  | range :: later =>
      if lineNumber < range.startLine then isLineInRanges lineNumber later
      else if range.endLine = none ∨ lineNumber ≤ range.endLine.getD 0 then true
      else isLineInRanges lineNumber later

theorem isLineInRanges_iff (line : Nat) (ranges : List LineRange) :
    isLineInRanges line ranges = true ↔ ∃ range ∈ ranges, range.Has line := by
  induction ranges with
  | nil => simp [isLineInRanges]
  | cons range later ih =>
    have here : range.Has line ↔ ¬ line < range.startLine ∧ (range.endLine = none ∨ line ≤ range.endLine.getD 0) := by
      cases ends : range.endLine with
      | none => simp [LineRange.Has, ends]
      | some last => simp [LineRange.Has, ends]
    simp only [isLineInRanges, List.exists_mem_cons_iff, here, ← ih]
    by_cases early : line < range.startLine
    · simp [early]
    · by_cases inside : range.endLine = none ∨ line ≤ range.endLine.getD 0
      · simp [early, inside]
      · simp [early, inside]

/-- A range that holds at least its first line. -/
def LineRange.Proper (range : LineRange) : Prop := ∀ last ∈ range.endLine, range.startLine ≤ last

/-- What a chunk is parsed to starts at line 1 or later and does not end before it starts. -/
theorem chunk_proper {sel : JsString} {range : LineRange} (parsed : parseLineRangeChunk sel = .ok (some range)) :
    1 ≤ range.startLine ∧ range.Proper := by
  unfold parseLineRangeChunk at parsed
  split at parsed
  · cases parsed
  next lineMatch found =>
    simp only at parsed
    split at parsed
    · cases parsed
    next positive =>
      split at parsed
      · split at parsed
        · cases parsed
        next counted =>
          cases parsed
          rw [not_or] at counted
          refine ⟨by simp only; omega,?_⟩
          simp only [LineRange.Proper, Option.mem_some_iff, forall_eq']
          omega
      · split at parsed
        · split at parsed
          · cases parsed
            exact ⟨by simp only; omega,by simp [LineRange.Proper]⟩
          next last given =>
            split at parsed
            · cases parsed
            next ordered =>
              cases parsed
              exact ⟨by simp only; omega,by simpa [LineRange.Proper] using ordered⟩
        · cases parsed
          exact ⟨by simp only; omega,by simp [LineRange.Proper]⟩

/-- The first of two ranges ends, and at least one line lies between them. -/
def Apart (a b : LineRange) : Prop := ∃ last ∈ a.endLine, last + 1 < b.startLine

/-- The merge loop after the ranges `seen`: what it holds are the lines of these, in ranges that lie apart. -/
structure Holds (merged : Merged) (seen : List LineRange) : Prop where
  apart : merged.ranges.Pairwise Apart
  proper : ∀ range ∈ merged.ranges, range.Proper
  lines : ∀ line, (∃ range ∈ merged.ranges, range.Has line) ↔ ∃ range ∈ seen, range.Has line

variable {merged : Merged} {seen : List LineRange} {current : LineRange}

/-- The last range may take in the lines of another one, as long as its start stays. -/
theorem holds_widen {current next : LineRange} (held : Holds merged seen) (starts : next.startLine = merged.last.startLine)
    (proper : next.Proper) (takes : ∀ line, next.Has line ↔ merged.last.Has line ∨ current.Has line) :
    Holds { merged with last := next } (seen ++ [current]) := by
  refine ⟨?_,?_,fun line => ?_⟩
  · obtain ⟨front,-,before⟩ := List.pairwise_append.mp held.apart
    refine List.pairwise_append.mpr ⟨front,List.pairwise_singleton _ _,fun a mem b is => ?_⟩
    obtain ⟨last,ends,gap⟩ := before a mem merged.last (by simp)
    obtain rfl := List.mem_singleton.mp is
    exact ⟨last,ends,by rw [starts]; exact gap⟩
  · intro range mem
    rcases List.mem_append.mp mem with early | is
    · exact held.proper range (List.mem_append_left _ early)
    · rw [List.mem_singleton.mp is]
      exact proper
  · have before := held.lines line
    simp only [Merged.ranges, List.mem_append, List.mem_singleton, or_and_right, exists_or, exists_eq_left] at before ⊢
    rw [takes, ← or_assoc, before]

theorem holds_push {lastEnd : Nat} (held : Holds merged seen) (ends : merged.last.endLine = some lastEnd)
    (proper : current.Proper) (gap : lastEnd + 1 < current.startLine) :
    Holds ⟨merged.ranges,current⟩ (seen ++ [current]) := by
  refine ⟨?_,?_,fun line => ?_⟩
  · refine List.pairwise_append.mpr ⟨held.apart,List.pairwise_singleton _ _,fun a mem b is => ?_⟩
    obtain rfl := List.mem_singleton.mp is
    rcases List.mem_append.mp mem with early | last
    · -- an earlier range ends before the last one starts, which itself ends before `current`
      obtain ⟨stop,stops,before⟩ := (List.pairwise_append.mp held.apart).2.2 a early merged.last (by simp)
      have within : merged.last.startLine ≤ lastEnd := held.proper merged.last (by simp [Merged.ranges]) lastEnd ends
      exact ⟨stop,stops,by omega⟩
    · rw [List.mem_singleton.mp last]
      exact ⟨lastEnd,ends,gap⟩
  · intro range mem
    rcases List.mem_append.mp mem with early | is
    · exact held.proper range early
    · rw [List.mem_singleton.mp is]
      exact proper
  · have before := held.lines line
    simp only [Merged.ranges, List.mem_append, List.mem_singleton, or_and_right, exists_or, exists_eq_left] at before ⊢
    rw [before]

theorem holds_add (held : Holds merged seen) (proper : current.Proper) (ordered : merged.last.startLine ≤ current.startLine) :
    Holds (merged.add current) (seen ++ [current]) ∧ (merged.add current).last.startLine ≤ current.startLine := by
  have lastProper : merged.last.Proper := held.proper merged.last (by simp [Merged.ranges])
  unfold Merged.add
  split
  next open' =>
    refine ⟨holds_widen held rfl lastProper fun line => ?_,ordered⟩
    simp only [LineRange.Has, open', Option.mem_def, reduceCtorEq, false_implies, implies_true, and_true]
    omega
  next lastEnd ends =>
    simp only [LineRange.Proper, ends, Option.mem_some_iff, forall_eq'] at lastProper
    split
    next touches =>
      split
      next extends' =>
        refine ⟨holds_widen held rfl (fun last is => (ordered.trans (proper last is))) fun line => ?_,ordered⟩
        cases stops : current.endLine with
        | none =>
          simp only [LineRange.Has, ends, stops, Option.mem_def, Option.some.injEq, forall_eq', reduceCtorEq, false_implies,
            implies_true, and_true]
          omega
        | some last =>
          have later : last > lastEnd := extends' last stops
          simp only [LineRange.Has, ends, stops, Option.mem_some_iff, forall_eq']
          omega
      next within =>
        obtain ⟨last,stops,early⟩ : ∃ last ∈ current.endLine, ¬ last > lastEnd := by simpa using within
        refine ⟨holds_widen held rfl (held.proper merged.last (by simp [Merged.ranges])) fun line => ?_,ordered⟩
        simp only [LineRange.Has, ends, Option.mem_def.mp stops, Option.mem_some_iff, forall_eq']
        omega
    next gap => exact ⟨holds_push held ends proper (by omega),le_refl _⟩

theorem holds_all (held : Holds merged seen) (later : List LineRange) (proper : ∀ range ∈ later, range.Proper)
    (ordered : (merged.last :: later).Pairwise fun a b => a.startLine ≤ b.startLine) :
    Holds (later.foldl Merged.add merged) (seen ++ later) := by
  induction later generalizing merged seen with
  | nil => simpa using held
  | cons current later ih =>
    obtain ⟨first,rest⟩ := List.pairwise_cons.mp ordered
    obtain ⟨after,starts⟩ := holds_add held (proper current List.mem_cons_self) (first current List.mem_cons_self)
    have follows : ((merged.add current).last :: later).Pairwise fun a b => a.startLine ≤ b.startLine :=
      List.pairwise_cons.mpr ⟨fun b mem => starts.trans ((List.pairwise_cons.mp rest).1 b mem),(List.pairwise_cons.mp rest).2⟩
    simpa using ih after (fun range mem => proper range (List.mem_cons_of_mem _ mem)) follows

/-- What the merged ranges promise: by start, pairwise apart, only the last one without an end. -/
structure Separated (ranges : List LineRange) : Prop where
  sorted : ranges.Pairwise fun a b => a.startLine < b.startLine
  apart : ranges.Pairwise fun a b => ∀ last ∈ a.endLine, last + 1 < b.startLine
  disjoint : ranges.Pairwise fun a b => ∀ line, ¬ (a.Has line ∧ b.Has line)
  openLast : ∀ range ∈ ranges.dropLast, range.endLine ≠ none

theorem separated_of {ranges : List LineRange} (apart : ranges.Pairwise Apart) (proper : ∀ range ∈ ranges, range.Proper) :
    Separated ranges := by
  have started : ranges.Pairwise fun a b => a.startLine < b.startLine := by
    refine apart.imp_of_mem fun {a b} mem _ gap => ?_
    obtain ⟨last,ends,before⟩ := gap
    have within := proper a mem last ends
    omega
  refine ⟨started,apart.imp fun {a b} gap last ends => ?_,apart.imp fun {a b} gap line both => ?_,?_⟩
  · obtain ⟨stop,stops,before⟩ := gap
    cases Option.mem_unique ends stops
    exact before
  · obtain ⟨stop,stops,before⟩ := gap
    have inA := both.1.2 stop stops
    have inB := both.2.1
    omega
  · intro range mem open'
    have nonempty : ranges ≠ [] := fun empty => by simp [empty] at mem
    rw [← List.dropLast_append_getLast nonempty] at apart
    obtain ⟨stop,stops,-⟩ := (List.pairwise_append.mp apart).2.2 range mem _ (List.mem_singleton_self _)
    rw [open'] at stops
    cases stops

theorem mergeRanges_separated {parsed : List LineRange} (some' : parsed ≠ []) (proper : ∀ range ∈ parsed, range.Proper) :
    ∃ ranges, mergeRanges parsed = some ranges ∧ ranges ≠ [] ∧ Separated ranges ∧
      ∀ line, (∃ range ∈ ranges, range.Has line) ↔ ∃ range ∈ parsed, range.Has line := by
  have sorted := List.pairwise_insertionSort byStart parsed
  have same : ∀ range, range ∈ parsed.insertionSort byStart ↔ range ∈ parsed := fun range => List.mem_insertionSort _
  cases order : parsed.insertionSort byStart with
  | nil =>
    have empty := List.length_insertionSort byStart parsed
    rw [order] at empty
    exact absurd (List.length_eq_zero_iff.mp empty.symm) some'
  | cons first later =>
    simp only [order, List.mem_cons] at same sorted
    have starts : Holds ⟨[],first⟩ [first] :=
      ⟨List.pairwise_singleton _ _,fun range mem => by
        obtain rfl := List.mem_singleton.mp mem
        exact proper range ((same range).mp (.inl rfl)),fun line => Iff.rfl⟩
    have held := holds_all starts later (fun range mem => proper range ((same range).mp (.inr mem))) sorted
    refine ⟨_,by rw [mergeRanges, order],by simp [Merged.ranges],separated_of held.apart held.proper,fun line => ?_⟩
    rw [held.lines line]
    simp only [List.singleton_append, List.mem_cons, same]

/-- The chunks that are all ranges are parsed to these ranges. -/
theorem parseChunks_all {chunks : List JsString} {parsed : List LineRange}
    (accepted : chunks.map parseLineRangeChunk = parsed.map fun range => .ok (some range)) : parseChunks chunks = .ok (some parsed) := by
  induction chunks generalizing parsed with
  | nil =>
    cases parsed with
    | nil => rfl
    | cons range rest => cases accepted
  | cons chunk chunks ih =>
    cases parsed with
    | nil => cases accepted
    | cons range rest =>
      obtain ⟨here,later⟩ := List.cons_eq_cons.mp accepted
      simp [parseChunks, here, ih later, Except.map]

/-- A line selector whose chunks are all accepted stands for the lines of its chunks, in ranges that are sorted
    and lie at least one line apart, of which only the last may be without an end. -/
theorem parseLineRanges_denotes (sel : JsString) (parsed : List LineRange)
    (accepted : (sel.splitOn 44).map parseLineRangeChunk = parsed.map fun range => .ok (some range)) :
    ∃ ranges, parseLineRanges sel = .ok (some ranges) ∧ ranges ≠ [] ∧ Separated ranges ∧
      ∀ line, isLineInRanges line ranges = true ↔ ∃ range ∈ parsed, range.Has line := by
  have some' : parsed ≠ [] := by
    rintro rfl
    exact List.splitOn_ne_nil 44 sel (List.map_eq_nil_iff.mp accepted)
  have proper : ∀ range ∈ parsed, range.Proper := by
    intro range mem
    have given : (.ok (some range) : Except JsString (Option LineRange)) ∈ (sel.splitOn 44).map parseLineRangeChunk := by
      rw [accepted]
      exact List.mem_map_of_mem mem
    obtain ⟨chunk,-,is⟩ := List.mem_map.mp given
    exact (chunk_proper is).2
  obtain ⟨ranges,merges,nonempty,separated,lines⟩ := mergeRanges_separated some' proper
  refine ⟨ranges,by rw [parseLineRanges, parseChunks_all accepted]; simpa [Except.map] using merges,nonempty,separated,fun line => ?_⟩
  rw [isLineInRanges_iff, lines line]

theorem five_chunks_denote : ∃ ranges, parseLineRanges (js "30-,5-16,L1-l3,10+20,41") = .ok (some ranges) ∧ ranges ≠ [] ∧
    Separated ranges ∧ ∀ line, isLineInRanges line ranges = true ↔
      ∃ range ∈ [⟨30,none⟩, ⟨5,some 16⟩, ⟨1,some 3⟩, ⟨10,some 29⟩, ⟨41,none⟩], LineRange.Has range line :=
  parseLineRanges_denotes _ _ (by decide +kernel)

example : parseLineRanges (js "30-,5-16,L1-l3,10+20,41") = .ok (some [⟨1,some 3⟩, ⟨5,none⟩]) := by decide +kernel

end LineSelector
