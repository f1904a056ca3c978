import OpenAgents.Lib.JsText
import Mathlib.Data.List.Chain
import Mathlib.Data.List.Sort
import Mathlib.Algebra.GroupWithZero.Nat

/- The segments of a code summary: which lines are kept and which are elided, once it is known which spans
   are folded. -/
namespace SummarySegments
open JsText

inductive SegmentKind where
  | kept
  | elided
  deriving DecidableEq

structure SummarySegment where
  kind : SegmentKind
  startLine : Nat
  endLine : Nat
  text : Option JsString
  deriving DecidableEq

/- First and last line, counted from one. -/
structure LineSpan where
  startLine : Nat
  endLine : Nat
  deriving DecidableEq

def lines (span : LineSpan) : Nat := span.endLine - span.startLine + 1

def spans (span : LineSpan) (line : Nat) : Prop := span.startLine ≤ line ∧ line ≤ span.endLine

instance (span : LineSpan) (line : Nat) : Decidable (spans span line) := inferInstanceAs (Decidable (_ ∧ _))

def isElided (folded : List LineSpan) (line : Nat) : Bool := folded.any fun span => decide (spans span line)

def spanBefore (a b : LineSpan) : Prop := a.startLine < b.startLine ∨ a.startLine = b.startLine ∧ a.endLine ≤ b.endLine

instance : DecidableRel spanBefore := fun _ _ => inferInstanceAs (Decidable (_ ∨ _))
instance : Std.Total spanBefore := ⟨fun a b => by unfold spanBefore; omega⟩
instance : IsTrans LineSpan spanBefore := ⟨fun a b c => by unfold spanBefore; omega⟩

/- The last of the merged spans stands first. -/
def mergeSpan (merged : List LineSpan) (span : LineSpan) : List LineSpan :=
  match merged with
  | last :: rest =>
      if span.startLine ≤ last.endLine + 1 then ⟨last.startLine,max last.endLine span.endLine⟩ :: rest
      else span :: last :: rest
  | [] => [span]

def clampSpan (totalLines : Nat) (span : LineSpan) : LineSpan := { span with endLine := min span.endLine totalLines }

def normalizeSpans (folded : List LineSpan) (totalLines : Nat) : List LineSpan :=
  if totalLines = 0 then []
  else
    let retained := folded.filter fun span => span.startLine ≤ span.endLine && span.startLine ≤ totalLines
    (((retained.map (clampSpan totalLines)).insertionSort spanBefore).foldl mergeSpan []).reverse

def pushSegment (segments : List SummarySegment) (kind : SegmentKind) (startLine endLine : Nat) (text : List JsString) :
    List SummarySegment :=
  segments ++ [⟨kind,startLine,endLine,if kind = .kept then some (joinLines text) else none⟩]

structure Building where
  segments : List SummarySegment
  currentKind : Option SegmentKind
  currentStart : Nat
  currentLines : List JsString

def kindOf (elided : Nat → Bool) (line : Nat) : SegmentKind := if elided line then .elided else .kept

def lineAt (sourceLines : List JsString) (line : Nat) : JsString := sourceLines.getD (line - 1) []

def closeSegment (s : Building) (kind : SegmentKind) (line : Nat) : Building :=
  match s.currentKind with
  | some existing =>
      if existing ≠ kind then
        ⟨pushSegment s.segments existing s.currentStart (line - 1) s.currentLines,some existing,line,[]⟩
      else s
  | none => s

def readLine (sourceLines : List JsString) (elided : Nat → Bool) (s : Building) (line : Nat) : Building :=
  let kind := kindOf elided line
  let s := closeSegment s kind line
  { s with currentKind := some kind
           currentLines := if elided line then s.currentLines else s.currentLines ++ [lineAt sourceLines line] }

def buildSegments (sourceLines : List JsString) (totalLines : Nat) (folded : List LineSpan) : List SummarySegment :=
  if totalLines = 0 then []
  else
    let s := (List.range' 1 totalLines).foldl (readLine sourceLines (isElided folded)) ⟨[],none,1,[]⟩
    match s.currentKind with
    | some kind => pushSegment s.segments kind s.currentStart totalLines s.currentLines
    | none => s.segments

theorem isElided_iff {folded : List LineSpan} {line : Nat} :
    isElided folded line = true ↔ ∃ span ∈ folded, spans span line := by
  simp [isElided]

theorem mergeSpan_elides {merged : List LineSpan} {span : LineSpan}
    (ahead : ∀ last ∈ merged.head?, last.startLine ≤ span.startLine) (line : Nat) :
    isElided (mergeSpan merged span) line = true ↔ spans span line ∨ isElided merged line = true := by
  simp only [isElided_iff]
  unfold mergeSpan
  split
  next last rest =>
    have before : last.startLine ≤ span.startLine := ahead last rfl
    split
    next touching =>
      have union : spans ⟨last.startLine,max last.endLine span.endLine⟩ line ↔ spans span line ∨ spans last line := by
        change last.startLine ≤ line ∧ line ≤ max last.endLine span.endLine ↔
          (span.startLine ≤ line ∧ line ≤ span.endLine) ∨ (last.startLine ≤ line ∧ line ≤ last.endLine)
        omega
      simp only [List.mem_cons, exists_eq_or_imp, union]
      tauto
    next apart => simp
  next => simp

theorem mergeSpans_elides {sorted : List LineSpan} (ordered : sorted.Pairwise fun a b => a.startLine ≤ b.startLine)
    {merged : List LineSpan} (ahead : ∀ last ∈ merged.head?, ∀ span ∈ sorted, last.startLine ≤ span.startLine) (line : Nat) :
    isElided (sorted.foldl mergeSpan merged) line = true ↔ isElided sorted line = true ∨ isElided merged line = true := by
  induction sorted generalizing merged with
  | nil => simp [isElided]
  | cons span rest ih =>
    rw [List.pairwise_cons] at ordered
    have first := mergeSpan_elides (fun last member => ahead last member span List.mem_cons_self) line
    have next : ∀ last ∈ (mergeSpan merged span).head?, ∀ later ∈ rest, last.startLine ≤ later.startLine := by
      intro last member later inside
      have after := ordered.1 later inside
      unfold mergeSpan at member
      split at member
      next previous others =>
        have before : previous.startLine ≤ span.startLine := ahead previous rfl span List.mem_cons_self
        split at member <;> (simp only [List.head?_cons, Option.mem_def, Option.some.injEq] at member; subst member)
        · exact before.trans after
        · exact after
      next =>
        simp only [List.head?_cons, Option.mem_def, Option.some.injEq] at member
        exact member ▸ after
    rw [List.foldl_cons, ih ordered.2 next, first]
    simp only [isElided, List.any_cons, Bool.or_eq_true, decide_eq_true_eq]
    tauto

theorem start_le {a b : LineSpan} (before : spanBefore a b) : a.startLine ≤ b.startLine := by
  unfold spanBefore at before
  omega

theorem normalizeSpans_elides (folded : List LineSpan) {totalLines line : Nat} (within : 0 < line ∧ line ≤ totalLines) :
    isElided (normalizeSpans folded totalLines) line = isElided folded line := by
  rw [Bool.eq_iff_iff]
  unfold normalizeSpans
  rw [if_neg (by omega)]
  simp only
  have ordered := (List.pairwise_insertionSort spanBefore ((folded.filter fun span =>
    span.startLine ≤ span.endLine && span.startLine ≤ totalLines).map (clampSpan totalLines))).imp fun before => start_le before
  have merged := @mergeSpans_elides _ ordered [] (by simp) line
  have reversed : ∀ some' : List LineSpan, isElided some'.reverse line = isElided some' line := fun _ => List.any_reverse
  rw [reversed, merged]
  simp only [isElided_iff, List.mem_insertionSort, List.mem_map, List.mem_filter, Bool.and_eq_true, decide_eq_true_eq,
    List.not_mem_nil, false_and, exists_false, or_false]
  constructor
  · rintro ⟨_,⟨span,⟨member,_⟩,rfl⟩,covered⟩
    refine ⟨span,member,covered.1,?_⟩
    have below : line ≤ min span.endLine totalLines := covered.2
    omega
  · rintro ⟨span,member,covered⟩
    unfold spans at covered
    refine ⟨clampSpan totalLines span,⟨span,⟨member,by omega⟩,rfl⟩,covered.1,?_⟩
    change line ≤ min span.endLine totalLines
    omega

def linesOf (segment : SummarySegment) : List Nat :=
  List.range' segment.startLine (segment.endLine + 1 - segment.startLine)

def segmentText (sourceLines : List JsString) (kind : SegmentKind) (inside : List Nat) : Option JsString :=
  if kind = .kept then some (joinLines (inside.map (lineAt sourceLines))) else none

/- The lines up to the one given are cut into segments, each as long as its lines are of one kind. -/
inductive Cut (sourceLines : List JsString) (elided : Nat → Bool) : Nat → Option SegmentKind → List SummarySegment → Prop
  | start : Cut sourceLines elided 0 none []
  | segment {done length : Nat} {previous : Option SegmentKind} {segments : List SummarySegment} {kind : SegmentKind}
      (cut : Cut sourceLines elided done previous segments) (other : previous ≠ some kind)
      (alike : ∀ line ∈ List.range' (done + 1) (length + 1), kindOf elided line = kind) :
      Cut sourceLines elided (done + (length + 1)) (some kind) (segments ++
        [⟨kind,done + 1,done + (length + 1),segmentText sourceLines kind (List.range' (done + 1) (length + 1))⟩])

/- The segment under way begins behind `done` and has `length + 1` lines. -/
structure UnderWay (sourceLines : List JsString) (elided : Nat → Bool) (line done length : Nat) (kind : SegmentKind)
    (s : Building) : Prop where
  read : line = done + (length + 1)
  current : s.currentKind = some kind
  starts : s.currentStart = done + 1
  closed : ∃ previous, Cut sourceLines elided done previous s.segments ∧ previous ≠ some kind
  alike : ∀ line ∈ List.range' (done + 1) (length + 1), kindOf elided line = kind
  texts : s.currentLines = if kind = .kept then (List.range' (done + 1) (length + 1)).map (lineAt sourceLines) else []

section
variable {sourceLines : List JsString} {elided : Nat → Bool}

theorem underWay_closes {line done length : Nat} {kind : SegmentKind} {s : Building}
    (open' : UnderWay sourceLines elided line done length kind s) :
    Cut sourceLines elided line (some kind) (pushSegment s.segments kind s.currentStart line s.currentLines) := by
  obtain ⟨previous,cut,other⟩ := open'.closed
  have closed := Cut.segment cut other open'.alike
  have text : (if kind = .kept then some (joinLines s.currentLines) else none) =
      segmentText sourceLines kind (List.range' (done + 1) (length + 1)) := by
    unfold segmentText
    split
    next kept => rw [open'.texts, if_pos kept]
    next => rfl
  rw [pushSegment, text, open'.starts, open'.read]
  exact closed

theorem kept_iff_seen {line : Nat} : kindOf elided line = .kept ↔ elided line = false := by
  unfold kindOf
  cases elided line <;> simp

theorem readLine_first : UnderWay sourceLines elided 1 0 0 (kindOf elided 1) (readLine sourceLines elided ⟨[],none,1,[]⟩ 1) where
  read := rfl
  current := rfl
  starts := rfl
  closed := ⟨none,.start,by simp⟩
  alike := by simp
  texts := by
    have seen := @kept_iff_seen elided 1
    cases hidden : elided 1 <;> simp [readLine, closeSegment, hidden, seen]

theorem readLine_step {line done length : Nat} {kind : SegmentKind} {s : Building}
    (open' : UnderWay sourceLines elided line done length kind s) :
    ∃ done' length' kind', UnderWay sourceLines elided (line + 1) done' length' kind' (readLine sourceLines elided s (line + 1)) := by
  by_cases same : kind = kindOf elided (line + 1)
  · refine ⟨done,length + 1,kind,?_⟩
    have stays : closeSegment s (kindOf elided (line + 1)) (line + 1) = s := by
      simp [closeSegment, open'.current, same]
    have more : List.range' (done + 1) (length + 1 + 1) = List.range' (done + 1) (length + 1) ++ [line + 1] := by
      rw [List.range'_1_concat, open'.read]
      congr 2
      omega
    unfold readLine
    simp only [stays]
    constructor
    · rw [open'.read]
      omega
    · rw [same]
    · exact open'.starts
    · exact open'.closed
    · intro inside member
      rw [more, List.mem_append, List.mem_singleton] at member
      rcases member with earlier | rfl
      · exact open'.alike inside earlier
      · exact same.symm
    · have seen := @kept_iff_seen elided (line + 1)
      rw [more, open'.texts, same]
      cases hidden : elided (line + 1) <;> simp [hidden, seen]
  · refine ⟨line,0,kindOf elided (line + 1),?_⟩
    have closes : closeSegment s (kindOf elided (line + 1)) (line + 1) =
        ⟨pushSegment s.segments kind s.currentStart line s.currentLines,some kind,line + 1,[]⟩ := by
      simp [closeSegment, open'.current, same]
    unfold readLine
    simp only [closes]
    constructor
    · rfl
    · rfl
    · rfl
    · exact ⟨some kind,underWay_closes open',by simpa using same⟩
    · simp
    · have seen := @kept_iff_seen elided (line + 1)
      cases hidden : elided (line + 1) <;> simp [hidden, seen]

theorem readLines (count : Nat) : ∃ done length kind, UnderWay sourceLines elided (count + 1) done length kind
    ((List.range' 1 (count + 1)).foldl (readLine sourceLines elided) ⟨[],none,1,[]⟩) := by
  induction count with
  | zero => exact ⟨0,0,kindOf elided 1,readLine_first⟩
  | succ count ih =>
    obtain ⟨done,length,kind,open'⟩ := ih
    rw [List.range'_1_concat, List.foldl_append, List.foldl_cons, List.foldl_nil, Nat.add_comm 1]
    exact readLine_step open'

end

theorem buildSegments_cut (sourceLines : List JsString) (totalLines : Nat) (folded : List LineSpan) :
    ∃ kind, Cut sourceLines (isElided folded) totalLines kind (buildSegments sourceLines totalLines folded) := by
  unfold buildSegments
  split
  next empty => exact ⟨none,empty ▸ .start⟩
  next lines' =>
    obtain ⟨count,rfl⟩ : ∃ count, totalLines = count + 1 := ⟨totalLines - 1,by omega⟩
    obtain ⟨done,length,kind,open'⟩ := @readLines sourceLines (isElided folded) count
    refine ⟨some kind,?_⟩
    simp only [open'.current]
    exact underWay_closes open'

/- The segments are those of a file of `totalLines` lines. -/
structure Partitions (sourceLines : List JsString) (totalLines : Nat) (segments : List SummarySegment) : Prop where
  covers : segments.flatMap linesOf = List.range' 1 totalLines
  proper : ∀ segment ∈ segments, segment.startLine ≤ segment.endLine
  consecutive : segments.IsChain fun a b => a.kind ≠ b.kind ∧ b.startLine = a.endLine + 1
  verbatim : ∀ segment ∈ segments, segment.text = segmentText sourceLines segment.kind (linesOf segment)

def keptLines (segments : List SummarySegment) : Nat :=
  ((segments.filter fun segment => segment.kind = .kept).map fun segment => segment.endLine + 1 - segment.startLine).sum

/- The lines of the file that stand in a folded span. -/
def hiddenLines (folded : List LineSpan) (totalLines : Nat) : Nat := (List.range' 1 totalLines).countP (isElided folded)

section
variable {sourceLines : List JsString} {elided : Nat → Bool} {done : Nat} {kind : Option SegmentKind}
  {segments : List SummarySegment}

theorem linesOf_cut (kind : SegmentKind) (text : Option JsString) (done length : Nat) :
    linesOf ⟨kind,done + 1,done + (length + 1),text⟩ = List.range' (done + 1) (length + 1) := by
  unfold linesOf
  congr 1
  simp only
  omega

theorem cut_last (cut : Cut sourceLines elided done kind segments) :
    ∀ last ∈ segments.getLast?, kind = some last.kind ∧ last.endLine = done := by
  cases cut with
  | start => simp
  | segment cut other alike =>
    intro last member
    rw [List.getLast?_concat, Option.mem_def, Option.some.injEq] at member
    subst member
    exact ⟨rfl,rfl⟩

theorem cut_partitions (cut : Cut sourceLines elided done kind segments) : Partitions sourceLines done segments := by
  induction cut with
  | start => exact ⟨rfl,by simp,.nil,by simp⟩
  | @segment done length previous segments kind cut other alike ih =>
    constructor
    · rw [List.flatMap_append, ih.covers, List.flatMap_singleton, linesOf_cut, Nat.add_comm done 1, List.range'_append_1]
    · intro segment member
      rw [List.mem_append, List.mem_singleton] at member
      rcases member with earlier | rfl
      · exact ih.proper segment earlier
      · change done + 1 ≤ done + (length + 1)
        omega
    · rw [List.isChain_append]
      refine ⟨ih.consecutive,List.isChain_singleton _,?_⟩
      intro last member next first
      rw [List.head?_cons, Option.mem_def, Option.some.injEq] at first
      obtain ⟨before,ends⟩ := cut_last cut last member
      rw [← first, ends]
      refine ⟨?_,rfl⟩
      intro same
      exact other (before.trans (congrArg some same))
    · intro segment member
      rw [List.mem_append, List.mem_singleton] at member
      rcases member with earlier | rfl
      · exact ih.verbatim segment earlier
      · rw [linesOf_cut]

theorem countP_alike {lines : List Nat} {kind : SegmentKind} (alike : ∀ line ∈ lines, kindOf elided line = kind) :
    lines.countP elided = if kind = .kept then 0 else lines.length := by
  cases kind with
  | kept =>
    have none : ∀ line ∈ lines, ¬ elided line = true := fun line member =>
      Bool.eq_false_iff.mp (kept_iff_seen.mp (alike line member))
    simpa using none
  | elided =>
    have all : ∀ line ∈ lines, elided line = true := fun line member => by
      by_contra seen
      have kept := kept_iff_seen.mpr (Bool.eq_false_iff.mpr seen)
      rw [alike line member] at kept
      cases kept
    simpa using all

/- Every line is kept or hidden. -/
theorem cut_counts (cut : Cut sourceLines elided done kind segments) :
    keptLines segments + (List.range' 1 done).countP elided = done := by
  induction cut with
  | start => rfl
  | @segment done length previous segments kind cut other alike ih =>
    have range : List.range' 1 (done + (length + 1)) = List.range' 1 done ++ List.range' (done + 1) (length + 1) := by
      rw [Nat.add_comm done 1, List.range'_append_1]
    rw [range, List.countP_append, countP_alike alike]
    unfold keptLines at ih ⊢
    cases kind <;> simp <;> omega

end

theorem keptLines_normalized (sourceLines : List JsString) (folded : List LineSpan) (totalLines : Nat) :
    keptLines (buildSegments sourceLines totalLines (normalizeSpans folded totalLines)) + hiddenLines folded totalLines =
      totalLines := by
  obtain ⟨kind,cut⟩ := buildSegments_cut sourceLines totalLines (normalizeSpans folded totalLines)
  have same : hiddenLines folded totalLines = (List.range' 1 totalLines).countP (isElided (normalizeSpans folded totalLines)) := by
    apply List.countP_congr
    intro line member
    have bounds := List.mem_range'_1.mp member
    rw [normalizeSpans_elides folded (by omega)]
  rw [same]
  exact cut_counts cut

end SummarySegments
