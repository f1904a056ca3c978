import OpenAgents.Summary.Segments
import Mathlib.Algebra.BigOperators.Group.Finset.Basic

/- Summaries of source code: the spans of its syntax tree that can be elided, which of them are folded, and the
   lines that are left. The parser delivers the tree; sums of line counts are taken to stay below the bound of their
   type. -/
namespace CodeSummary
open JsText SummarySegments

def u32Max : Nat := 0xFFFFFFFF

/- Rows are counted from zero, columns from the start of the row. -/
inductive Node where
  | mk (kind : JsString) (startRow endRow endColumn : Nat) (children : List Node)

def Node.kind : Node → JsString
  | .mk kind _ _ _ _ => kind

def Node.startLine : Node → Nat
  | .mk _ startRow _ _ _ => min (startRow + 1) u32Max

def Node.endLine : Node → Nat
  | .mk _ _ endRow _ _ => min (endRow + 1) u32Max

/- A node that takes in its final line feed ends at column zero of the next row. -/
def Node.contentEndLine : Node → Nat
  | .mk _ _ endRow endColumn _ =>
      if endColumn = 0 ∧ 0 < endRow then min endRow u32Max else min (endRow + 1) u32Max

def Node.lineCount (node : Node) : Nat := node.endLine - node.startLine + 1

/- The kinds of nodes of a language that the summary tells apart. -/
structure SupportLang where
  isCommentKind : JsString → Bool
  isElidableKind : JsString → Bool
  isGroupableKind : JsString → Bool

structure SpanNode where
  span : LineSpan
  children : List Nat

structure ElidableForest where
  nodes : List SpanNode
  roots : List Nat

def addChild (idx : Nat) (node : SpanNode) : SpanNode := { node with children := node.children ++ [idx] }

def ElidableForest.push (forest : ElidableForest) (parent : Option Nat) (span : LineSpan) : ElidableForest × Nat :=
  let idx := forest.nodes.length
  let nodes := forest.nodes ++ [⟨span,[]⟩]
  match parent with
  | some p => ({ forest with nodes := nodes.modify p (addChild idx) }, idx)
  | none => (⟨nodes,forest.roots ++ [idx]⟩, idx)

/- A run of groupable siblings: its first and its last node, and how many there are. -/
abbrev Run := Option (Node × Node × Nat)

section
variable (language : SupportLang) (minBodyLines minCommentLines : Nat)

def flushGroupableRun (run : Run) (forest : ElidableForest) (parent : Option Nat) : ElidableForest :=
  match run with
  | none => forest
  | some (first, last, count) =>
      if count < 2 then forest
      else if last.endLine - first.startLine + 1 < minBodyLines then forest
      else
        let firstContentEnd := min first.contentEndLine (last.startLine - 1)
        if firstContentEnd + 1 ≤ last.startLine - 1 then
          (forest.push parent ⟨firstContentEnd + 1,last.startLine - 1⟩).1
        else forest

def extendRun (run : Run) (child : Node) : Run :=
  match run with
  | some (first, _, count) => some (first, child, count + 1)
  | none => some (child, child, 1)

def groupRuns (parent : Option Nat) : List Node → Run → ElidableForest → ElidableForest
  | [], run, forest => flushGroupableRun minBodyLines run forest parent
  | child :: rest, run, forest =>
      if language.isGroupableKind child.kind then groupRuns parent rest (extendRun run child) forest
      else groupRuns parent rest none (flushGroupableRun minBodyLines run forest parent)

def commentSpan (node : Node) (parent : Option Nat) (forest : ElidableForest) : ElidableForest :=
  if minCommentLines ≤ node.lineCount ∧ node.startLine + 2 ≤ node.endLine - 1 then
    (forest.push parent ⟨node.startLine + 2,node.endLine - 1⟩).1
  else forest

/- The forest, and the parent of what is elided inside the node. -/
def bodySpan (node : Node) (parent : Option Nat) (forest : ElidableForest) : ElidableForest × Option Nat :=
  if language.isElidableKind node.kind = true ∧ minBodyLines ≤ node.lineCount ∧ node.startLine + 1 ≤ node.endLine - 1 then
    (forest.push parent ⟨node.startLine + 1,node.endLine - 1⟩).map id some
  else (forest, parent)

mutual

def collectElidableTree : Node → Option Nat → ElidableForest → ElidableForest
  | .mk kind startRow endRow endColumn children, elidableParent, forest =>
      let node := Node.mk kind startRow endRow endColumn children
      if language.isCommentKind kind then commentSpan minCommentLines node elidableParent forest
      else
        let body := bodySpan language minBodyLines node elidableParent forest
        collectChildren children body.2 (groupRuns language minBodyLines body.2 children none body.1)

def collectChildren : List Node → Option Nat → ElidableForest → ElidableForest
  | [], _, forest => forest
  | child :: rest, parent, forest => collectChildren rest parent (collectElidableTree child parent forest)

end

end

def nodeAt (forest : ElidableForest) (idx : Nat) : SpanNode := forest.nodes.getD idx ⟨⟨0,0⟩,[]⟩
def spanAt (forest : ElidableForest) (idx : Nat) : LineSpan := (nodeAt forest idx).span

structure Unfolding where
  folded : Finset Nat
  queue : List Nat
  visible : Nat

def lineTotal (forest : ElidableForest) (indices : List Nat) : Nat := (indices.map fun i => lines (spanAt forest i)).sum

def childLines (forest : ElidableForest) (idx : Nat) : Nat := lineTotal forest (nodeAt forest idx).children

def revealed (forest : ElidableForest) (idx : Nat) : Nat := lines (spanAt forest idx) - childLines forest idx

def unfoldLoop (forest : ElidableForest) (unfoldUntil unfoldLimit : Nat) : Nat → Unfolding → Unfolding
  | 0, s => s
  | fuel + 1, s =>
      match s.queue with
      | [] => s
      | idx :: rest =>
          if unfoldUntil ≤ s.visible then { s with queue := rest }
          else if idx ∉ s.folded then unfoldLoop forest unfoldUntil unfoldLimit fuel { s with queue := rest }
          else if unfoldLimit < s.visible + revealed forest idx then { s with queue := rest }
          else
            let children := (nodeAt forest idx).children
            unfoldLoop forest unfoldUntil unfoldLimit fuel
              ⟨s.folded.erase idx ∪ children.toFinset,rest ++ children,s.visible + revealed forest idx⟩

/- In the order of the spans; the set has none. -/
def foldedSpans (forest : ElidableForest) (folded : Finset Nat) : List LineSpan :=
  ((List.range forest.nodes.length).filter (· ∈ folded)).map (spanAt forest)

def selectFoldedSpans (forest : ElidableForest) (totalLines unfoldUntil unfoldLimit : Nat) : List LineSpan :=
  let folded := forest.roots.toFinset
  if unfoldUntil = 0 ∨ folded = ∅ then foldedSpans forest folded
  else
    let foldedLineTotal := ∑ i ∈ folded, lines (spanAt forest i)
    foldedSpans forest
      (unfoldLoop forest unfoldUntil unfoldLimit (forest.nodes.length + 1) ⟨folded,forest.roots,totalLines - foldedLineTotal⟩).folded

def stripReturn (line : JsString) : JsString := if line.getLast? = some carriageReturn then line.dropLast else line

/- `str::lines`. -/
def sourceLines (source : JsString) : List JsString :=
  let pieces := splitLines source
  let last := pieces.getLastD []
  pieces.dropLast.map stripReturn ++ if last = [] then [] else [last]

def countLines (source : JsString) : Nat := if source = [] then 0 else min (max (sourceLines source).length 1) u32Max

structure SummaryOptions where
  minBodyLines : Option Nat
  minCommentLines : Option Nat
  unfoldUntilLines : Option Nat
  unfoldLimitLines : Option Nat

structure SummaryResult where
  parsed : Bool
  elided : Bool
  totalLines : Nat
  segments : List SummarySegment

def unparsedResult (source : JsString) (totalLines : Nat) : SummaryResult :=
  ⟨false,false,totalLines,if source = [] then [] else [⟨.kept,1,totalLines,some source⟩]⟩

def forestOf (language : SupportLang) (tree : Node) (options : SummaryOptions) : ElidableForest :=
  collectElidableTree language (max (options.minBodyLines.getD 4) 2) (max (options.minCommentLines.getD 6) 4) tree none ⟨[],[]⟩

/- `parse` is the language and the tree of a source that parses without errors. -/
def summarizeCode (parse : Option (SupportLang × Node)) (source : JsString) (options : SummaryOptions) : SummaryResult :=
  let totalLines := countLines source
  if source = [] then unparsedResult source totalLines
  else
    match parse with
    | none => unparsedResult source totalLines
    | some (language, tree) =>
        let unfoldUntil := options.unfoldUntilLines.getD 0
        let unfoldLimit := options.unfoldLimitLines.getD (min (unfoldUntil * 2) u32Max)
        let folded := selectFoldedSpans (forestOf language tree options) totalLines unfoldUntil unfoldLimit
        let spans := normalizeSpans folded totalLines
        ⟨true,!spans.isEmpty,totalLines,buildSegments (sourceLines source) totalLines spans⟩

/- Every span but the roots is the child of one other span. -/
def Sound (forest : ElidableForest) : Prop :=
  (forest.roots ++ forest.nodes.flatMap SpanNode.children).Perm (List.range forest.nodes.length)

theorem addChild_perm (idx : Nat) {nodes : List SpanNode} {p : Nat} (within : p < nodes.length) :
    ((nodes.modify p (addChild idx)).flatMap SpanNode.children).Perm (idx :: nodes.flatMap SpanNode.children) := by
  induction nodes generalizing p with
  | nil => simp at within
  | cons node rest ih =>
    cases p with
    | zero =>
      simp only [List.modify_zero_cons, List.flatMap_cons, addChild, List.append_assoc, List.singleton_append]
      exact List.perm_middle
    | succ p =>
      simp only [List.modify_succ_cons, List.flatMap_cons]
      have rest' := (ih (Nat.lt_of_succ_lt_succ within)).append_left node.children
      exact rest'.trans List.perm_middle

/- What collecting leaves: a sound forest with no fewer spans. -/
def Grown (before after : ElidableForest) : Prop := Sound after ∧ before.nodes.length ≤ after.nodes.length

theorem push_grown {forest : ElidableForest} (sound : Sound forest) {parent : Option Nat}
    (within : ∀ p ∈ parent, p < forest.nodes.length) (span : LineSpan) :
    Grown forest (forest.push parent span).1 ∧ (forest.push parent span).2 < (forest.push parent span).1.nodes.length := by
  unfold ElidableForest.push Grown
  cases parent with
  | none =>
    refine ⟨⟨?_,by simp⟩,by simp⟩
    unfold Sound at sound ⊢
    simp only [List.flatMap_append, List.flatMap_singleton, List.append_nil, List.length_append, List.length_singleton,
      List.range_succ]
    have moved := (@List.perm_append_comm _ [forest.nodes.length] (forest.nodes.flatMap SpanNode.children)).append_left
      forest.roots
    rw [List.append_assoc]
    refine moved.trans ?_
    rw [← List.append_assoc]
    exact sound.append_right _
  | some p =>
    have inside : p < (forest.nodes ++ [(⟨span,[]⟩ : SpanNode)]).length := by
      have old := within p rfl
      simp only [List.length_append, List.length_singleton]
      omega
    refine ⟨⟨?_,by simp⟩,by simp⟩
    unfold Sound at sound ⊢
    simp only [List.length_modify, List.length_append, List.length_singleton, List.range_succ]
    have added := (addChild_perm forest.nodes.length inside).append_left forest.roots
    simp only [List.flatMap_append, List.flatMap_singleton, List.append_nil] at added
    refine added.trans (List.perm_middle.trans ?_)
    exact (sound.cons _).trans (List.perm_append_singleton _ _).symm

theorem grown_trans {first second third : ElidableForest} (before : Grown first second) (after : Grown second third) :
    Grown first third := ⟨after.1,before.2.trans after.2⟩

theorem grown_refl {forest : ElidableForest} (sound : Sound forest) : Grown forest forest := ⟨sound,le_refl _⟩

section
variable {language : SupportLang} {minBodyLines minCommentLines : Nat} {forest : ElidableForest} {parent : Option Nat}

theorem flushGroupableRun_grown (sound : Sound forest) (within : ∀ p ∈ parent, p < forest.nodes.length) (run : Run) :
    Grown forest (flushGroupableRun minBodyLines run forest parent) := by
  unfold flushGroupableRun
  split
  next => exact grown_refl sound
  next first last count =>
    split
    next => exact grown_refl sound
    next =>
      split
      next => exact grown_refl sound
      next =>
        simp only
        split
        next => exact (push_grown sound within _).1
        next => exact grown_refl sound

theorem groupRuns_grown (sound : Sound forest) (within : ∀ p ∈ parent, p < forest.nodes.length) (children : List Node)
    (run : Run) : Grown forest (groupRuns language minBodyLines parent children run forest) := by
  induction children generalizing run forest with
  | nil => exact flushGroupableRun_grown sound within run
  | cons child rest ih =>
    unfold groupRuns
    split
    next => exact ih sound within _
    next =>
      have flushed := @flushGroupableRun_grown minBodyLines _ _ sound within run
      exact grown_trans flushed (ih flushed.1 (fun p member => (within p member).trans_le flushed.2) none)

theorem bodySpan_grown (sound : Sound forest) (within : ∀ p ∈ parent, p < forest.nodes.length) (node : Node) :
    Grown forest (bodySpan language minBodyLines node parent forest).1 ∧
      ∀ p ∈ (bodySpan language minBodyLines node parent forest).2,
        p < (bodySpan language minBodyLines node parent forest).1.nodes.length := by
  unfold bodySpan
  split
  next =>
    have pushed := push_grown sound within ⟨node.startLine + 1,node.endLine - 1⟩
    refine ⟨pushed.1,fun p member => ?_⟩
    simp only [Prod.map_snd, Option.mem_def, Option.some.injEq] at member
    exact member ▸ pushed.2
  next => exact ⟨grown_refl sound,within⟩

theorem commentSpan_grown (sound : Sound forest) (within : ∀ p ∈ parent, p < forest.nodes.length) (node : Node) :
    Grown forest (commentSpan minCommentLines node parent forest) := by
  unfold commentSpan
  split
  next => exact (push_grown sound within _).1
  next => exact grown_refl sound

mutual

theorem collectElidableTree_grown (node : Node) (forest : ElidableForest) (parent : Option Nat) (sound : Sound forest)
    (within : ∀ p ∈ parent, p < forest.nodes.length) :
    Grown forest (collectElidableTree language minBodyLines minCommentLines node parent forest) := by
  cases node with
  | mk kind startRow endRow endColumn children =>
    unfold collectElidableTree
    simp only
    split
    next => exact commentSpan_grown sound within _
    next =>
      obtain ⟨bodied,inside⟩ := @bodySpan_grown language minBodyLines _ _ sound within
        (.mk kind startRow endRow endColumn children)
      have runs := @groupRuns_grown language minBodyLines _ _ bodied.1 inside children none
      have rest := collectChildren_grown children _ _ runs.1 (fun p member => (inside p member).trans_le runs.2)
      exact grown_trans bodied (grown_trans runs rest)

theorem collectChildren_grown (children : List Node) (forest : ElidableForest) (parent : Option Nat) (sound : Sound forest)
    (within : ∀ p ∈ parent, p < forest.nodes.length) :
    Grown forest (collectChildren language minBodyLines minCommentLines children parent forest) := by
  cases children with
  | nil => exact grown_refl sound
  | cons child rest =>
    unfold collectChildren
    have first := collectElidableTree_grown child forest parent sound within
    have others := collectChildren_grown rest _ parent first.1 (fun p member => (within p member).trans_le first.2)
    exact grown_trans first others

end

end

theorem forestOf_sound (language : SupportLang) (tree : Node) (options : SummaryOptions) :
    Sound (forestOf language tree options) :=
  (collectElidableTree_grown tree ⟨[],[]⟩ none (List.Perm.refl _) (by simp)).1

section stages
variable (forest : ElidableForest)

/- The spans that wait to be unfolded after the first so many have been, breadth first. -/
def waiting : Nat → List Nat
  | 0 => forest.roots
  | k + 1 =>
      match waiting k with
      | [] => []
      | idx :: rest => rest ++ (nodeAt forest idx).children

def opened (k : Nat) : List Nat := (List.range k).filterMap fun i => (waiting forest i).head?

/- The count of visible lines that the loop keeps. -/
def visibleAfter (totalLines : Nat) : Nat → Nat
  | 0 => totalLines - lineTotal forest forest.roots
  | k + 1 =>
      match waiting forest k with
      | [] => visibleAfter totalLines k
      | idx :: _ => visibleAfter totalLines k + revealed forest idx

/- What the saturating subtractions have cut off. -/
def cutOff (totalLines : Nat) : Nat → Nat
  | 0 => lineTotal forest forest.roots - totalLines
  | k + 1 =>
      match waiting forest k with
      | [] => cutOff totalLines k
      | idx :: _ => cutOff totalLines k + (childLines forest idx - lines (spanAt forest idx))

def hiddenAfter (totalLines k : Nat) : Nat := hiddenLines ((waiting forest k).map (spanAt forest)) totalLines

end stages

theorem lineTotal_append (forest : ElidableForest) (xs ys : List Nat) :
    lineTotal forest (xs ++ ys) = lineTotal forest xs + lineTotal forest ys := by
  simp [lineTotal]

theorem visible_counts (forest : ElidableForest) (totalLines k : Nat) :
    visibleAfter forest totalLines k + lineTotal forest (waiting forest k) = totalLines + cutOff forest totalLines k := by
  induction k with
  | zero =>
    simp only [visibleAfter, waiting, cutOff]
    omega
  | succ k ih =>
    cases queue : waiting forest k with
    | nil => simpa [visibleAfter, waiting, cutOff, queue] using ih
    | cons idx rest =>
      have parts : lineTotal forest (idx :: rest) = lines (spanAt forest idx) + lineTotal forest rest := by simp [lineTotal]
      simp only [queue, parts] at ih
      simp only [visibleAfter, waiting, cutOff, queue, lineTotal_append, revealed, childLines]
      omega

section
variable {forest : ElidableForest}

theorem flatMap_children (forest : ElidableForest) :
    (List.range forest.nodes.length).flatMap (fun i => (nodeAt forest i).children) = forest.nodes.flatMap SpanNode.children := by
  have nodes : (List.range forest.nodes.length).map (nodeAt forest) = forest.nodes := by
    apply List.ext_getElem
    · simp
    · intro i inside _
      simp only [List.length_map, List.length_range] at inside
      simp [nodeAt, inside]
  calc (List.range forest.nodes.length).flatMap (fun i => (nodeAt forest i).children)
      = ((List.range forest.nodes.length).map (nodeAt forest)).flatMap SpanNode.children := by rw [List.flatMap_map]
    _ = forest.nodes.flatMap SpanNode.children := by rw [nodes]

variable {k idx unfoldUntil i j : Nat} {rest : List Nat}

theorem opened_succ (queue : waiting forest k = idx :: rest) : opened forest (k + 1) = opened forest k ++ [idx] := by
  simp [opened, List.range_succ, queue]

theorem waiting_earlier (more : waiting forest (k + 1) ≠ []) : waiting forest k ≠ [] := by
  intro empty
  simp [waiting, empty] at more

theorem opened_length (more : waiting forest k ≠ []) : (opened forest k).length = k := by
  induction k with
  | zero => rfl
  | succ k ih =>
    have before := waiting_earlier more
    obtain ⟨idx,rest,queue⟩ := List.exists_cons_of_ne_nil before
    rw [opened_succ queue, List.length_append, ih before, List.length_singleton]

theorem opened_waiting_perm (k : Nat) : (opened forest k ++ waiting forest k).Perm
    (forest.roots ++ (opened forest k).flatMap fun i => (nodeAt forest i).children) := by
  induction k with
  | zero => simp [opened, waiting]
  | succ k ih =>
    cases queue : waiting forest k with
    | nil =>
      have same : opened forest (k + 1) = opened forest k := by simp [opened, List.range_succ, queue]
      rw [queue] at ih
      rw [same]
      simpa [waiting, queue] using ih
    | cons idx rest =>
      have next : waiting forest (k + 1) = rest ++ (nodeAt forest idx).children := by simp [waiting, queue]
      rw [queue] at ih
      rw [opened_succ queue, next, List.flatMap_append, List.flatMap_singleton, ← List.append_assoc,
        ← List.append_assoc, List.append_assoc (opened forest k)]
      exact ih.append_right _

/- No span is met twice. -/
theorem met_once (sound : Sound forest) (k : Nat) :
    (opened forest k ++ waiting forest k).Subperm (List.range forest.nodes.length) := by
  induction k with
  | zero =>
    have roots := (List.sublist_append_left forest.roots (forest.nodes.flatMap SpanNode.children)).subperm
    simpa [opened, waiting] using roots.trans sound.subperm
  | succ k ih =>
    have sofar : (opened forest (k + 1)).Subperm (List.range forest.nodes.length) := by
      cases queue : waiting forest k with
      | nil =>
        have same : opened forest (k + 1) = opened forest k := by simp [opened, List.range_succ, queue]
        rw [same]
        exact (List.sublist_append_left _ _).subperm.trans ih
      | cons idx rest =>
        rw [opened_succ queue]
        rw [queue] at ih
        have part : (opened forest k ++ [idx]).Sublist (opened forest k ++ idx :: rest) :=
          (List.Sublist.refl _).append (by simp)
        exact part.subperm.trans ih
    obtain ⟨indices,same,sub⟩ := sofar
    have children := sub.flatMap fun i => (nodeAt forest i).children
    rw [flatMap_children] at children
    have all : (forest.roots ++ (opened forest (k + 1)).flatMap fun i => (nodeAt forest i).children).Perm
        (forest.roots ++ indices.flatMap fun i => (nodeAt forest i).children) :=
      (same.symm.flatMap_right _).append_left _
    have inside := ((List.Sublist.refl forest.roots).append children).subperm.trans sound.subperm
    exact ((opened_waiting_perm (k + 1)).trans all).subperm.trans inside

theorem waiting_nodup (sound : Sound forest) (k : Nat) : (waiting forest k).Nodup := by
  obtain ⟨indices,same,sub⟩ := met_once sound k
  have met := same.nodup_iff.mp (sub.nodup List.nodup_range)
  exact (List.nodup_append.mp met).2.1

theorem waiting_bounded (sound : Sound forest) (more : waiting forest k ≠ []) : k < forest.nodes.length := by
  have fewer := (met_once sound k).length_le
  have positive := List.length_pos_iff.mpr more
  rw [List.length_append, opened_length more, List.length_range] at fewer
  omega

/- The state of the loop after `k` unfoldings. -/
def reached (forest : ElidableForest) (totalLines k : Nat) : Unfolding :=
  ⟨(waiting forest k).toFinset,waiting forest k,visibleAfter forest totalLines k⟩

theorem reached_next (sound : Sound forest) (totalLines : Nat) (queue : waiting forest k = idx :: rest) :
    reached forest totalLines (k + 1) = ⟨(reached forest totalLines k).folded.erase idx ∪ (nodeAt forest idx).children.toFinset,
      rest ++ (nodeAt forest idx).children,visibleAfter forest totalLines k + revealed forest idx⟩ := by
  have distinct := waiting_nodup sound k
  rw [queue, List.nodup_cons] at distinct
  have next : waiting forest (k + 1) = rest ++ (nodeAt forest idx).children := by simp [waiting, queue]
  have others : (idx :: rest).toFinset.erase idx = rest.toFinset := by
    rw [List.toFinset_cons, Finset.erase_insert (by simpa using distinct.1)]
  simp only [reached, next, queue, others, List.toFinset_append]
  simp [visibleAfter, queue]

/- The loop ends after some number of unfoldings, none of which came too late or showed too much. -/
structure Stops (forest : ElidableForest) (totalLines unfoldUntil unfoldLimit k : Nat) : Prop where
  earlier : ∀ i < k, waiting forest i ≠ [] ∧ visibleAfter forest totalLines i < unfoldUntil
  within : 0 < k → visibleAfter forest totalLines k ≤ unfoldLimit
  done : waiting forest k = [] ∨ unfoldUntil ≤ visibleAfter forest totalLines k ∨
    unfoldLimit < visibleAfter forest totalLines (k + 1)

theorem unfoldLoop_stops (sound : Sound forest) (totalLines unfoldUntil unfoldLimit fuel k : Nat)
    (enough : forest.nodes.length < fuel + k)
    (earlier : ∀ i < k, waiting forest i ≠ [] ∧ visibleAfter forest totalLines i < unfoldUntil)
    (within : 0 < k → visibleAfter forest totalLines k ≤ unfoldLimit) :
    ∃ j, Stops forest totalLines unfoldUntil unfoldLimit j ∧
      (unfoldLoop forest unfoldUntil unfoldLimit fuel (reached forest totalLines k)).folded = (waiting forest j).toFinset := by
  induction fuel generalizing k with
  | zero =>
    cases k with
    | zero => omega
    | succ k =>
      have bounded := waiting_bounded sound (earlier k (Nat.lt_succ_self k)).1
      omega
  | succ fuel ih =>
    cases queue : waiting forest k with
    | nil =>
      refine ⟨k,⟨earlier,within,.inl queue⟩,?_⟩
      simp [unfoldLoop, reached, queue]
    | cons idx rest =>
      have next : visibleAfter forest totalLines (k + 1) = visibleAfter forest totalLines k + revealed forest idx := by
        simp [visibleAfter, queue]
      have member : idx ∈ (waiting forest k).toFinset := by simp [queue]
      by_cases shown : unfoldUntil ≤ visibleAfter forest totalLines k
      · refine ⟨k,⟨earlier,within,.inr (.inl shown)⟩,?_⟩
        simp [unfoldLoop, reached, queue, shown]
      · by_cases wide : unfoldLimit < visibleAfter forest totalLines k + revealed forest idx
        · refine ⟨k,⟨earlier,within,.inr (.inr (next ▸ wide))⟩,?_⟩
          simp [unfoldLoop, reached, queue, shown, wide]
        · have step : unfoldLoop forest unfoldUntil unfoldLimit (fuel + 1) (reached forest totalLines k) =
              unfoldLoop forest unfoldUntil unfoldLimit fuel (reached forest totalLines (k + 1)) := by
            rw [reached_next sound totalLines queue]
            simp [unfoldLoop, reached, queue, shown, wide]
          rw [step]
          apply ih (k + 1) (by omega)
          · intro i before
            rcases Nat.lt_succ_iff_lt_or_eq.mp before with sooner | rfl
            · exact earlier i sooner
            · exact ⟨by simp [queue],by omega⟩
          · intro _
            rw [next]
            omega

theorem foldedSpans_hidden (sound : Sound forest) (totalLines k : Nat) :
    hiddenLines (foldedSpans forest (waiting forest k).toFinset) totalLines = hiddenAfter forest totalLines k := by
  have known : ∀ i ∈ waiting forest k, i < forest.nodes.length := fun i member =>
    List.mem_range.mp ((met_once sound k).subset (List.mem_append_right _ member))
  apply List.countP_congr
  intro line _
  rw [isElided_iff, isElided_iff]
  simp only [foldedSpans, List.mem_map, List.mem_filter, List.mem_range, List.mem_toFinset, decide_eq_true_eq]
  constructor
  · rintro ⟨span,⟨i,⟨_,member⟩,same⟩,covered⟩
    exact ⟨span,⟨i,member,same⟩,covered⟩
  · rintro ⟨span,⟨i,member,same⟩,covered⟩
    exact ⟨span,⟨i,⟨known i member,member⟩,same⟩,covered⟩

theorem selectFoldedSpans_roots (forest : ElidableForest) (totalLines unfoldLimit : Nat) :
    selectFoldedSpans forest totalLines 0 unfoldLimit = foldedSpans forest (waiting forest 0).toFinset := by
  simp [selectFoldedSpans, waiting]

/- With a target the spans that wait are folded when the loop stops. -/
theorem selectFoldedSpans_stops (sound : Sound forest) (totalLines : Nat) (positive : 0 < unfoldUntil) (unfoldLimit : Nat) : ∃ j, Stops forest totalLines unfoldUntil unfoldLimit j ∧
      selectFoldedSpans forest totalLines unfoldUntil unfoldLimit = foldedSpans forest (waiting forest j).toFinset := by
  have roots : ∑ i ∈ forest.roots.toFinset, lines (spanAt forest i) = lineTotal forest forest.roots :=
    List.sum_toFinset _ (waiting_nodup sound 0)
  have first : reached forest totalLines 0 = ⟨forest.roots.toFinset,forest.roots,
      totalLines - ∑ i ∈ forest.roots.toFinset,lines (spanAt forest i)⟩ := by
    rw [roots]
    rfl
  obtain ⟨j,stops,folded⟩ := unfoldLoop_stops sound totalLines unfoldUntil unfoldLimit (forest.nodes.length + 1) 0
    (by omega) (by simp) (by simp)
  refine ⟨j,stops,?_⟩
  unfold selectFoldedSpans
  by_cases none : forest.roots.toFinset = ∅
  · have empty : forest.roots = [] := List.toFinset_eq_empty_iff _ |>.mp none
    have start : j = 0 := by
      by_contra later
      exact (stops.earlier 0 (by omega)).1 empty
    simp [start, waiting, empty]
  · rw [if_neg (by simp [none]; omega)]
    simp only
    rw [← first, folded]

theorem visibleAfter_mono (totalLines : Nat) (before : i ≤ j) :
    visibleAfter forest totalLines i ≤ visibleAfter forest totalLines j := by
  induction before with
  | refl => exact le_refl _
  | step _ ih =>
    refine ih.trans ?_
    simp only [visibleAfter]
    split
    · exact le_refl _
    · exact Nat.le_add_right _ _

theorem waiting_before (before : i ≤ j) (more : waiting forest j ≠ []) : waiting forest i ≠ [] := by
  induction before with
  | refl => exact more
  | step _ ih => exact ih (waiting_earlier more)

/- By the count, the span that is unfolded next shows something. -/
def Shows (forest : ElidableForest) (k : Nat) : Prop :=
  ∃ idx ∈ (waiting forest k).head?, childLines forest idx < lines (spanAt forest idx)

theorem shows_iff (totalLines k : Nat) :
    Shows forest k ↔ visibleAfter forest totalLines k < visibleAfter forest totalLines (k + 1) := by
  unfold Shows
  cases queue : waiting forest k with
  | nil => simp [visibleAfter, queue]
  | cons idx rest =>
    simp only [List.head?_cons, Option.mem_def, Option.some.injEq, exists_eq_left', visibleAfter, queue, revealed]
    omega

/- Some target and limit make the loop stop after `k + 1` unfoldings. -/
def CanStop (forest : ElidableForest) (k : Nat) : Prop :=
  waiting forest k ≠ [] ∧ (waiting forest (k + 1) = [] ∨ Shows forest k ∨ Shows forest (k + 1))

theorem stops_canStop {totalLines unfoldUntil unfoldLimit k : Nat}
    (stops : Stops forest totalLines unfoldUntil unfoldLimit (k + 1)) : CanStop forest k := by
  have before := stops.earlier k (Nat.lt_succ_self k)
  refine ⟨before.1,?_⟩
  rcases stops.done with empty | enough | wide
  · exact .inl empty
  · exact .inr (.inl ((shows_iff totalLines k).mpr (before.2.trans_le enough)))
  · exact .inr (.inr ((shows_iff totalLines (k + 1)).mpr ((stops.within (Nat.succ_pos k)).trans_lt wide)))

theorem stops_not_before {totalLines unfoldUntil k j : Nat} (more : waiting forest k ≠ [])
    (until' : visibleAfter forest totalLines k < unfoldUntil)
    (stops : Stops forest totalLines unfoldUntil (visibleAfter forest totalLines (k + 1)) j) : k < j := by
  by_contra early
  have before : j ≤ k := Nat.not_lt.mp early
  rcases stops.done with empty | enough | wide
  · exact waiting_before before more empty
  · have less := @visibleAfter_mono forest _ _ totalLines before
    omega
  · have less : visibleAfter forest totalLines (j + 1) ≤ visibleAfter forest totalLines (k + 1) :=
      visibleAfter_mono totalLines (Nat.succ_le_succ before)
    omega

theorem canStop_stops (canStop : CanStop forest k) (totalLines : Nat) :
    ∃ unfoldUntil, 0 < unfoldUntil ∧ ∀ j, Stops forest totalLines unfoldUntil (visibleAfter forest totalLines (k + 1)) j →
      j = k + 1 := by
  obtain ⟨more,reason⟩ := canStop
  have grows : visibleAfter forest totalLines k ≤ visibleAfter forest totalLines (k + 1) :=
    visibleAfter_mono totalLines (Nat.le_succ k)
  by_cases shows : Shows forest k
  · have strictly := (shows_iff totalLines k).mp shows
    refine ⟨visibleAfter forest totalLines (k + 1),by omega,fun j stops => ?_⟩
    have after := stops_not_before more strictly stops
    by_contra other
    have still := (stops.earlier (k + 1) (by omega)).2
    omega
  · refine ⟨visibleAfter forest totalLines (k + 1) + 1,by omega,fun j stops => ?_⟩
    have after := stops_not_before more (by omega) stops
    by_contra other
    have next : k + 1 < j := by omega
    rcases reason with empty | showed | shown
    · exact (stops.earlier (k + 1) next).1 empty
    · exact shows showed
    · have strictly := (shows_iff totalLines (k + 1)).mp shown
      have less : visibleAfter forest totalLines (k + 1 + 1) ≤ visibleAfter forest totalLines j :=
        visibleAfter_mono totalLines next
      have within := stops.within (by omega)
      omega

end

/- The lines of the folded spans, each span counted, are no more than those they hide and those cut off, or the
   spans hide no fewer lines than the roots: wherever the loop can stop. -/
def CountsHold (forest : ElidableForest) (totalLines : Nat) : Prop :=
  ∀ k, CanStop forest k →
    lineTotal forest (waiting forest (k + 1)) ≤ hiddenAfter forest totalLines (k + 1) + cutOff forest totalLines (k + 1) ∨
      hiddenAfter forest totalLines 0 ≤ hiddenAfter forest totalLines (k + 1)

/- The options of a summary with a target and a limit; without a target the roots are folded. -/
def withTarget (options : SummaryOptions) (unfoldUntil unfoldLimit : Nat) : SummaryOptions :=
  { options with unfoldUntilLines := some unfoldUntil, unfoldLimitLines := some unfoldLimit }

theorem summarizeCode_kept (language : SupportLang) (tree : Node) (source : JsString) (options : SummaryOptions)
    {k : Nat} {unfoldUntil unfoldLimit : Nat}
    (folded : selectFoldedSpans (forestOf language tree options) (countLines source) unfoldUntil unfoldLimit =
      foldedSpans (forestOf language tree options) (waiting (forestOf language tree options) k).toFinset) :
    keptLines (summarizeCode (some (language, tree)) source (withTarget options unfoldUntil unfoldLimit)).segments +
      hiddenAfter (forestOf language tree options) (countLines source) k = countLines source := by
  by_cases empty : source = []
  · simp [summarizeCode, unparsedResult, empty, countLines, keptLines, hiddenAfter, hiddenLines]
  · have kept := keptLines_normalized (sourceLines source)
      (foldedSpans (forestOf language tree options) (waiting (forestOf language tree options) k).toFinset) (countLines source)
    rw [foldedSpans_hidden (forestOf_sound language tree options), ← folded] at kept
    simpa [summarizeCode, empty, withTarget, forestOf] using kept

theorem summarizeCode_partitions (language : SupportLang) (tree : Node) (source : JsString) (options : SummaryOptions) :
    Partitions (sourceLines source) (countLines source) (summarizeCode (some (language, tree)) source options).segments := by
  unfold summarizeCode
  by_cases empty : source = []
  · simp only [if_pos empty, unparsedResult]
    rw [empty]
    exact ⟨rfl,by simp,.nil,by simp⟩
  · simp only [if_neg empty]
    obtain ⟨kind,cut⟩ := buildSegments_cut (sourceLines source) (countLines source) _
    exact cut_partitions cut

/- The segments partition the file, and with a target no more lines are kept than the limit, or than are kept when
   every root is folded. -/
structure Summarized (language : SupportLang) (tree : Node) (source : JsString) (options : SummaryOptions) : Prop where
  partitions : Partitions (sourceLines source) (countLines source) (summarizeCode (some (language, tree)) source options).segments
  limited : ∀ unfoldUntil unfoldLimit, 0 < unfoldUntil →
    keptLines (summarizeCode (some (language, tree)) source (withTarget options unfoldUntil unfoldLimit)).segments ≤
      max unfoldLimit (keptLines (summarizeCode (some (language, tree)) source (withTarget options 0 unfoldLimit)).segments)

theorem summarized_iff (language : SupportLang) (tree : Node) (source : JsString) (options : SummaryOptions) :
    Summarized language tree source options ↔ CountsHold (forestOf language tree options) (countLines source) := by
  have sound := forestOf_sound language tree options
  constructor
  · intro summarized k canStop
    obtain ⟨unfoldUntil,positive,only⟩ := canStop_stops canStop (countLines source)
    have limited := summarized.limited unfoldUntil
      (visibleAfter (forestOf language tree options) (countLines source) (k + 1)) positive
    obtain ⟨j,stops,folded⟩ := selectFoldedSpans_stops sound (countLines source) positive _
    have here := only j stops
    subst here
    have kept := summarizeCode_kept language tree source options folded
    have roots := summarizeCode_kept language tree source options
      (selectFoldedSpans_roots (forestOf language tree options) (countLines source)
        (visibleAfter (forestOf language tree options) (countLines source) (k + 1)))
    have counts := visible_counts (forestOf language tree options) (countLines source) (k + 1)
    have bounded := le_max_iff.mp limited
    omega
  · intro holds
    refine ⟨summarizeCode_partitions language tree source options,fun unfoldUntil unfoldLimit positive => ?_⟩
    obtain ⟨j,stops,folded⟩ := selectFoldedSpans_stops sound (countLines source) positive unfoldLimit
    have kept := summarizeCode_kept language tree source options folded
    have roots := summarizeCode_kept language tree source options
      (selectFoldedSpans_roots (forestOf language tree options) (countLines source) unfoldLimit)
    rw [le_max_iff]
    cases j with
    | zero => omega
    | succ k =>
      have counted := holds k (stops_canStop stops)
      have within := stops.within (Nat.succ_pos k)
      have counts := visible_counts (forestOf language tree options) (countLines source) (k + 1)
      omega

def rustElidable : List JsString :=
  [js "block", js "array_expression", js "tuple_expression", js "struct_expression", js "match_block",
    js "raw_string_literal", js "declaration_list", js "field_declaration_list", js "ordered_field_declaration_list",
    js "enum_variant_list", js "where_clause", js "use_list", js "macro_definition", js "token_tree"]

def rust : SupportLang where
  isCommentKind := fun kind => kind == js "block_comment"
  isElidableKind := rustElidable.contains
  isGroupableKind := fun kind => kind == js "use_declaration" || kind == js "extern_crate_declaration"

def useSource : JsString :=
  js "use a;\nuse b;\nuse c;\nuse d;\nmod m;\nuse e;\nuse f::\x7b\n g,\n h,\n i,\n j,\n\x7d;\nuse k;\n"

def useLine (row : Nat) : Node := .mk (js "use_declaration") row row 6 []

def useTree : Node := .mk (js "source_file") 0 13 0 [useLine 0, useLine 1, useLine 2, useLine 3,
  .mk (js "mod_item") 4 4 6 [], useLine 5,
  .mk (js "use_declaration") 6 11 2 [.mk (js "scoped_use_list") 6 11 1 [.mk (js "use_list") 6 11 1 []]], useLine 12]

def useOptions : SummaryOptions := ⟨none,none,none,none⟩

/-- The second run counts the list inside it twice, so that after the first run is unfolded seven lines are kept
    where three are counted. -/
theorem run_counted_twice :
    max 6 (keptLines (summarizeCode (some (rust, useTree)) useSource (withTarget useOptions 0 6)).segments) <
      keptLines (summarizeCode (some (rust, useTree)) useSource (withTarget useOptions 3 6)).segments := by
  decide +kernel

end CodeSummary
