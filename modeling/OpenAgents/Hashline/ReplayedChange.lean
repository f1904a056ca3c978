import OpenAgents.Hashline.Snapshots
import OpenAgents.Hashline.ReplacementGroups
import Mathlib.Data.List.Find

/- Replaying edits onto a later text. Boundary repair reads the lines beside a range, which replay does
   not compare: the change is the one made to the snapshot where these lines are the same. -/
namespace Hashline
open JsText

/- The lines in `low ≤ i < high`, counted from 0, are the same. -/
def Agree (prev curr : List JsString) (low high : Nat) : Prop := ∀ i, low ≤ i → i < high → prev[i]? = curr[i]?

/- The range of a group, with as many lines above and below as it has payload rows. -/
def BordersAgree (g : ReplacementGroup) (prev curr : List JsString) : Prop :=
  Agree prev curr (g.startLine - 1 - g.payload.length) (g.startLine - 1) ∧
    Agree prev curr g.endLine (g.endLine + g.payload.length)

section Readers
variable {prev curr : List JsString}

theorem slice_agree {low n : Nat} (agree : Agree prev curr low (low + n)) : (prev.drop low).take n = (curr.drop low).take n := by
  apply List.ext_getElem?
  intro i
  rw [List.getElem?_take, List.getElem?_take]
  split
  · rw [List.getElem?_drop, List.getElem?_drop]
    exact agree (low + i) (by omega) (by omega)
  · rfl

theorem agree_part {low high low' high' : Nat} (agree : Agree prev curr low high) (after : low ≤ low') (before : high' ≤ high) :
    Agree prev curr low' high' := fun i least less => agree i (by omega) (by omega)

theorem findLargest_congr {limit : Nat} {p q : Nat → Bool} (same : ∀ k, 1 ≤ k → k ≤ limit → p k = q k) :
    findLargest limit p = findLargest limit q := by
  unfold findLargest
  congr 1
  apply List.find?_congr
  intro k mem
  have bounds := List.mem_range'_1.mp (List.mem_reverse.mp mem)
  exact same k bounds.1 (by omega)

theorem takeWhile_congr {α : Type} {p q : α → Bool} {xs : List α} (same : ∀ x ∈ xs, p x = q x) :
    xs.takeWhile p = xs.takeWhile q := by
  induction xs with
  | nil => rfl
  | cons x rest ih =>
    rw [List.forall_mem_cons] at same
    rw [List.takeWhile_cons, List.takeWhile_cons, same.1, ih same.2]

end Readers

section Repairs
variable {prev curr : List JsString} {g : ReplacementGroup}

theorem above_same (borders : BordersAgree g prev curr) {j : Nat} (few : j ≤ min g.payload.length (g.startLine - 1)) :
    linesAbove g prev j = linesAbove g curr j := by
  apply slice_agree
  exact agree_part borders.1 (by omega) (by omega)

theorem below_same (borders : BordersAgree g prev curr) {k : Nat} (few : k ≤ g.payload.length) :
    linesBelow g prev k = linesBelow g curr k := by
  apply slice_agree
  exact agree_part borders.2 (by omega) (by omega)

theorem suffix_same (lengths : prev.length = curr.length) (borders : BordersAgree g prev curr) (delta : DelimiterBalance) :
    findDuplicateSuffix g prev delta = findDuplicateSuffix g curr delta := by
  unfold findDuplicateSuffix
  rw [lengths]
  apply findLargest_congr
  intro k _ few
  rw [below_same borders (by omega)]

theorem prefix_same (borders : BordersAgree g prev curr) (delta : DelimiterBalance) :
    findDuplicatePrefix g prev delta = findDuplicatePrefix g curr delta := by
  apply findLargest_congr
  intro j _ few
  rw [above_same borders few]

theorem leading_same (borders : BordersAgree g prev curr) :
    countDuplicateLeadingBoundaryLines g prev = countDuplicateLeadingBoundaryLines g curr := by
  apply findLargest_congr
  intro j _ few
  rw [above_same borders few]

theorem trailing_same (lengths : prev.length = curr.length) (borders : BordersAgree g prev curr) :
    countDuplicateTrailingBoundaryLines g prev = countDuplicateTrailingBoundaryLines g curr := by
  unfold countDuplicateTrailingBoundaryLines
  rw [lengths]
  apply findLargest_congr
  intro k _ few
  rw [below_same borders (by omega)]

theorem echo_same (lengths : prev.length = curr.length) (borders : BordersAgree g prev curr) :
    findBoundaryEcho g prev = findBoundaryEcho g curr := by
  unfold findBoundaryEcho
  rw [leading_same borders, trailing_same lengths borders]

/-- The range holds a line, and its lines are the same in both texts. -/
structure RangeAgrees (g : ReplacementGroup) (prev curr : List JsString) : Prop where
  first : 1 ≤ g.startLine
  some_line : 1 ≤ g.deletes.length
  agree : Agree prev curr (g.startLine - 1) g.endLine

theorem delta_same (range : RangeAgrees g prev curr) : groupDelta g prev = groupDelta g curr := by
  have first := range.first
  have some' := range.some_line
  have stop : g.endLine = g.startLine + g.deletes.length - 1 := rfl
  unfold groupDelta
  rw [slice_agree (agree_part range.agree (Nat.le_refl _) (by omega))]

theorem closers_same (range : RangeAgrees g prev curr) (delta : DelimiterBalance) :
    findDroppedSuffixClosers g prev delta = findDroppedSuffixClosers g curr delta := by
  have first := range.first
  have stop : g.endLine = g.startLine + g.deletes.length - 1 := rfl
  have lines : ∀ m ∈ List.range' 1 g.deletes.length,
      isStructuralCloser (prev[g.endLine - m]?.getD []) = isStructuralCloser (curr[g.endLine - m]?.getD []) := by
    intro m mem
    obtain ⟨least,less⟩ := List.mem_range'_1.mp mem
    rw [range.agree (g.endLine - m) (by omega) (by omega)]
  unfold findDroppedSuffixClosers
  simp only
  rw [takeWhile_congr lines]
  congr 1
  apply List.find?_congr
  intro m mem
  obtain ⟨least,less⟩ := List.mem_range'_1.mp (List.takeWhile_subset _ mem)
  rw [slice_agree (agree_part range.agree (by omega) (by omega))]

/-- What a repair takes depends on the range and its borders only. -/
theorem repair_same (lengths : prev.length = curr.length) (range : RangeAgrees g prev curr) (borders : BordersAgree g prev curr) :
    chooseRepair g prev = chooseRepair g curr := by
  unfold chooseRepair chooseBalanceRepair
  rw [echo_same lengths borders, delta_same range]
  simp only [suffix_same lengths borders, prefix_same borders, closers_same range]

end Repairs

/- The change -/

/- An edit without its place in the list. -/
def plain (edit : AppliedEdit) : AppliedEdit := cloneAppliedEdit edit 0

/- What boundary repair leaves of a group: the rows inserted and the lines deleted. -/
def leftOf (fileLines : List JsString) (g : ReplacementGroup) : List AppliedEdit :=
  (repairedGroup g (chooseRepair g fileLines)).map plain

/- The rows that edits insert into a text and the lines that they delete from it, by their anchors. -/
def changeMade (edits : List AppliedEdit) (fileLines : List JsString) : List AppliedEdit :=
  (repairReplacementBoundaries (cloneAppliedEdits edits) fileLines).edits.map plain

variable {prev curr : List JsString}

theorem left_same (fuel : Nat) (edits : List AppliedEdit)
    (same : ∀ g ∈ visitedGroups fuel edits, leftOf prev g = leftOf curr g) :
    (repairFuel prev fuel edits).edits.map plain = (repairFuel curr fuel edits).edits.map plain := by
  induction fuel generalizing edits with
  | zero => rfl
  | succ fuel ih =>
    cases edits with
    | nil => rfl
    | cons edit rest =>
      rw [visitedGroups] at same
      rw [repairFuel, repairFuel]
      cases found : findReplacementGroup (edit :: rest) with
      | none =>
        rw [found] at same
        simp only [List.map_cons, ih rest same]
      | some g =>
        rw [found, List.forall_mem_cons] at same
        obtain ⟨here,later⟩ := same
        unfold leftOf at here
        simp only [List.map_append, here, ih g.rest later]

/- Every anchored line stands in both texts, with one content. -/
def AnchorsAgree (edits : List AppliedEdit) (prev curr : List JsString) : Prop :=
  ∀ edit ∈ edits, ∀ anchor ∈ getEditAnchors edit,
    1 ≤ anchor.line ∧ anchor.line ≤ prev.length ∧ anchor.line ≤ curr.length ∧
      prev[anchor.line - 1]? = curr[anchor.line - 1]?

/- The text is what the edits, as repaired against the lines, make of the lines. -/
def CarriedOut (edits : List AppliedEdit) (before after : JsString) : Prop :=
  after = joinLines
    (applyRepaired (repairReplacementBoundaries (cloneAppliedEdits edits) (splitLines before)).edits (splitLines before)).fileLines

theorem mapM_applied {edits : List Edit} {applied : List AppliedEdit} (found : edits.mapM appliedEdit? = some applied) :
    edits = applied.map .applied := by
  induction edits generalizing applied with
  | nil =>
    cases found
    rfl
  | cons edit rest ih =>
    cases edit with
    | block edit => simp [List.mapM_cons, appliedEdit?] at found
    | applied edit =>
      cases later : rest.mapM appliedEdit? with
      | none => simp [List.mapM_cons, appliedEdit?, later] at found
      | some others =>
        simp only [List.mapM_cons, appliedEdit?, later, Option.bind_eq_bind, Option.bind_some, Option.pure_def,
          Option.some.injEq] at found
        rw [← found, List.map_cons, ← ih later]

theorem verified_agree {previousText currentText : JsString} {edits : List AppliedEdit}
    (verified : verifyAnchorContent previousText currentText (edits.map .applied) = true) :
    AnchorsAgree edits (splitLines previousText) (splitLines currentText) := by
  intro edit mem anchor anchored
  have all := List.all_eq_true.mp verified anchor.line
    (List.mem_flatMap.mpr ⟨.applied edit,List.mem_map_of_mem mem,List.mem_map_of_mem anchored⟩)
  simp only [Bool.and_eq_true, decide_eq_true_iff, beq_iff_eq] at all
  exact ⟨all.1.1,all.1.2.1,all.1.2.2,all.2⟩

theorem resolved_result {text : JsString} {edits : List AppliedEdit} (some' : edits ≠ []) :
    applyEdits text (edits.map .applied) = applyResolved text edits := by
  cases edits with
  | nil => exact absurd rfl some'
  | cons edit rest =>
    simp only [applyEdits, applied_only]
    rfl

theorem resolved_carried {text : JsString} {edits : List AppliedEdit} {result : ApplyResult}
    (applied : applyResolved text edits = .ok result) : CarriedOut edits text result.text := by
  unfold applyResolved at applied
  simp only at applied
  cases bounds : validateLineBounds (cloneAppliedEdits edits) (splitLines text) with
  | error message =>
    rw [bounds] at applied
    cases applied
  | ok _ =>
    rw [bounds] at applied
    cases applied
    rfl

theorem resolved_inside {text : JsString} {edits : List AppliedEdit} (inside : InBounds edits (splitLines text)) :
    ∃ result, applyResolved text edits = .ok result := by
  unfold applyResolved
  simp only [bounds_complete (cloned_bounds.mpr inside)]
  exact ⟨_,rfl⟩

/-- A group's range is anchored, line by line. -/
theorem range_agrees {edits : List AppliedEdit} {g : ReplacementGroup} (anchors : AnchorsAgree edits prev curr)
    (mem : g ∈ replacementGroups edits) : RangeAgrees g prev curr := by
  obtain ⟨part,found,inside⟩ := visited_inside mem
  obtain ⟨shape,some',lines⟩ := group_split found
  have some_line : 1 ≤ g.deletes.length := List.length_pos_iff.mpr some'
  have stop : g.endLine = g.startLine + g.deletes.length - 1 := rfl
  have anchored : ∀ line, g.startLine ≤ line → line ≤ g.endLine →
      1 ≤ line ∧ prev[line - 1]? = curr[line - 1]? := by
    intro line least most
    have listed : line ∈ g.deletes.map fun d => d.anchor.line := by
      rw [lines, List.mem_range'_1]
      omega
    obtain ⟨d,deleted,rfl⟩ := List.mem_map.mp listed
    have here : AppliedEdit.delete d ∈ edits := by
      apply inside
      rw [shape]
      exact List.mem_append_right _ (List.mem_append_left _ (List.mem_map_of_mem deleted))
    obtain ⟨first,-,-,same⟩ := anchors _ here d.anchor (by simp [getEditAnchors])
    exact ⟨first,same⟩
  refine ⟨(anchored g.startLine (Nat.le_refl _) (by omega)).1,some_line,?_⟩
  intro i least less
  have at' := (anchored (i + 1) (by omega) (by omega)).2
  rwa [Nat.add_sub_cancel] at at'

theorem cloned_agree {edits : List AppliedEdit} (anchors : AnchorsAgree edits prev curr) :
    AnchorsAgree (cloneAppliedEdits edits) prev curr := by
  intro edit mem anchor anchored
  have listed : anchor ∈ (cloneAppliedEdits edits).flatMap getEditAnchors := List.mem_flatMap.mpr ⟨edit,mem,anchored⟩
  rw [cloned_anchors] at listed
  obtain ⟨original,there,here⟩ := List.mem_flatMap.mp listed
  exact anchors original there anchor here

/-- A replay that is accepted has all its anchors at lines of one content, and carries out on the current text the
    change that the edits make to the snapshot, where for each replacement group the lines beside its range are the same
    in both texts, or repair leaves the same of the group in both. -/
theorem replay_same_change {previousText currentText : JsString} {edits : List Edit} {result : ApplyResult}
    (accepted : replaySessionChainOnCurrent previousText currentText edits = some result) :
    ∃ applied, edits = applied.map .applied ∧
      AnchorsAgree applied (splitLines previousText) (splitLines currentText) ∧
      CarriedOut applied currentText result.text ∧
      (∃ onSnapshot, applyEdits previousText edits = .ok onSnapshot ∧ CarriedOut applied previousText onSnapshot.text) ∧
      ((∀ g ∈ replacementGroups (cloneAppliedEdits applied), BordersAgree g (splitLines previousText) (splitLines currentText) ∨
          leftOf (splitLines previousText) g = leftOf (splitLines currentText) g) →
        changeMade applied (splitLines previousText) = changeMade applied (splitLines currentText)) := by
  unfold replaySessionChainOnCurrent at accepted
  split at accepted
  · cases accepted
  rename_i lengths
  split at accepted
  · cases accepted
  rename_i verified
  cases onCurrent : applyEdits currentText edits with
  | error message =>
    rw [onCurrent] at accepted
    cases accepted
  | ok made =>
    rw [onCurrent] at accepted
    simp only at accepted
    split at accepted
    · cases accepted
    rename_i changed
    cases accepted
    have more : edits ≠ [] := by
      rintro rfl
      cases onCurrent
      exact changed rfl
    cases found : edits.mapM appliedEdit? with
    | none =>
      -- a block among the edits is an error on the current text
      unfold applyEdits at onCurrent
      rw [found] at onCurrent
      split at onCurrent
      · rename_i empty
        exact absurd (List.isEmpty_iff.mp empty) more
      · cases onCurrent
    | some applied =>
      obtain rfl := mapM_applied found
      have some' : applied ≠ [] := by
        rintro rfl
        exact more rfl
      have anchors := verified_agree (Bool.not_eq_false _ ▸ verified)
      rw [resolved_result some'] at onCurrent
      have inside : InBounds applied (splitLines previousText) := by
        intro edit mem anchor anchored
        obtain ⟨first,last,-,-⟩ := anchors edit mem anchor anchored
        exact ⟨first,last⟩
      obtain ⟨onSnapshot,applies⟩ := resolved_inside inside
      have carried : CarriedOut applied currentText made.text := resolved_carried onCurrent
      refine ⟨applied,rfl,anchors,carried,
        ⟨onSnapshot,(resolved_result some').trans applies,resolved_carried applies⟩,?_⟩
      intro alike
      apply left_same
      intro g mem
      rcases alike g mem with borders | same
      · have range := range_agrees (cloned_agree anchors) mem
        unfold leftOf
        rw [repair_same (Classical.not_not.mp lengths) range borders]
      · exact same

def bordered : List AppliedEdit :=
  [.insert ⟨.beforeAnchor ⟨2⟩,js "a",1,0,.replacement⟩, .insert ⟨.beforeAnchor ⟨2⟩,js "y",1,1,.replacement⟩,
    .insert ⟨.beforeAnchor ⟨2⟩,js "b",1,2,.replacement⟩, .delete ⟨⟨2⟩,1,3⟩]

/-- A line further down than the payload reaches makes no difference. -/
theorem replay_same_change_far :
    changeMade bordered (splitLines (js "a\nx\nb\nc\nd\ne")) = changeMade bordered (splitLines (js "a\nx\nb\nc\nd\nf")) := by
  have accepts : (replaySessionChainOnCurrent (js "a\nx\nb\nc\nd\ne") (js "a\nx\nb\nc\nd\nf")
      (bordered.map .applied)).isSome = true := by decide +kernel
  obtain ⟨result,accepted⟩ := Option.isSome_iff_exists.mp accepts
  obtain ⟨applied,same,-,-,-,change⟩ := replay_same_change accepted
  obtain rfl : bordered = applied := List.map_injective_iff.mpr (fun _ _ equal => Edit.applied.inj equal) same
  apply change
  have left : ∀ g ∈ replacementGroups (cloneAppliedEdits bordered),
      leftOf (splitLines (js "a\nx\nb\nc\nd\ne")) g = leftOf (splitLines (js "a\nx\nb\nc\nd\nf")) g := by decide +kernel
  exact fun g mem => Or.inr (left g mem)

/-- The payload restates both neighbours in the snapshot; in the current text the line below is another. -/
theorem neighbour_changes_replay :
    (replaySessionChainOnCurrent (js "a\nx\nb") (js "a\nx\nc") (bordered.map .applied)).map ApplyResult.text =
        some (js "a\na\ny\nb\nc") ∧
      changeMade bordered (splitLines (js "a\nx\nb")) =
        [.insert ⟨.beforeAnchor ⟨2⟩,js "y",1,0,.replacement⟩, .delete ⟨⟨2⟩,1,0⟩] ∧
      changeMade bordered (splitLines (js "a\nx\nc")) ≠ changeMade bordered (splitLines (js "a\nx\nb")) := by
  decide +kernel

end Hashline
