import OpenAgents.Hashline.ApplyReference

/- The replacement groups of an edit list, and what boundary repair takes away from each:
   the repaired list is the list without that. -/
namespace Hashline
open JsText

def visitedGroups : Nat → List AppliedEdit → List ReplacementGroup
  | 0, _ => []
  | _ + 1, [] => []
  | fuel + 1, edit :: rest =>
      match findReplacementGroup (edit :: rest) with
      | none => visitedGroups fuel rest
      | some g => g :: visitedGroups fuel g.rest

def replacementGroups (edits : List AppliedEdit) : List ReplacementGroup := visitedGroups edits.length edits

theorem takeGroupInserts_split (lineNum anchorLine : Nat) (edits : List AppliedEdit) :
    edits = (takeGroupInserts lineNum anchorLine edits).1.map .insert ++ (takeGroupInserts lineNum anchorLine edits).2 := by
  induction edits with
  | nil => rfl
  | cons edit edits ih =>
    cases edit with
    | delete d => rfl
    | insert e =>
      rw [takeGroupInserts]
      split
      · simpa using ih
      · rfl

theorem takeGroupDeletes_split (lineNum expectedLine : Nat) (edits : List AppliedEdit) :
    edits = (takeGroupDeletes lineNum expectedLine edits).1.map .delete ++ (takeGroupDeletes lineNum expectedLine edits).2 ∧
      (takeGroupDeletes lineNum expectedLine edits).1.map (fun d => d.anchor.line) =
        List.range' expectedLine (takeGroupDeletes lineNum expectedLine edits).1.length := by
  induction edits generalizing expectedLine with
  | nil => exact ⟨rfl,rfl⟩
  | cons edit edits ih =>
    cases edit with
    | insert e => exact ⟨rfl,rfl⟩
    | delete d =>
      rw [takeGroupDeletes]
      split
      · rename_i here
        obtain ⟨split',lines⟩ := ih (expectedLine + 1)
        refine ⟨by simpa using split',?_⟩
        rw [List.map_cons, lines, here.2, List.length_cons, List.range'_succ]
      · exact ⟨rfl,rfl⟩

variable {g : ReplacementGroup} {fuel : Nat} {fileLines : List JsString}

/-- A group is the edits at its place, and its deletes take one line after the other. -/
theorem group_split {edits : List AppliedEdit} (found : findReplacementGroup edits = some g) :
    edits = g.inserts.map .insert ++ (g.deletes.map .delete ++ g.rest) ∧ g.deletes ≠ [] ∧
      g.deletes.map (fun d => d.anchor.line) = List.range' g.startLine g.deletes.length := by
  unfold findReplacementGroup at found
  split at found
  · rename_i anchor text lineNum index rest
    dsimp only at found
    split at found
    · contradiction
    · rename_i some'
      cases found
      have inserts := takeGroupInserts_split lineNum anchor.line
        (.insert ⟨.beforeAnchor anchor,text,lineNum,index,.replacement⟩ :: rest)
      obtain ⟨deletes,lines⟩ := takeGroupDeletes_split lineNum anchor.line
        (takeGroupInserts lineNum anchor.line
          (.insert ⟨.beforeAnchor anchor,text,lineNum,index,.replacement⟩ :: rest)).2
      refine ⟨?_,by simpa using some',lines⟩
      rw [← deletes]
      exact inserts
  · contradiction

/- The rows and the deletes that a repair drops from its group. -/
def takenAway (g : ReplacementGroup) (r : Repair) : List AppliedEdit :=
  let front := g.inserts.take (g.inserts.length - r.trailing)
  (front.take r.leading).map .insert ++ (g.inserts.drop (g.inserts.length - r.trailing)).map .insert ++
    (g.deletes.drop (g.deletes.length - r.spared)).map .delete

def takenFrom (fileLines : List JsString) (groups : List ReplacementGroup) : List AppliedEdit :=
  groups.flatMap fun g => takenAway g (chooseRepair g fileLines)

/- The edits that no group's own repair takes away. -/
def remainingEdits (edits : List AppliedEdit) (fileLines : List JsString) : List AppliedEdit :=
  edits.filter fun edit => edit ∉ takenFrom fileLines (replacementGroups edits)

theorem group_perm (g : ReplacementGroup) (r : Repair) :
    (g.inserts.map AppliedEdit.insert ++ g.deletes.map AppliedEdit.delete).Perm (repairedGroup g r ++ takenAway g r) := by
  have inserts : g.inserts.map AppliedEdit.insert =
      ((g.inserts.take (g.inserts.length - r.trailing)).take r.leading).map .insert ++ (keptInserts g r).map .insert ++
        (g.inserts.drop (g.inserts.length - r.trailing)).map .insert := by
    rw [keptInserts, ← List.map_append, List.take_append_drop, ← List.map_append, List.take_append_drop]
  have deletes : g.deletes.map AppliedEdit.delete =
      (keptDeletes g r).map .delete ++ (g.deletes.drop (g.deletes.length - r.spared)).map .delete := by
    rw [keptDeletes, ← List.map_append, List.take_append_drop]
  rw [inserts, deletes, repairedGroup, takenAway, List.perm_iff_count]
  intro edit
  simp only [List.count_append]
  omega

/-- Repair adds no edit and doubles none. -/
theorem repair_perm (fileLines : List JsString) (fuel : Nat) (edits : List AppliedEdit) :
    edits.Perm ((repairFuel fileLines fuel edits).edits ++ takenFrom fileLines (visitedGroups fuel edits)) := by
  induction fuel generalizing edits with
  | zero => simp [repairFuel, visitedGroups, takenFrom]
  | succ fuel ih =>
    cases edits with
    | nil => exact List.Perm.refl _
    | cons edit rest =>
      rw [repairFuel, visitedGroups]
      cases found : findReplacementGroup (edit :: rest) with
      | none => exact List.Perm.cons edit (ih rest)
      | some g =>
        obtain ⟨split',_,_⟩ := group_split found
        have here := group_perm g (chooseRepair g fileLines)
        have later := ih g.rest
        rw [List.perm_iff_count] at here later ⊢
        intro e
        have hereCount := here e
        have laterCount := later e
        rw [split']
        simp only [takenFrom, List.flatMap_cons, List.count_append] at hereCount laterCount ⊢
        omega

theorem repair_subset (edits : List AppliedEdit) (fileLines : List JsString) :
    (repairReplacementBoundaries edits fileLines).edits ⊆ edits := by
  intro edit mem
  exact (repair_perm fileLines edits.length edits).mem_iff.mpr (List.mem_append_left _ mem)

def AppliedEdit.index : AppliedEdit → Nat
  | .insert edit => edit.index
  | .delete edit => edit.index

theorem cloned_nodup (edits : List AppliedEdit) : (cloneAppliedEdits edits).Nodup := by
  refine List.Nodup.of_map AppliedEdit.index ?_
  have indexes : (cloneAppliedEdits edits).map AppliedEdit.index = List.range' 0 edits.length := by
    rw [cloneAppliedEdits, List.map_map, ← List.zipIdx_map_snd 0 edits]
    refine List.map_congr_left ?_
    intro entry _
    obtain ⟨edit,index⟩ := entry
    cases edit <;> rfl
  rw [indexes]
  exact List.nodup_range'

/-- What boundary repair leaves is the list without what the groups' repairs take. -/
theorem mem_repaired {edits : List AppliedEdit} (distinct : edits.Nodup) (fileLines : List JsString) (edit : AppliedEdit) :
    edit ∈ (repairReplacementBoundaries edits fileLines).edits ↔ edit ∈ remainingEdits edits fileLines := by
  have split' : edits.Perm ((repairReplacementBoundaries edits fileLines).edits ++
      takenFrom fileLines (replacementGroups edits)) := repair_perm fileLines edits.length edits
  have apart := (List.nodup_append.mp (split'.nodup_iff.mp distinct)).2.2
  have members := split'.mem_iff (a := edit)
  rw [List.mem_append] at members
  rw [remainingEdits, List.mem_filter, decide_eq_true_eq, members]
  constructor
  · intro mem
    exact ⟨.inl mem,fun taken => apart edit mem edit taken rfl⟩
  · intro both
    exact both.1.resolve_right both.2

theorem visited_inside {edits : List AppliedEdit} (mem : g ∈ visitedGroups fuel edits) : ∃ part, findReplacementGroup part = some g ∧ part ⊆ edits := by
  induction fuel generalizing edits with
  | zero => exact absurd mem List.not_mem_nil
  | succ fuel ih =>
    cases edits with
    | nil => exact absurd mem List.not_mem_nil
    | cons edit rest =>
      rw [visitedGroups] at mem
      split at mem
      · obtain ⟨part,found,inside⟩ := ih mem
        exact ⟨part,found,fun e here => List.mem_cons_of_mem _ (inside here)⟩
      · rename_i h found
        rcases List.mem_cons.mp mem with rfl | later
        · exact ⟨_,found,fun e here => here⟩
        · obtain ⟨part,found',inside⟩ := ih later
          obtain ⟨split',_,_⟩ := group_split found
          refine ⟨part,found',?_⟩
          intro e here
          rw [split']
          exact List.mem_append_right _ (List.mem_append_right _ (inside here))

/-- A group's deletes outside the spared ones stay. -/
theorem visited_kept {edits : List AppliedEdit} (mem : g ∈ visitedGroups fuel edits) {d : DeleteEdit}
    (among : d ∈ keptDeletes g (chooseRepair g fileLines)) : .delete d ∈ (repairFuel fileLines fuel edits).edits := by
  induction fuel generalizing edits with
  | zero => exact absurd mem List.not_mem_nil
  | succ fuel ih =>
    cases edits with
    | nil => exact absurd mem List.not_mem_nil
    | cons edit rest =>
      rw [visitedGroups] at mem
      rw [repairFuel]
      split at mem
      · rename_i none'
        simp only [none']
        exact List.mem_cons_of_mem _ (ih mem)
      · rename_i h found
        simp only [found]
        rcases List.mem_cons.mp mem with rfl | later
        · exact List.mem_append_left _ (List.mem_append_right _ (List.mem_map.mpr ⟨d,among,rfl⟩))
        · exact List.mem_append_right _ (ih later)

/- What a repair takes away -/

theorem findLargest_spec (limit : Nat) (accepts : Nat → Bool) :
    findLargest limit accepts ≤ limit ∧ (0 < findLargest limit accepts → accepts (findLargest limit accepts) = true) := by
  rw [findLargest]
  cases found : (List.range' 1 limit).reverse.find? accepts with
  | none => simp
  | some k =>
    have mem := List.mem_reverse.mp (List.mem_of_find?_eq_some found)
    have bounds := List.mem_range'_1.mp mem
    rw [Option.getD_some]
    exact ⟨by omega,fun _ => List.find?_some found⟩

theorem blank_balance (rows : List JsString) (blank : ∀ row ∈ rows, row = []) :
    computeDelimiterBalance rows = ⟨0,0,0⟩ := by
  have scanned : ∀ st : BalanceScan, (rows.foldl scanLine st).balance = st.balance := by
    intro st
    induction rows generalizing st with
    | nil => rfl
    | cons row rows ih =>
      obtain rfl : row = [] := blank row List.mem_cons_self
      rw [List.foldl_cons, ih fun other mem => blank other (List.mem_cons_of_mem _ mem), scanLine]
      by_cases quoted : st.quoteMark = some 34 ∨ st.quoteMark = some 39
      · simp [scanUnits, quoted]
      · simp [scanUnits, quoted]
  exact scanned _

theorem visible_of_balance {rows : List JsString} (unbalanced : computeDelimiterBalance rows ≠ ⟨0,0,0⟩) :
    ∃ row ∈ rows, row ≠ [] := by
  by_contra none'
  refine unbalanced (blank_balance rows ?_)
  intro row mem
  by_contra visible
  exact none' ⟨row,mem,visible⟩

/-- The rows taken away restate lines beside the range, and one of each run is not blank. -/
structure RepairFits (g : ReplacementGroup) (fileLines : List JsString) (r : Repair) : Prop where
  leadingBound : r.leading ≤ g.startLine - 1
  trailingBound : r.trailing ≤ fileLines.length - g.endLine
  sparedBound : r.spared ≤ g.deletes.length
  leadingRows : g.payload.take r.leading = linesAbove g fileLines r.leading
  trailingRows : lastRows r.trailing g.payload = linesBelow g fileLines r.trailing
  visibleAbove : 0 < r.leading → ∃ row ∈ linesAbove g fileLines r.leading, row ≠ []
  visibleBelow : 0 < r.spared + r.trailing →
    ∃ row ∈ (fileLines.drop (g.endLine - r.spared)).take (r.spared + r.trailing), row ≠ []

theorem lastRows_zero (rows : List JsString) : lastRows 0 rows = [] := by simp [lastRows]

theorem fits_leading {j : Nat} (warning : Option JsString) (bound : j ≤ g.startLine - 1)
    (rows : g.payload.take j = linesAbove g fileLines j) (visible : ∃ row ∈ linesAbove g fileLines j, row ≠ []) : RepairFits g fileLines ⟨j,0,0,warning⟩ :=
  ⟨bound,Nat.zero_le _,Nat.zero_le _,rows,by simp [lastRows_zero, linesBelow],fun _ => visible,
    fun positive => absurd positive (by simp)⟩

theorem fits_trailing {k : Nat} (warning : Option JsString) (bound : k ≤ fileLines.length - g.endLine)
    (rows : lastRows k g.payload = linesBelow g fileLines k) (visible : ∃ row ∈ linesBelow g fileLines k, row ≠ []) : RepairFits g fileLines ⟨0,k,0,warning⟩ :=
  ⟨Nat.zero_le _,bound,Nat.zero_le _,by simp [linesAbove],rows,fun positive => absurd positive (by simp),
    fun _ => by simpa [linesBelow] using visible⟩

theorem fits_none (g : ReplacementGroup) (fileLines : List JsString) : RepairFits g fileLines .none :=
  ⟨Nat.zero_le _,Nat.zero_le _,Nat.zero_le _,by simp [Repair.none, linesAbove],
    by simp [Repair.none, lastRows_zero, linesBelow],fun positive => absurd positive (by simp [Repair.none]),
    fun positive => absurd positive (by simp [Repair.none])⟩

theorem visible_of_content {rows : List JsString} (content : rows.any hasNonWhitespace = true) : ∃ row ∈ rows, row ≠ [] := by
  obtain ⟨row,mem,visible⟩ := List.any_eq_true.mp content
  refine ⟨row,mem,?_⟩
  rintro rfl
  simp [hasNonWhitespace] at visible

section counts
variable {g : ReplacementGroup} {fileLines : List JsString} {delta : DelimiterBalance}

theorem duplicateSuffix_spec (positive : 0 < findDuplicateSuffix g fileLines delta) :
    findDuplicateSuffix g fileLines delta ≤ fileLines.length - g.endLine ∧
      lastRows (findDuplicateSuffix g fileLines delta) g.payload =
        linesBelow g fileLines (findDuplicateSuffix g fileLines delta) ∧
      computeDelimiterBalance (linesBelow g fileLines (findDuplicateSuffix g fileLines delta)) = delta := by
  obtain ⟨bound,accepted⟩ := findLargest_spec (min g.payload.length (fileLines.length - g.endLine)) fun k =>
    lastRows k g.payload == linesBelow g fileLines k &&
      (k != 1 || (g.payload.getLast?.map isStructuralCloser).getD false) &&
      computeDelimiterBalance (lastRows k g.payload) == delta
  have spec := accepted positive
  simp only [Bool.and_eq_true, beq_iff_eq] at spec
  have rows : lastRows (findDuplicateSuffix g fileLines delta) g.payload =
      linesBelow g fileLines (findDuplicateSuffix g fileLines delta) := spec.1.1
  refine ⟨Nat.le_trans bound (Nat.min_le_right _ _),rows,?_⟩
  rw [← rows]
  exact spec.2

theorem duplicatePrefix_spec (positive : 0 < findDuplicatePrefix g fileLines delta) :
    findDuplicatePrefix g fileLines delta ≤ g.startLine - 1 ∧
      g.payload.take (findDuplicatePrefix g fileLines delta) =
        linesAbove g fileLines (findDuplicatePrefix g fileLines delta) ∧
      computeDelimiterBalance (linesAbove g fileLines (findDuplicatePrefix g fileLines delta)) = delta := by
  obtain ⟨bound,accepted⟩ := findLargest_spec (min g.payload.length (g.startLine - 1)) fun j =>
    g.payload.take j == linesAbove g fileLines j &&
      (j != 1 || (g.payload.head?.map isStructuralCloser).getD false) &&
      computeDelimiterBalance (g.payload.take j) == delta
  have spec := accepted positive
  simp only [Bool.and_eq_true, beq_iff_eq] at spec
  have rows : g.payload.take (findDuplicatePrefix g fileLines delta) =
      linesAbove g fileLines (findDuplicatePrefix g fileLines delta) := spec.1.1
  refine ⟨Nat.le_trans bound (Nat.min_le_right _ _),rows,?_⟩
  rw [← rows]
  exact spec.2

theorem leadingBoundary_spec (positive : 0 < countDuplicateLeadingBoundaryLines g fileLines) :
    countDuplicateLeadingBoundaryLines g fileLines ≤ g.startLine - 1 ∧
      g.payload.take (countDuplicateLeadingBoundaryLines g fileLines) =
        linesAbove g fileLines (countDuplicateLeadingBoundaryLines g fileLines) ∧
      ∃ row ∈ linesAbove g fileLines (countDuplicateLeadingBoundaryLines g fileLines), row ≠ [] := by
  obtain ⟨bound,accepted⟩ := findLargest_spec (min g.payload.length (g.startLine - 1)) fun count =>
    g.payload.take count == linesAbove g fileLines count && (g.payload.take count).any hasNonWhitespace
  have spec := accepted positive
  rw [Bool.and_eq_true, beq_iff_eq] at spec
  have rows : g.payload.take (countDuplicateLeadingBoundaryLines g fileLines) =
      linesAbove g fileLines (countDuplicateLeadingBoundaryLines g fileLines) := spec.1
  refine ⟨Nat.le_trans bound (Nat.min_le_right _ _),rows,?_⟩
  rw [← rows]
  exact visible_of_content spec.2

theorem trailingBoundary_spec (positive : 0 < countDuplicateTrailingBoundaryLines g fileLines) :
    countDuplicateTrailingBoundaryLines g fileLines ≤ fileLines.length - g.endLine ∧
      lastRows (countDuplicateTrailingBoundaryLines g fileLines) g.payload =
        linesBelow g fileLines (countDuplicateTrailingBoundaryLines g fileLines) ∧
      ∃ row ∈ linesBelow g fileLines (countDuplicateTrailingBoundaryLines g fileLines), row ≠ [] := by
  obtain ⟨bound,accepted⟩ := findLargest_spec (min g.payload.length (fileLines.length - g.endLine)) fun count =>
    lastRows count g.payload == linesBelow g fileLines count && (lastRows count g.payload).any hasNonWhitespace
  have spec := accepted positive
  rw [Bool.and_eq_true, beq_iff_eq] at spec
  have rows : lastRows (countDuplicateTrailingBoundaryLines g fileLines) g.payload =
      linesBelow g fileLines (countDuplicateTrailingBoundaryLines g fileLines) := spec.1
  refine ⟨Nat.le_trans bound (Nat.min_le_right _ _),rows,?_⟩
  rw [← rows]
  exact visible_of_content spec.2

theorem droppedClosers_spec (positive : 0 < findDroppedSuffixClosers g fileLines delta) :
    findDroppedSuffixClosers g fileLines delta ≤ g.deletes.length ∧
      computeDelimiterBalance ((fileLines.drop (g.endLine - findDroppedSuffixClosers g fileLines delta)).take
        (findDroppedSuffixClosers g fileLines delta)) = balanceNegate delta := by
  simp only [findDroppedSuffixClosers] at positive ⊢
  cases found : List.find? (fun m =>
      computeDelimiterBalance ((fileLines.drop (g.endLine - m)).take m) == balanceNegate delta)
      ((List.range' 1 g.deletes.length).takeWhile fun m => isStructuralCloser (fileLines[g.endLine - m]?.getD [])) with
  | none => simp [found] at positive
  | some m =>
    rw [Option.getD_some]
    have mem := List.takeWhile_subset _ (List.mem_of_find?_eq_some found)
    have bounds := List.mem_range'_1.mp mem
    exact ⟨by omega,by simpa using List.find?_some found⟩

theorem balance_repair_fits (g : ReplacementGroup) (fileLines : List JsString) :
    RepairFits g fileLines (chooseBalanceRepair g fileLines) := by
  simp only [chooseBalanceRepair]
  split
  · exact fits_none g fileLines
  · rename_i unbalanced
    have different : groupDelta g fileLines ≠ ⟨0,0,0⟩ := by simpa [balanceIsZero] using unbalanced
    split
    · rename_i positive
      obtain ⟨bound,rows,balance⟩ := duplicateSuffix_spec positive
      exact fits_trailing _ bound rows (visible_of_balance (by rw [balance]; exact different))
    · split
      · rename_i positive
        obtain ⟨bound,rows,balance⟩ := duplicatePrefix_spec positive
        exact fits_leading _ bound rows (visible_of_balance (by rw [balance]; exact different))
      · split
        · rename_i positive
          obtain ⟨bound,balance⟩ := droppedClosers_spec positive
          have unbalancedRows : balanceNegate (groupDelta g fileLines) ≠ ⟨0,0,0⟩ := by
            intro zero
            refine different ?_
            cases delta : groupDelta g fileLines with
            | mk paren bracket brace =>
              rw [delta, balanceNegate] at zero
              simp only [DelimiterBalance.mk.injEq] at zero ⊢
              omega
          refine ⟨Nat.zero_le _,Nat.zero_le _,bound,by simp [linesAbove],by simp [lastRows_zero, linesBelow],
            fun positive => absurd positive (by simp),fun _ => ?_⟩
          exact visible_of_balance (by rw [Nat.add_zero, balance]; exact unbalancedRows)
        · exact fits_none g fileLines

theorem choice_fits (g : ReplacementGroup) (fileLines : List JsString) :
    RepairFits g fileLines (chooseRepair g fileLines) := by
  rw [chooseRepair]
  split
  · rename_i echo found
    simp only [findBoundaryEcho] at found
    split at found
    · contradiction
    · split at found
      · contradiction
      · split at found
        · contradiction
        · rename_i leading trailing _
          cases found
          obtain ⟨leadBound,leadRows,leadSeen⟩ := leadingBoundary_spec (Nat.pos_of_ne_zero leading)
          obtain ⟨tailBound,tailRows,tailSeen⟩ := trailingBoundary_spec (Nat.pos_of_ne_zero trailing)
          exact ⟨leadBound,tailBound,Nat.zero_le _,leadRows,tailRows,fun _ => leadSeen,
            fun _ => by simpa [linesBelow] using tailSeen⟩
  · exact balance_repair_fits g fileLines

end counts

end Hashline
