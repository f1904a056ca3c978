import OpenAgents.Hashline.RepairLoss

/- When the rows a balance repair leaves are as balanced as the lines they replace. The
   counter carries an open comment or template from line to line, so the two sides of the
   repair's cut need not add up to the whole. -/
namespace Hashline
open JsText

def DelimiterBalance.plus (a b : DelimiterBalance) : DelimiterBalance :=
  ⟨a.paren + b.paren,a.bracket + b.bracket,a.brace + b.brace⟩

def scanStart : BalanceScan := ⟨⟨0,0,0⟩,false,none,false,false⟩

/- What the rows leave open, with the count starting again. -/
def leftOpen (rows : List JsString) : BalanceScan := { rows.foldl scanLine scanStart with balance := ⟨0,0,0⟩ }

/- The rows counted where they stand, behind `front`. -/
def countedBehind (front rows : List JsString) : DelimiterBalance := (rows.foldl scanLine (leftOpen front)).balance

/-- The part behind the cut counts there what it counts on its own. -/
def CountsAlike (cut : List JsString × List JsString) : Prop := countedBehind cut.1 cut.2 = computeDelimiterBalance cut.2

instance (cut : List JsString × List JsString) : Decidable (CountsAlike cut) :=
  inferInstanceAs (Decidable (_ = _))

/- No block comment and no template is open after the rows. -/
def NothingOpen (rows : List JsString) : Prop :=
  (leftOpen rows).inBlockComment = false ∧ (leftOpen rows).quoteMark = none

section counting

def BalanceScan.plus (st : BalanceScan) (b : DelimiterBalance) : BalanceScan := { st with balance := b.plus st.balance }

theorem count_plus (a b : DelimiterBalance) (c : CodeUnit) : (b.plus a).count c = b.plus (a.count c) := by
  unfold DelimiterBalance.count
  split_ifs <;> simp [DelimiterBalance.plus] <;> omega

theorem scanUnit_plus (st : BalanceScan) (b : DelimiterBalance) (c : CodeUnit) (next : Option CodeUnit) :
    scanUnit (st.plus b) c next = (scanUnit st c next).plus b := by
  obtain ⟨balance,inBlockComment,quoteMark,skipNext,lineDone⟩ := st
  unfold scanUnit BalanceScan.plus
  cases quoteMark <;> dsimp only <;> split_ifs <;> simp [count_plus]

theorem scanUnits_plus (b : DelimiterBalance) (line : JsString) (st : BalanceScan) :
    scanUnits (st.plus b) line = (scanUnits st line).plus b := by
  induction line generalizing st with
  | nil => rfl
  | cons c rest ih => rw [scanUnits, scanUnits, scanUnit_plus, ih]

theorem scanLine_plus (b : DelimiterBalance) (line : JsString) (st : BalanceScan) :
    scanLine (st.plus b) line = (scanLine st line).plus b := by
  have units := scanUnits_plus b line { st with skipNext := false, lineDone := false }
  have opened : ({ st.plus b with skipNext := false, lineDone := false } : BalanceScan) =
      BalanceScan.plus { st with skipNext := false, lineDone := false } b := rfl
  unfold scanLine
  dsimp only
  rw [opened, units]
  unfold BalanceScan.plus
  dsimp only
  split_ifs <;> rfl

theorem scanLines_plus (b : DelimiterBalance) (rows : List JsString) (st : BalanceScan) :
    rows.foldl scanLine (st.plus b) = (rows.foldl scanLine st).plus b := by
  induction rows generalizing st with
  | nil => rfl
  | cons row rows ih => rw [List.foldl_cons, List.foldl_cons, scanLine_plus, ih]

end counting

/-- The count of a text is the count of its front and what the rest counts behind it. -/
theorem balance_append (front rows : List JsString) :
    computeDelimiterBalance (front ++ rows) = (computeDelimiterBalance front).plus (countedBehind front rows) := by
  have resumed : front.foldl scanLine scanStart = (leftOpen front).plus (computeDelimiterBalance front) := by
    simp [leftOpen, BalanceScan.plus, DelimiterBalance.plus, computeDelimiterBalance, scanStart]
  show ((front ++ rows).foldl scanLine scanStart).balance = _
  rw [List.foldl_append, resumed, scanLines_plus]
  rfl

/-- A line is read the same whatever the last one left of its own scan. -/
theorem scanLine_clears (st : BalanceScan) (skipNext lineDone : Bool) (line : JsString) :
    scanLine { st with skipNext, lineDone } line = scanLine st line := rfl

theorem countsAlike_of_nothingOpen {front : List JsString} (rows : List JsString) (closed : NothingOpen front) :
    CountsAlike (front, rows) := by
  cases rows with
  | nil => rfl
  | cons row rows =>
    have same : leftOpen front =
        { scanStart with skipNext := (leftOpen front).skipNext, lineDone := (leftOpen front).lineDone } := by
      cases carried : leftOpen front with
      | mk balance inBlockComment quoteMark skipNext lineDone =>
        have zero : balance = ⟨0,0,0⟩ := by
          have none' : (leftOpen front).balance = ⟨0,0,0⟩ := rfl
          rwa [carried] at none'
        rw [NothingOpen, carried] at closed
        obtain ⟨rfl,rfl⟩ := closed
        rw [zero]
        rfl
    unfold CountsAlike countedBehind
    dsimp only
    rw [same, List.foldl_cons, scanLine_clears]
    rfl

/- The repair of a group -/

def keptPayload (g : ReplacementGroup) (r : Repair) : List JsString := (keptInserts g r).map InsertEdit.text

def deletedLines (g : ReplacementGroup) (r : Repair) (fileLines : List JsString) : List JsString :=
  (keptDeletes g r).map fun d => fileLines[d.anchor.line - 1]?.getD []

/-- One of the three balance repairs takes something from the group. -/
def BalanceRepairFires (g : ReplacementGroup) (fileLines : List JsString) : Prop :=
  findBoundaryEcho g fileLines = none ∧ chooseBalanceRepair g fileLines ≠ .none

/-- The rows kept have the balance of the lines deleted. -/
def Neutral (g : ReplacementGroup) (fileLines : List JsString) : Prop :=
  computeDelimiterBalance (keptPayload g (chooseRepair g fileLines)) =
    computeDelimiterBalance (deletedLines g (chooseRepair g fileLines) fileLines)

/- Where the repair cuts the payload or the deleted range in two. -/
def repairCut (g : ReplacementGroup) (fileLines : List JsString) : List JsString × List JsString :=
  let r := chooseRepair g fileLines
  if 0 < r.spared then (deletedLines g r fileLines, (fileLines.drop (g.endLine - r.spared)).take r.spared)
  else if 0 < r.trailing then (keptPayload g r, lastRows r.trailing g.payload)
  else (g.payload.take r.leading, g.payload.drop r.leading)

instance (g : ReplacementGroup) (fileLines : List JsString) : Decidable (BalanceRepairFires g fileLines) :=
  inferInstanceAs (Decidable (_ ∧ _))

instance (g : ReplacementGroup) (fileLines : List JsString) : Decidable (Neutral g fileLines) :=
  inferInstanceAs (Decidable (_ = _))

theorem whole_minus_other {whole front behind other : DelimiterBalance} (sum : whole = front.plus behind) :
    front = other ↔ behind = balanceDelta whole other := by
  subst sum
  cases front
  cases behind
  cases other
  simp only [DelimiterBalance.plus, balanceDelta, DelimiterBalance.mk.injEq]
  omega

theorem behind_is_other {whole front behind other : DelimiterBalance} (sum : whole = front.plus behind)
    (front' : front = balanceDelta whole other) : behind = other := by
  subst sum
  cases front
  cases behind
  cases other
  simp only [DelimiterBalance.plus, balanceDelta, DelimiterBalance.mk.injEq] at front' ⊢
  omega

theorem negated_delta (a b : DelimiterBalance) : balanceNegate (balanceDelta a b) = balanceDelta b a := by
  simp only [balanceNegate, balanceDelta, DelimiterBalance.mk.injEq]
  omega

section group
variable {g : ReplacementGroup} {fileLines : List JsString}

theorem deletedLines_range (low : 1 ≤ g.startLine) (high : g.endLine ≤ fileLines.length)
    (lines : g.deletes.map (fun d => d.anchor.line) = List.range' g.startLine g.deletes.length) (r : Repair) :
    deletedLines g r fileLines = (fileLines.drop (g.startLine - 1)).take (g.deletes.length - r.spared) := by
  have stop : g.endLine = g.startLine + g.deletes.length - 1 := rfl
  have anchors : (keptDeletes g r).map (fun d => d.anchor.line) = List.range' g.startLine (g.deletes.length - r.spared) := by
    rw [keptDeletes, List.map_take, lines, List.take_range'_of_length_ge (Nat.sub_le _ _)]
  have placed : deletedLines g r fileLines = texts (linesFrom fileLines g.startLine (g.deletes.length - r.spared)) := by
    rw [linesFrom, ← anchors]
    simp [deletedLines, texts, lineAt]
  rw [placed, texts_linesFrom low (by omega)]

/-- How a repair that fires cuts the group, and what it found the rows taken away to count. -/
inductive Fired (g : ReplacementGroup) (fileLines : List JsString) : Repair → Prop
  | duplicateSuffix {k : Nat} {warning : Option JsString} (positive : 0 < k) (room : k ≤ g.payload.length)
      (count : computeDelimiterBalance (lastRows k g.payload) = groupDelta g fileLines) : Fired g fileLines ⟨0,k,0,warning⟩
  | duplicatePrefix {j : Nat} {warning : Option JsString} (positive : 0 < j)
      (count : computeDelimiterBalance (g.payload.take j) = groupDelta g fileLines) : Fired g fileLines ⟨j,0,0,warning⟩
  | droppedClosers {m : Nat} {warning : Option JsString} (positive : 0 < m) (room : m ≤ g.deletes.length)
      (count : computeDelimiterBalance ((fileLines.drop (g.endLine - m)).take m) = balanceNegate (groupDelta g fileLines)) :
      Fired g fileLines ⟨0,0,m,warning⟩

theorem repair_fired (fires : BalanceRepairFires g fileLines) : Fired g fileLines (chooseRepair g fileLines) := by
  obtain ⟨noEcho,some'⟩ := fires
  rw [chooseRepair, noEcho]
  dsimp only
  unfold chooseBalanceRepair at some' ⊢
  dsimp only at some' ⊢
  split_ifs at some' ⊢ with balanced suffix leading spared
  · exact absurd rfl some'
  · obtain ⟨bound,rows,count⟩ := duplicateSuffix_spec suffix
    have long := congrArg List.length rows
    simp only [lastRows, linesBelow, List.length_drop, List.length_take] at long
    refine .duplicateSuffix suffix (by omega) ?_
    rw [rows, count]
  · obtain ⟨bound,rows,count⟩ := duplicatePrefix_spec leading
    refine .duplicatePrefix leading ?_
    rw [rows, count]
  · obtain ⟨bound,count⟩ := droppedClosers_spec spared
    exact .droppedClosers spared bound count
  · exact absurd rfl some'

end group

/-- A balance repair is neutral exactly when the rows behind its cut count there what they
count on their own; an open comment or template at the cut can make the difference. -/
theorem repair_neutral_iff {edits : List AppliedEdit} {fileLines : List JsString} {g : ReplacementGroup}
    (checked : validateLineBounds edits fileLines = .ok ()) (mem : g ∈ replacementGroups edits)
    (fires : BalanceRepairFires g fileLines) : Neutral g fileLines ↔ CountsAlike (repairCut g fileLines) := by
  obtain ⟨low,high,some',lines⟩ := group_in_bounds (bounds_checked checked) mem
  have nonempty := List.length_pos_of_ne_nil some'
  have stop : g.endLine = g.startLine + g.deletes.length - 1 := rfl
  have deleted := deletedLines_range low high lines
  have range : g.endLine + 1 - g.startLine = g.deletes.length := by omega
  have delta : groupDelta g fileLines = balanceDelta (computeDelimiterBalance g.payload)
      (computeDelimiterBalance ((fileLines.drop (g.startLine - 1)).take g.deletes.length)) := by
    rw [groupDelta, range]
  have fired := repair_fired fires
  unfold Neutral repairCut CountsAlike
  generalize chooseRepair g fileLines = r at fired ⊢
  cases fired with
  | @duplicateSuffix k warning positive room count =>
    have kept : keptPayload g ⟨0,k,0,warning⟩ = g.payload.take (g.payload.length - k) := by
      simp [keptPayload, keptInserts, ReplacementGroup.payload, List.map_take]
    have whole : g.payload = keptPayload g ⟨0,k,0,warning⟩ ++ lastRows k g.payload := by
      rw [kept, lastRows, List.take_append_drop]
    have sum := balance_append (keptPayload g ⟨0,k,0,warning⟩) (lastRows k g.payload)
    rw [← whole] at sum
    simp only [Nat.lt_irrefl, if_false, positive, if_true]
    rw [deleted, Nat.sub_zero, count, delta]
    exact whole_minus_other sum
  | @duplicatePrefix j warning positive count =>
    have kept : keptPayload g ⟨j,0,0,warning⟩ = g.payload.drop j := by
      simp [keptPayload, keptInserts, ReplacementGroup.payload, List.map_drop]
    have sum := balance_append (g.payload.take j) (g.payload.drop j)
    rw [List.take_append_drop] at sum
    simp only [Nat.lt_irrefl, if_false]
    rw [deleted, Nat.sub_zero, kept, behind_is_other sum (count.trans delta)]
    exact eq_comm
  | @droppedClosers m warning positive room count =>
    have kept : keptPayload g ⟨0,0,m,warning⟩ = g.payload := by
      simp [keptPayload, keptInserts, ReplacementGroup.payload]
    have spared : (fileLines.drop (g.endLine - m)).take m =
        ((fileLines.drop (g.startLine - 1)).take g.deletes.length).drop (g.deletes.length - m) := by
      rw [List.drop_take, List.drop_drop]
      congr 2 <;> omega
    have early : deletedLines g ⟨0,0,m,warning⟩ fileLines =
        ((fileLines.drop (g.startLine - 1)).take g.deletes.length).take (g.deletes.length - m) := by
      rw [deleted, List.take_take, Nat.min_eq_left (Nat.sub_le _ _)]
    have sum := balance_append (deletedLines g ⟨0,0,m,warning⟩ fileLines) ((fileLines.drop (g.endLine - m)).take m)
    rw [spared, early, List.take_append_drop, ← early, ← spared] at sum
    simp only [positive, if_true]
    rw [count, delta, negated_delta, kept, ← whole_minus_other sum]
    exact eq_comm

def bracePatch : JsString := js "replace 1..1:\n+(\x7b\n+\x7d"

def braceEdits : List AppliedEdit :=
  [.insert ⟨.beforeAnchor ⟨1⟩,js "(\x7b",1,0,.replacement⟩, .insert ⟨.beforeAnchor ⟨1⟩,js "\x7d",1,1,.replacement⟩,
    .delete ⟨⟨1⟩,1,2⟩]

def braceGroup : ReplacementGroup :=
  ⟨[⟨.beforeAnchor ⟨1⟩,js "(\x7b",1,0,.replacement⟩, ⟨.beforeAnchor ⟨1⟩,js "\x7d",1,1,.replacement⟩],
    [⟨⟨1⟩,1,2⟩],1,[]⟩

theorem repair_neutral_iff_brace :
    parsePatch bracePatch = .ok ⟨braceEdits.map .applied,[]⟩ ∧
      BalanceRepairFires braceGroup [js "a(\x7b", js "\x7d"] ∧ Neutral braceGroup [js "a(\x7b", js "\x7d"] := by
  have fires : BalanceRepairFires braceGroup [js "a(\x7b", js "\x7d"] := by decide
  have cut : repairCut braceGroup [js "a(\x7b", js "\x7d"] = ([js "(\x7b"], [js "\x7d"]) := by decide
  have closed : NothingOpen [js "(\x7b"] := ⟨by decide,by decide⟩
  refine ⟨by decide,fires,?_⟩
  refine (@repair_neutral_iff braceEdits _ _ (by decide) (by decide) fires).mpr ?_
  rw [cut]
  exact countsAlike_of_nothingOpen [js "\x7d"] closed

/- A text edited at a template: the counter reads the repeated brace as a delimiter. -/
def templatePatch : JsString := js "replace 1..1:\n+`\n+\x7d"

def templateEdits : List AppliedEdit :=
  [.insert ⟨.beforeAnchor ⟨1⟩,js "`",1,0,.replacement⟩, .insert ⟨.beforeAnchor ⟨1⟩,js "\x7d",1,1,.replacement⟩,
    .delete ⟨⟨1⟩,1,2⟩]

def templateGroup : ReplacementGroup :=
  ⟨[⟨.beforeAnchor ⟨1⟩,js "`",1,0,.replacement⟩, ⟨.beforeAnchor ⟨1⟩,js "\x7d",1,1,.replacement⟩],
    [⟨⟨1⟩,1,2⟩],1,[]⟩

/-- Here the repair drops the brace of the template and leaves no brace for the one deleted. -/
theorem brace_in_template_dropped :
    parsePatch templatePatch = .ok ⟨templateEdits.map .applied,[]⟩ ∧
      validateLineBounds templateEdits [js "\x7b", js "\x7d"] = .ok () ∧
      templateGroup ∈ replacementGroups templateEdits ∧ BalanceRepairFires templateGroup [js "\x7b", js "\x7d"] ∧
      ¬ Neutral templateGroup [js "\x7b", js "\x7d"] := by
  decide

end Hashline
