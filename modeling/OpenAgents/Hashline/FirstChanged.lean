import OpenAgents.Hashline.RepairLoss
import OpenAgents.Lib.TextLines
import OpenAgents.Lib.FallibleState

/- The first changed line that applying edits reports. Every splice keeps the lines in
   front of the reported one, and nothing reported means that nothing was spliced. -/
namespace Hashline
open JsText LineSplice TextLines ExceptRun

/- What the tracked line says of the lines so far. -/
def ChangedFrom (before after : List JsString) : Option Nat → Prop
  | none => after = before
  | some n => 1 ≤ n ∧ n ≤ before.length + 1 ∧ before.take (n - 1) <+: after

theorem track_some (n line : Nat) : trackFirstChanged (some n) line = if line < n then some line else some n := rfl

section splices
variable {before after next : List JsString} {current : Option Nat} {line : Nat}

theorem take_of_prefix {front : List JsString} {k : Nat} (starts : front <+: after) (short : k ≤ front.length) :
    front.take k = after.take k := by
  obtain ⟨rest,rfl⟩ := starts
  rw [List.take_append_of_le_length short]

theorem prefix_of_agreement {front : List JsString} {k : Nat} (starts : front <+: after) (short : front.length ≤ k)
    (agree : next.take k = after.take k) : front <+: next := by
  have within : front <+: after.take k := by
    rw [List.prefix_take_iff]
    exact ⟨starts,short⟩
  rw [← agree] at within
  exact within.trans (List.take_prefix k next)

/-- One splice at `line`, which leaves the lines before it as they are. -/
theorem changed_splice (changed : ChangedFrom before after current) (low : 1 ≤ line) (inside : line - 1 ≤ after.length)
    (agree : next.take (line - 1) = after.take (line - 1)) : ChangedFrom before next (trackFirstChanged current line) := by
  cases current with
  | none =>
    obtain rfl : after = before := changed
    refine ⟨low,by omega,?_⟩
    rw [← agree]
    exact List.take_prefix _ next
  | some n =>
    obtain ⟨first,last,kept⟩ := changed
    have length : (before.take (n - 1)).length = n - 1 := by
      rw [List.length_take]
      omega
    rw [track_some]
    by_cases earlier : line < n
    · rw [if_pos earlier]
      refine ⟨low,by omega,?_⟩
      have same := take_of_prefix kept (show line - 1 ≤ (before.take (n - 1)).length by omega)
      rw [List.take_take, Nat.min_eq_left (by omega)] at same
      rw [same, ← agree]
      exact List.take_prefix _ next
    · rw [if_neg earlier]
      exact ⟨first,last,prefix_of_agreement kept (by omega) agree⟩

theorem take_splice {start count : Nat} (items : List JsString) (inside : start ≤ after.length) :
    (splice after start count items).take start = after.take start := by
  rw [splice, List.append_assoc, List.take_append_of_le_length (by rw [List.length_take]; omega), List.take_take, Nat.min_self]

end splices

/- The lines edited so far are all below the ones still to come. -/
def Descending (st : ApplyState) (keys : List Nat) : Prop :=
  keys.Pairwise (· > ·) ∧ ∀ n, st.firstChangedLine = some n → ∀ k ∈ keys, k < n

variable {fileLines : List JsString} {current : Option Nat}

theorem applyLine_changed {edits : List IndexedEdit} {st : ApplyState} {line : Nat} {keys : List Nat}
    (changed : ChangedFrom fileLines st.fileLines st.firstChangedLine) (bounds : 1 ≤ line ∧ line ≤ fileLines.length)
    (down : Descending st (line :: keys)) :
    ChangedFrom fileLines (applyLine edits st line).fileLines (applyLine edits st line).firstChangedLine ∧
      Descending (applyLine edits st line) keys := by
  obtain ⟨ordered,above⟩ := down
  obtain ⟨first,rest⟩ := List.pairwise_cons.mp ordered
  unfold applyLine
  dsimp only
  split
  · exact ⟨changed,rest,fun n reported k mem => above n reported k (List.mem_cons_of_mem line mem)⟩
  · have inside : line - 1 ≤ st.fileLines.length := by
      cases reported : st.firstChangedLine with
      | none =>
        rw [reported] at changed
        rw [show st.fileLines = fileLines from changed]
        omega
      | some n =>
        rw [reported] at changed
        have below := above n reported line List.mem_cons_self
        have long := changed.2.2.length_le
        rw [List.length_take] at long
        omega
    constructor
    · exact changed_splice changed bounds.1 inside (take_splice _ inside)
    · refine ⟨rest,?_⟩
      intro n reported k mem
      have smaller := first k mem
      dsimp only at reported
      cases earlier : st.firstChangedLine with
      | none =>
        rw [earlier] at reported
        cases reported
        exact smaller
      | some m =>
        have below := above m earlier line List.mem_cons_self
        rw [earlier, track_some, if_pos below] at reported
        cases reported
        exact smaller

theorem applyLines_changed {edits : List AppliedEdit} (bounds : InBounds edits fileLines) :
    ChangedFrom fileLines (applyLines edits fileLines).fileLines (applyLines edits fileLines).firstChangedLine := by
  have run : ∀ (keys : List Nat) (st : ApplyState), (∀ n ∈ keys, 1 ≤ n ∧ n ≤ fileLines.length) →
      ChangedFrom fileLines st.fileLines st.firstChangedLine → Descending st keys →
        ChangedFrom fileLines (keys.foldl (applyLine (anchorEdits edits)) st).fileLines
          (keys.foldl (applyLine (anchorEdits edits)) st).firstChangedLine := by
    intro keys
    induction keys with
    | nil => exact fun st _ changed _ => changed
    | cons line keys ih =>
      intro st inside changed down
      obtain ⟨next,later⟩ := applyLine_changed changed (inside line List.mem_cons_self) down
      exact ih _ (fun n mem => inside n (List.mem_cons_of_mem line mem)) next later
  refine run (descendingKeys edits) ⟨fileLines,none⟩ ?_ rfl ⟨descendingKeys_strict edits,?_⟩
  · exact fun n mem => anchored_line_bounds bounds ((mem_descendingKeys edits n).mp mem)
  · intro n reported
    contradiction

theorem insertAtStart_changed {before after : List JsString} (rows : List JsString)
    (changed : ChangedFrom before after current) :
    ChangedFrom before (insertAtStart after rows) (if rows.isEmpty then current else trackFirstChanged current 1) := by
  cases rows with
  | nil => exact changed
  | cons row rows => exact changed_splice changed (Nat.le_refl 1) (Nat.zero_le _) (by simp)

theorem insertAtEnd_changed {before after : List JsString} (rows : List JsString)
    (changed : ChangedFrom before after current) :
    ChangedFrom before (insertAtEnd after rows).1
      (match (insertAtEnd after rows).2 with
        | none => current
        | some line => trackFirstChanged current line) := by
  unfold insertAtEnd
  by_cases none' : rows.isEmpty = true
  · rw [if_pos none']
    exact changed
  · rw [if_neg none']
    by_cases blank : after = [[]]
    · rw [if_pos blank]
      exact changed_splice changed (Nat.le_refl 1) (Nat.zero_le _) (by simp)
    · rw [if_neg blank]
      dsimp only
      have inside : (if after.getLast? = some [] then after.length - 1 else after.length) ≤ after.length := by
        split <;> omega
      exact changed_splice changed (Nat.le_add_left 1 _) inside (take_splice rows inside)

theorem applyRepaired_changed {edits : List AppliedEdit} (bounds : InBounds edits fileLines) :
    ChangedFrom fileLines (applyRepaired edits fileLines).fileLines (applyRepaired edits fileLines).firstChangedLine :=
  insertAtEnd_changed _ (insertAtStart_changed _ (applyLines_changed bounds))

/-- Lines that a text keeps in front are read back from it. -/
theorem take_split_join {front after : List JsString} (clean : ∀ line ∈ front, lineFeed ∉ line) (starts : front <+: after) :
    (splitLines (joinLines after)).take front.length = front := by
  obtain ⟨rest,rfl⟩ := starts
  by_cases more : rest = []
  · subst more
    rw [List.append_nil]
    by_cases some' : front = []
    · subst some'
      rfl
    · rw [split_join front clean some', List.take_length]
  · rw [join_append front more, split_terminated clean, List.take_left']
    rfl

/-- The lines before the reported one are those of the input, and an output that differs has one. -/
theorem first_changed_sound {text : JsString} {edits : List Edit} {result : ApplyResult}
    (applied : applyEdits text edits = .ok result) :
    (∀ n, result.firstChangedLine = some n →
      1 ≤ n ∧ (splitLines result.text).take (n - 1) = (splitLines text).take (n - 1)) ∧
      (result.text ≠ text → ∃ n, result.firstChangedLine = some n) := by
  have changed : ∃ lines, result.text = joinLines lines ∧ ChangedFrom (splitLines text) lines result.firstChangedLine := by
    unfold applyEdits at applied
    split at applied
    · cases applied
      exact ⟨splitLines text,(join_split text).symm,rfl⟩
    · split at applied
      · contradiction
      · rename_i appliedEdits _
        obtain ⟨_,checked,rest⟩ := bind_ok.mp applied
        cases rest
        exact ⟨_,rfl,applyRepaired_changed (bounds_of_subset (repair_subset _ _) (bounds_checked checked))⟩
  obtain ⟨lines,text',from'⟩ := changed
  constructor
  · intro n reported
    rw [reported] at from'
    obtain ⟨first,last,kept⟩ := from'
    have clean : ∀ line ∈ (splitLines text).take (n - 1), lineFeed ∉ line := fun line mem =>
      split_clean text line (List.mem_of_mem_take mem)
    have read := take_split_join clean kept
    rw [List.length_take, Nat.min_eq_left (by omega)] at read
    exact ⟨first,by rw [text', read]⟩
  · intro differs
    cases reported : result.firstChangedLine with
    | some n => exact ⟨n,rfl⟩
    | none =>
      rw [reported] at from'
      obtain rfl : lines = splitLines text := from'
      rw [text', join_split] at differs
      exact absurd rfl differs

theorem first_changed_sound_mixed :
    ∃ result, applyEdits (js "x\ny\nz\n") (mixedPatchEdits.map .applied) = .ok result ∧
      result.text ≠ js "x\ny\nz\n" ∧ ∃ n, result.firstChangedLine = some n := by
  refine ⟨⟨js "A\nx\nb\nB\nz\nZ\n",some 1,[]⟩,by decide,by decide,?_⟩
  exact (@first_changed_sound (js "x\ny\nz\n") (mixedPatchEdits.map .applied) _ (by decide)).2 (by decide)

end Hashline
