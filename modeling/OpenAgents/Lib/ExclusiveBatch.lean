import Mathlib.Data.List.Perm.Basic

/- Tasks in a row, some of them exclusive. One pass gives each task the earlier tasks it waits
   for: an exclusive one all since the last exclusive one, any other only that one. -/
namespace ExclusiveBatch

structure Pass where
  lastExclusive : Option Nat
  sharedTasks : List Nat
  deriving DecidableEq, Repr

def Pass.start : Pass := ⟨none,[]⟩

def Pass.waitsFor (pass : Pass) (exclusive : Bool) : List Nat :=
  if exclusive then pass.lastExclusive.toList ++ pass.sharedTasks else pass.lastExclusive.toList

def Pass.add (pass : Pass) (index : Nat) (exclusive : Bool) : Pass :=
  if exclusive then ⟨some index,[]⟩ else { pass with sharedTasks := pass.sharedTasks ++ [index] }

/- What the pass has gathered when it comes to a task. -/
def passAt (kinds : List Bool) : Nat → Pass
  | 0 => .start
  | index + 1 => (passAt kinds index).add index (kinds.getD index false)

def waitsFor (kinds : List Bool) (index : Nat) : List Nat := (passAt kinds index).waitsFor (kinds.getD index false)

/-- Every earlier task is held by the pass, or stands before the exclusive task it holds. -/
structure Gathered (kinds : List Bool) (index : Nat) (pass : Pass) : Prop where
  held : ∀ e, pass.lastExclusive = some e → e < index ∧ kinds.getD e false = true
  shared : ∀ d ∈ pass.sharedTasks, d < index
  covered : ∀ j < index, j ∈ pass.sharedTasks ∨ ∃ e, pass.lastExclusive = some e ∧ j ≤ e
  coveredExclusive : ∀ j < index, kinds.getD j false = true → ∃ e, pass.lastExclusive = some e ∧ j ≤ e

theorem passAt_gathered (kinds : List Bool) (index : Nat) : Gathered kinds index (passAt kinds index) := by
  induction index with
  | zero =>
    constructor
    · intro e held
      contradiction
    · intro d mem
      exact absurd mem List.not_mem_nil
    · intro j before
      omega
    · intro j before
      omega
  | succ index ih =>
    rw [passAt, Pass.add]
    cases kind : kinds.getD index false with
    | true =>
      rw [if_pos rfl]
      constructor
      · intro e held
        cases held
        exact ⟨by omega,kind⟩
      · intro d mem
        exact absurd mem List.not_mem_nil
      · intro j before
        exact .inr ⟨index,rfl,by omega⟩
      · intro j before _
        exact ⟨index,rfl,by omega⟩
    | false =>
      rw [if_neg (by simp)]
      constructor
      · intro e held
        obtain ⟨before,exclusive⟩ := ih.held e held
        exact ⟨by omega,exclusive⟩
      · intro d mem
        rcases List.mem_append.mp mem with old | new
        · have := ih.shared d old
          omega
        · obtain rfl := List.mem_singleton.mp new
          omega
      · intro j before
        by_cases here : j = index
        · exact .inl (List.mem_append_right _ (by simp [here]))
        · rcases ih.covered j (by omega) with old | later
          · exact .inl (List.mem_append_left _ old)
          · exact .inr later
      · intro j before exclusive
        by_cases here : j = index
        · rw [here, kind] at exclusive
          contradiction
        · exact ih.coveredExclusive j (by omega) exclusive

theorem waitsFor_earlier {kinds : List Bool} {index d : Nat} (mem : d ∈ waitsFor kinds index) : d < index := by
  have gathered := passAt_gathered kinds index
  rw [waitsFor, Pass.waitsFor] at mem
  have last : ∀ e ∈ (passAt kinds index).lastExclusive.toList, e < index := by
    intro e held
    exact (gathered.held e (by simpa using held)).1
  split at mem
  · rcases List.mem_append.mp mem with held | shared
    · exact last d held
    · exact gathered.shared d shared
  · exact last d mem

theorem last_awaited {kinds : List Bool} {index e : Nat} (held : (passAt kinds index).lastExclusive = some e) :
    e ∈ waitsFor kinds index := by
  have last : e ∈ (passAt kinds index).lastExclusive.toList := by simp [held]
  rw [waitsFor, Pass.waitsFor]
  split
  · exact List.mem_append_left _ last
  · exact last

/-- When no task begins before what it waits for is done, exclusive tasks keep their place:
    everything before one is done when it begins, and it is done when anything after it begins. -/
theorem exclusive_keeps_place {kinds : List Bool} {begun done : Nat → Prop} (beginsFirst : ∀ i, done i → begun i)
    (waits : ∀ i, begun i → ∀ d ∈ waitsFor kinds i, done d) (i : Nat) :
    begun i → ∀ j < i, kinds.getD i false = true ∨ kinds.getD j false = true → done j := by
  induction i using Nat.strongRecOn with
  | ind i ih =>
    intro begins j before either
    have gathered := passAt_gathered kinds i
    have upTo : ∀ e, (passAt kinds i).lastExclusive = some e → j ≤ e → done j := by
      intro e held reached
      obtain ⟨earlier,exclusive⟩ := gathered.held e held
      have finished := waits i begins e (last_awaited held)
      by_cases same : j = e
      · rw [same]
        exact finished
      · exact ih e earlier (beginsFirst e finished) j (by omega) (.inl exclusive)
    rcases either with exclusive | exclusive
    · rcases gathered.covered j before with shared | ⟨e,held,reached⟩
      · refine waits i begins j ?_
        rw [waitsFor, Pass.waitsFor, if_pos exclusive]
        exact List.mem_append_right _ shared
      · exact upTo e held reached
    · obtain ⟨e,held,reached⟩ := gathered.coveredExclusive j before exclusive
      exact upTo e held reached

end ExclusiveBatch
