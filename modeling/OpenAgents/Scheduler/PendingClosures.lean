import Mathlib.Data.List.Sort
import Mathlib.Data.List.Nodup

/- The table of scheduled closures and the statements run on it, each of them atomic. Texts are
   only compared; `stamp` is the time that a statement writes as `updatedAt`. -/
namespace PendingClosures

inductive ClosureState where
  | pending
  | claimed
  | closed
  | cancelled
  deriving DecidableEq

structure Row (Text : Type) where
  issueKey : Text
  repo : Text
  number : Int
  commentId : Int
  issueAuthor : Text
  closeAt : Text
  state : ClosureState
  cancelReason : Option Text
  createdAt : Text
  updatedAt : Text
  deriving DecidableEq

/-- What an answer of the bot schedules. -/
structure Schedule (Text : Type) where
  issueKey : Text
  repo : Text
  number : Int
  commentId : Int
  issueAuthor : Text
  closeAt : Text

inductive ClosureError where
  | invalidTerminalState (state : ClosureState)
  deriving DecidableEq

def ClosureState.name : ClosureState → String
  | .pending => "pending"
  | .claimed => "claimed"
  | .closed => "closed"
  | .cancelled => "cancelled"

def ClosureError.message : ClosureError → String
  | .invalidTerminalState state => "finalize_closure: invalid terminal state '" ++ state.name ++ "'"

variable {Text : Type} [LinearOrder Text]

/- `UPDATE … WHERE`. -/
def updateWhere (table : List (Row Text)) (hit : Row Text → Bool) (change : Row Text → Row Text) : List (Row Text) :=
  table.map fun row => if hit row then change row else row

/- `lower` is `str.lower`. -/
def upsertPendingClosure (lower : Text → Text) (table : List (Row Text)) (schedule : Schedule Text) (stamp : Text) :
    List (Row Text) :=
  if table.any fun row => row.issueKey = schedule.issueKey then
    updateWhere table (fun row => row.issueKey = schedule.issueKey) fun row =>
      { row with
        repo := schedule.repo, number := schedule.number, commentId := schedule.commentId,
        issueAuthor := lower schedule.issueAuthor, closeAt := schedule.closeAt, state := .pending,
        cancelReason := none, updatedAt := stamp }
  else
    table ++ [⟨schedule.issueKey,schedule.repo,schedule.number,schedule.commentId,lower schedule.issueAuthor,
      schedule.closeAt,.pending,none,stamp,stamp⟩]

def isDue (now : Text) (row : Row Text) : Bool := row.state = .pending && row.closeAt ≤ now

/- A negative limit is none. -/
def dueKeys (table : List (Row Text)) (now : Text) (limit : Int) : List Text :=
  let due := (table.filter (isDue now)).insertionSort fun a b => a.closeAt ≤ b.closeAt
  (if limit < 0 then due else due.take limit.toNat).map Row.issueKey

/- The claimed rows, and the table after. -/
def claimDueClosures (table : List (Row Text)) (now : Text) (limit : Int) : List (Row Text) × List (Row Text) :=
  let keys := dueKeys table now limit
  let claim := fun row : Row Text => { row with state := .claimed, updatedAt := now }
  ((table.filter fun row => row.issueKey ∈ keys).map claim, updateWhere table (fun row => row.issueKey ∈ keys) claim)

def isTerminal (state : ClosureState) : Bool := state = .closed || state = .cancelled

def finalizeClosure (table : List (Row Text)) (issueKey : Text) (state : ClosureState) (reason : Option Text)
    (stamp : Text) : Except ClosureError (List (Row Text)) :=
  if isTerminal state then
    .ok (updateWhere table (fun row => row.issueKey = issueKey) fun row =>
      { row with state := state, cancelReason := reason, updatedAt := stamp })
  else .error (.invalidTerminalState state)

/- Whether a row was changed, and the table after. -/
def requeueClaimedClosure (table : List (Row Text)) (issueKey stamp : Text) : Bool × List (Row Text) :=
  let hit := fun row : Row Text => row.issueKey = issueKey && row.state = .claimed
  (table.any hit, updateWhere table hit fun row => { row with state := .pending, updatedAt := stamp })

def cancelPendingClosure (table : List (Row Text)) (issueKey reason stamp : Text) : Bool × List (Row Text) :=
  let hit := fun row : Row Text => row.issueKey = issueKey && row.state = .pending
  (table.any hit,
    updateWhere table hit fun row => { row with state := .cancelled, cancelReason := some reason, updatedAt := stamp })

omit [LinearOrder Text] in
variable {table : List (Row Text)} {change : Row Text → Row Text}

theorem mem_update {hit : Row Text → Bool} {row : Row Text} :
    row ∈ updateWhere table hit change ↔ ∃ old ∈ table, row = if hit old then change old else old := by
  simp only [updateWhere, List.mem_map, eq_comm]

omit [LinearOrder Text] in
theorem keys_update (table : List (Row Text)) (hit : Row Text → Bool) (same : ∀ row, (change row).issueKey = row.issueKey) :
    (updateWhere table hit change).map Row.issueKey = table.map Row.issueKey := by
  rw [updateWhere, List.map_map]
  apply List.map_congr_left
  intro row _
  dsimp only [Function.comp_apply]
  split
  · exact same row
  · rfl

/-- Only a row that is pending is claimed. -/
theorem mem_dueKeys {now : Text} {limit : Int} {key : Text} (mem : key ∈ dueKeys table now limit) :
    ∃ row ∈ table, row.issueKey = key ∧ row.state = .pending := by
  rw [dueKeys] at mem
  obtain ⟨row,taken,same⟩ := List.mem_map.mp mem
  have sorted : row ∈ (table.filter (isDue now)).insertionSort fun a b => a.closeAt ≤ b.closeAt := by
    split at taken
    · exact taken
    · exact List.mem_of_mem_take taken
  rw [List.mem_insertionSort, List.mem_filter, isDue, Bool.and_eq_true, decide_eq_true_eq] at sorted
  exact ⟨row,sorted.1,same,sorted.2.1⟩

/-- A claim takes no key twice. -/
theorem dueKeys_nodup (distinct : (table.map Row.issueKey).Nodup) (now : Text) (limit : Int) :
    (dueKeys table now limit).Nodup := by
  have sorted : (((table.filter (isDue now)).insertionSort fun a b => a.closeAt ≤ b.closeAt).map Row.issueKey).Nodup := by
    have same := (List.perm_insertionSort (fun a b : Row Text => a.closeAt ≤ b.closeAt) (table.filter (isDue now))).map Row.issueKey
    rw [same.nodup_iff]
    exact distinct.sublist (List.filter_sublist.map Row.issueKey)
  rw [dueKeys]
  split
  · exact sorted
  · exact sorted.sublist ((List.take_sublist _ _).map Row.issueKey)

end PendingClosures
