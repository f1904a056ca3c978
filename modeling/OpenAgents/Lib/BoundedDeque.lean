import OpenAgents.Lib.Runs

/- A double-ended queue of bounded length. An item put into a full one drives out the item at the
   other end. -/
namespace BoundedDeque
variable {α : Type}

inductive Call (α : Type) where
  | push (item : α)
  | shift
  | pop
  | unshift (item : α)
  | clear
  deriving DecidableEq, Repr

/- What a call returns, and what is left. -/
def answer (capacity : Nat) (items : List α) : Call α → Option α × List α
  | .push item =>
      if items.length = capacity then (items.head?, items.tail ++ [item]) else (none, items ++ [item])
  | .shift => (items.head?, items.tail)
  | .pop => (items.getLast?, items.dropLast)
  | .unshift item =>
      if items.length = capacity then (items.getLast?, item :: items.dropLast) else (none, item :: items)
  | .clear => (none, [])

/- A negative index counts from the end. -/
def itemAt (items : List α) (index : Int) : Option α :=
  if 0 ≤ index then items[index.toNat]?
  else if -items.length ≤ index then items[(items.length + index).toNat]?
  else none

theorem itemAt_last (items : List α) : itemAt items (items.length - 1) = items.getLast? := by
  rw [List.getLast?_eq_getElem?]
  cases items with
  | nil => rfl
  | cons item rest =>
    have last : ((rest.length + 1 : Nat) - 1 : Int).toNat = rest.length + 1 - 1 := by omega
    rw [itemAt, List.length_cons, if_pos (by omega), last]

end BoundedDeque
