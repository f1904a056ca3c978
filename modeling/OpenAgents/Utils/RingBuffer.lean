import Mathlib.Data.Nat.ModEq
import OpenAgents.Lib.BoundedDeque

/- A circular buffer of fixed capacity: the items stand in `size` slots from `head` on, around the
   end of the array. Full, it makes room at the other end. -/
namespace Utils
open BoundedDeque AnsweredRuns

/-- The slots, where the first item stands and how many items there are. An empty slot is `none`. -/
structure RingBuffer (α : Type) where
  capacity : Nat
  buf : List (Option α)
  head : Nat
  size : Nat
  slots : buf.length = capacity
  begins : head < capacity
  bounded : size ≤ capacity

namespace RingBuffer
variable {α : Type} (r : RingBuffer α)

theorem positive : 0 < r.capacity := Nat.zero_lt_of_lt r.begins

/- Of an empty slot nothing is read. -/
def slot (i : Nat) : Option α := (r.buf[i]?).join

def empty (capacity : Nat) (positive : 0 < capacity) : RingBuffer α where
  capacity := capacity
  buf := List.replicate capacity none
  head := 0
  size := 0
  slots := List.length_replicate
  begins := positive
  bounded := Nat.zero_le capacity

def length : Nat := r.size

def isFull : Bool := r.size = r.capacity

def isEmpty : Bool := r.size = 0

def push (item : α) : Option α × RingBuffer α :=
  let idx := (r.head + r.size) % r.capacity
  let overwritten := if r.size = r.capacity then r.slot idx else none
  let buf := r.buf.set idx (some item)
  (overwritten,
    if full : r.size = r.capacity then
      { r with
        buf := buf
        head := (r.head + 1) % r.capacity
        slots := by rw [List.length_set, r.slots]
        begins := Nat.mod_lt _ r.positive }
    else
      { r with
        buf := buf
        size := r.size + 1
        slots := by rw [List.length_set, r.slots]
        bounded := Nat.lt_of_le_of_ne r.bounded full })

def shift : Option α × RingBuffer α :=
  if r.size = 0 then (none, r)
  else
    (r.slot r.head,
      { r with
        buf := r.buf.set r.head none
        head := (r.head + 1) % r.capacity
        size := r.size - 1
        slots := by rw [List.length_set, r.slots]
        begins := Nat.mod_lt _ r.positive
        bounded := Nat.le_trans (Nat.sub_le _ _) r.bounded })

def pop : Option α × RingBuffer α :=
  if r.size = 0 then (none, r)
  else
    let idx := (r.head + r.size - 1) % r.capacity
    (r.slot idx,
      { r with
        buf := r.buf.set idx none
        size := r.size - 1
        slots := by rw [List.length_set, r.slots]
        bounded := Nat.le_trans (Nat.sub_le _ _) r.bounded })

def unshift (item : α) : Option α × RingBuffer α :=
  let head := (r.head + r.capacity - 1) % r.capacity
  let overwritten := if r.size = r.capacity then r.slot head else none
  (overwritten,
    { r with
      buf := r.buf.set head (some item)
      head := head
      size := if r.size < r.capacity then r.size + 1 else r.size
      slots := by rw [List.length_set, r.slots]
      begins := Nat.mod_lt _ r.positive
      bounded := by
        have bounded := r.bounded
        split <;> omega })

def clear : RingBuffer α :=
  { r with
    buf := List.replicate r.capacity none
    head := 0
    size := 0
    slots := List.length_replicate
    begins := r.positive
    bounded := Nat.zero_le _ }

def at' (index : Int) : Option α :=
  let index := if index < 0 then index + r.size else index
  if index < 0 ∨ r.size ≤ index then none else r.slot ((r.head + index.toNat) % r.capacity)

def peek : Option α := r.at' 0

def peekBack : Option α := r.at' (r.size - 1)

def iterator : List (Option α) := (List.range r.size).map fun i => r.slot ((r.head + i) % r.capacity)

def toArray : List (Option α) :=
  if r.head + r.size ≤ r.capacity then (r.buf.take (r.head + r.size)).drop r.head
  else (r.buf.take r.capacity).drop r.head ++ r.buf.take ((r.head + r.size) % r.capacity)

def answer : Call α → Option α × RingBuffer α
  | .push item => r.push item
  | .shift => r.shift
  | .pop => r.pop
  | .unshift item => r.unshift item
  | .clear => (none, r.clear)

end RingBuffer

section simulation
variable {α : Type} {r : RingBuffer α} {items : List α}

/-- The items are the ones in the slots from the head on. -/
def Shows (r : RingBuffer α) (items : List α) : Prop :=
  items.length = r.size ∧ ∀ i < r.size, r.slot ((r.head + i) % r.capacity) = items[i]?

theorem slot_set {buf : List (Option α)} {idx j : Nat} (inside : idx < buf.length) (cell : Option α) :
    ((buf.set idx cell)[j]?).join = if idx = j then cell else (buf[j]?).join := by
  by_cases same : idx = j
  · rw [if_pos same, ← same, List.getElem?_set_self inside]
    rfl
  · rw [if_neg same, List.getElem?_set_ne same]

/-- Slots at different distances from the head are different. -/
theorem slot_apart {i j : Nat} (insideI : i < r.capacity) (insideJ : j < r.capacity) (ne : i ≠ j) :
    (r.head + i) % r.capacity ≠ (r.head + j) % r.capacity := by
  intro same
  have congruent : Nat.ModEq r.capacity i j := Nat.ModEq.add_left_cancel' r.head same
  exact ne (congruent.eq_of_lt_of_lt insideI insideJ)

theorem slot_inside (r : RingBuffer α) (i : Nat) : (r.head + i) % r.capacity < r.buf.length := by
  rw [r.slots]
  exact Nat.mod_lt _ r.positive

/-- From the next head, everything stands one slot nearer. -/
theorem slot_next (head capacity i : Nat) : ((head + 1) % capacity + i) % capacity = (head + (i + 1)) % capacity := by
  rw [Nat.mod_add_mod, Nat.add_assoc, Nat.add_comm 1]

/-- From the head before, everything stands one slot farther. -/
theorem slot_back {head capacity : Nat} (positive : 0 < capacity) (i : Nat) :
    ((head + capacity - 1) % capacity + (i + 1)) % capacity = (head + i) % capacity := by
  have whole : head + capacity - 1 + (i + 1) = head + i + capacity := by omega
  rw [Nat.mod_add_mod, whole, Nat.add_mod_right]

theorem shows_push (shows' : Shows r items) (item : α) :
    (r.push item).1 = (answer r.capacity items (.push item)).1 ∧
      Shows (r.push item).2 (answer r.capacity items (.push item)).2 := by
  obtain ⟨count,cells⟩ := shows'
  have positive := r.positive
  by_cases full : r.size = r.capacity
  · have all : items.length = r.capacity := count.trans full
    have around : (r.head + r.size) % r.capacity = (r.head + 0) % r.capacity := by
      rw [full, Nat.add_mod_right, Nat.add_zero]
    have first := cells 0 (by omega)
    simp only [RingBuffer.push, answer, if_pos full, if_pos all, dif_pos full]
    refine ⟨?_,?_,?_⟩
    · rw [around, first, List.head?_eq_getElem?]
    · simp only [List.length_append, List.length_tail, List.length_singleton]
      omega
    · intro i inside
      simp only [RingBuffer.slot] at cells inside ⊢
      rw [slot_next, slot_set (slot_inside r r.size)]
      by_cases last : i + 1 = r.capacity
      · have here : i - items.tail.length = 0 := by
          rw [List.length_tail]
          omega
        rw [last, full, if_pos rfl, List.getElem?_append_right (by rw [List.length_tail]; omega), here]
        rfl
      · have apart := slot_apart (r := r) (i := 0) (j := i + 1) positive (by omega) (by omega)
        rw [around, if_neg apart, cells (i + 1) (by omega), List.getElem?_append_left (by rw [List.length_tail]; omega),
          List.getElem?_tail]
  · have room : ¬ items.length = r.capacity := by omega
    have bounded := r.bounded
    simp only [RingBuffer.push, answer, if_neg full, if_neg room, dif_neg full]
    refine ⟨trivial,?_,?_⟩
    · simp only [List.length_append, List.length_singleton]
      omega
    · intro i inside
      simp only [RingBuffer.slot] at cells inside ⊢
      rw [slot_set (slot_inside r r.size)]
      by_cases last : i = r.size
      · rw [last, if_pos rfl, ← count, List.getElem?_concat_length]
      · have apart := slot_apart (r := r) (i := r.size) (j := i) (by omega) (by omega) (Ne.symm last)
        rw [if_neg apart, cells i (by omega), List.getElem?_append_left (by omega)]

theorem shows_unshift (shows' : Shows r items) (item : α) :
    (r.unshift item).1 = (answer r.capacity items (.unshift item)).1 ∧
      Shows (r.unshift item).2 (answer r.capacity items (.unshift item)).2 := by
  obtain ⟨count,cells⟩ := shows'
  have positive := r.positive
  have front : (r.head + r.capacity - 1) % r.capacity = (r.head + (r.capacity - 1)) % r.capacity := by
    rw [Nat.add_sub_assoc positive]
  -- The slot before the head, and then the items as they stood.
  have moved : ∀ kept : List α, kept.length < r.capacity → (∀ i < kept.length, kept[i]? = items[i]?) → kept.length ≤ r.size →
      ∀ i < kept.length + 1, ((r.buf.set ((r.head + r.capacity - 1) % r.capacity) (some item))[
        ((r.head + r.capacity - 1) % r.capacity + i) % r.capacity]?).join = (item :: kept)[i]? := by
    intro kept room same fewer i inside
    rw [slot_set (by rw [front]; exact slot_inside r _)]
    cases i with
    | zero => rw [Nat.add_zero, Nat.mod_mod, if_pos rfl, List.getElem?_cons_zero]
    | succ i =>
      have apart := slot_apart (r := r) (i := r.capacity - 1) (j := i) (by omega) (by omega) (by omega)
      have cell := cells i (by omega)
      rw [RingBuffer.slot] at cell
      rw [slot_back positive, front, if_neg apart, cell, List.getElem?_cons_succ, same i (by omega)]
  by_cases full : r.size = r.capacity
  · have all : items.length = r.capacity := count.trans full
    have notLess : ¬ r.size < r.capacity := by omega
    have last := cells (r.capacity - 1) (by omega)
    simp only [RingBuffer.unshift, answer, if_pos full, if_pos all, if_neg notLess]
    refine ⟨?_,?_,?_⟩
    · rw [front, last, List.getLast?_eq_getElem?, all]
    · simp only [List.length_cons, List.length_dropLast]
      omega
    · intro i inside
      dsimp only at inside
      apply moved
      · rw [List.length_dropLast]
        omega
      · intro i inside
        rw [List.length_dropLast] at inside
        rw [List.getElem?_dropLast, if_pos inside]
      · rw [List.length_dropLast]
        omega
      · rw [List.length_dropLast]
        omega
  · have room : ¬ items.length = r.capacity := by omega
    have less : r.size < r.capacity := Nat.lt_of_le_of_ne r.bounded full
    simp only [RingBuffer.unshift, answer, if_neg full, if_neg room, if_pos less]
    refine ⟨trivial,?_,?_⟩
    · simp only [List.length_cons, count]
    · intro i inside
      dsimp only at inside
      exact moved items (by omega) (fun _ _ => rfl) (by omega) i (by omega)

theorem shows_shift (shows' : Shows r items) :
    r.shift.1 = (answer r.capacity items .shift).1 ∧ Shows r.shift.2 (answer r.capacity items .shift).2 := by
  obtain ⟨count,cells⟩ := shows'
  by_cases none' : r.size = 0
  · have nothing : items = [] := List.length_eq_zero_iff.mp (count.trans none')
    rw [RingBuffer.shift, if_pos none', nothing]
    exact ⟨rfl,none'.symm,fun i inside => absurd (inside.trans_eq none') (Nat.not_lt_zero i)⟩
  · have bounded := r.bounded
    have first := cells 0 (by omega)
    rw [Nat.add_zero, Nat.mod_eq_of_lt r.begins] at first
    rw [RingBuffer.shift, if_neg none']
    refine ⟨?_,?_,?_⟩
    · simp only [answer, first, List.head?_eq_getElem?]
    · simp only [answer, List.length_tail, count]
    · intro i inside
      simp only [RingBuffer.slot] at cells inside ⊢
      have apart := slot_apart (r := r) (i := 0) (j := i + 1) (by omega) (by omega) (by omega)
      rw [Nat.add_zero, Nat.mod_eq_of_lt r.begins] at apart
      rw [slot_next, slot_set (by rw [r.slots]; exact r.begins), if_neg apart, cells (i + 1) (by omega), answer,
        List.getElem?_tail]

theorem shows_pop (shows' : Shows r items) :
    r.pop.1 = (answer r.capacity items .pop).1 ∧ Shows r.pop.2 (answer r.capacity items .pop).2 := by
  obtain ⟨count,cells⟩ := shows'
  by_cases none' : r.size = 0
  · have nothing : items = [] := List.length_eq_zero_iff.mp (count.trans none')
    rw [RingBuffer.pop, if_pos none', nothing]
    exact ⟨rfl,none'.symm,fun i inside => absurd (inside.trans_eq none') (Nat.not_lt_zero i)⟩
  · have bounded := r.bounded
    have end' : (r.head + r.size - 1) % r.capacity = (r.head + (r.size - 1)) % r.capacity := by
      rw [Nat.add_sub_assoc (Nat.pos_of_ne_zero none')]
    have last := cells (r.size - 1) (by omega)
    rw [RingBuffer.pop, if_neg none']
    refine ⟨?_,?_,?_⟩
    · simp only [answer, end', last, List.getLast?_eq_getElem?, count]
    · simp only [answer, List.length_dropLast, count]
    · intro i inside
      simp only [RingBuffer.slot] at cells inside ⊢
      have apart := slot_apart (r := r) (i := r.size - 1) (j := i) (by omega) (by omega) (by omega)
      rw [end', slot_set (slot_inside r _), if_neg apart, cells i (by omega), answer, List.getElem?_dropLast,
        if_pos (by omega)]

theorem shows_empty (capacity : Nat) (positive : 0 < capacity) : Shows (RingBuffer.empty capacity positive) ([] : List α) :=
  ⟨rfl,fun i inside => absurd inside (Nat.not_lt_zero i)⟩

/-- An answer leaves the capacity as it is. -/
theorem answer_capacity (r : RingBuffer α) (call : Call α) : (r.answer call).2.capacity = r.capacity := by
  cases call with
  | push item =>
    simp only [RingBuffer.answer, RingBuffer.push]
    split <;> rfl
  | shift =>
    simp only [RingBuffer.answer, RingBuffer.shift]
    split <;> rfl
  | pop =>
    simp only [RingBuffer.answer, RingBuffer.pop]
    split <;> rfl
  | unshift item => rfl
  | clear => rfl

/-- One call: the buffer answers as the queue does and goes on showing its items. -/
theorem ring_simulates (capacity : Nat) : Simulates (fun (r : RingBuffer α) items => r.capacity = capacity ∧ Shows r items)
    RingBuffer.answer (answer capacity) := by
  intro r items call related
  obtain ⟨same,shows'⟩ := related
  have kept := (answer_capacity r call).trans same
  rw [← same] at kept ⊢
  cases call with
  | push item => exact ⟨(shows_push shows' item).1,kept,(shows_push shows' item).2⟩
  | shift => exact ⟨(shows_shift shows').1,kept,(shows_shift shows').2⟩
  | pop => exact ⟨(shows_pop shows').1,kept,(shows_pop shows').2⟩
  | unshift item => exact ⟨(shows_unshift shows' item).1,kept,(shows_unshift shows' item).2⟩
  | clear => exact ⟨rfl,kept,shows_empty r.capacity r.positive⟩

end simulation

section observation
variable {α : Type} {r : RingBuffer α} {items : List α}

theorem at_shows (shows' : Shows r items) (index : Int) : r.at' index = itemAt items index := by
  obtain ⟨count,cells⟩ := shows'
  simp only [RingBuffer.at', itemAt]
  by_cases back : index < 0
  · rw [if_pos back, if_neg (Int.not_le.mpr back), count]
    by_cases reach : -(r.size : Int) ≤ index
    · have inside : ¬ (index + r.size < 0 ∨ (r.size : Int) ≤ index + r.size) := by omega
      rw [if_neg inside, if_pos reach, cells _ (by omega), Int.add_comm]
    · have outside : index + r.size < 0 ∨ (r.size : Int) ≤ index + r.size := by omega
      rw [if_pos outside, if_neg reach]
  · rw [if_neg back, if_pos (Int.not_lt.mp back)]
    by_cases reach : index < r.size
    · have inside : ¬ (index < 0 ∨ (r.size : Int) ≤ index) := by omega
      rw [if_neg inside, cells _ (by omega)]
    · have outside : index < 0 ∨ (r.size : Int) ≤ index := by omega
      rw [if_pos outside, List.getElem?_eq_none (by omega)]

theorem iterator_shows (shows' : Shows r items) : r.iterator = items.map some := by
  obtain ⟨count,cells⟩ := shows'
  apply List.ext_getElem?
  intro i
  rw [RingBuffer.iterator, List.getElem?_map, List.getElem?_map]
  by_cases inside : i < r.size
  · rw [List.getElem?_range inside, Option.map_some, cells i inside, List.getElem?_eq_getElem (by omega), Option.map_some]
  · rw [List.getElem?_eq_none (by rw [List.length_range]; omega), List.getElem?_eq_none (by omega)]
    rfl

theorem toArray_iterator (r : RingBuffer α) : r.toArray = r.iterator := by
  have bounded := r.bounded
  have begins := r.begins
  have slots := r.slots
  have slot : ∀ i, i < r.capacity → r.buf[i]? = some (r.slot i) := by
    intro i inside
    rw [RingBuffer.slot, List.getElem?_eq_getElem (by omega)]
    rfl
  apply List.ext_getElem?
  intro i
  rw [RingBuffer.iterator, List.getElem?_map, RingBuffer.toArray]
  by_cases inside : i < r.size
  · rw [List.getElem?_range inside, Option.map_some]
    split
    · rw [List.getElem?_drop, List.getElem?_take_of_lt (by omega), slot _ (by omega), Nat.mod_eq_of_lt (by omega)]
    · rename_i wraps
      have tail : ((r.buf.take r.capacity).drop r.head).length = r.capacity - r.head := by
        rw [List.length_drop, List.length_take]
        omega
      have around : (r.head + r.size) % r.capacity = r.head + r.size - r.capacity := by
        rw [Nat.mod_eq_sub_mod (by omega), Nat.mod_eq_of_lt (by omega)]
      by_cases before : r.head + i < r.capacity
      · rw [List.getElem?_append_left (by omega), List.getElem?_drop, List.getElem?_take_of_lt before, slot _ before,
          Nat.mod_eq_of_lt before]
      · have place : (r.head + i) % r.capacity = i - (r.capacity - r.head) := by
          rw [Nat.mod_eq_sub_mod (by omega), Nat.mod_eq_of_lt (by omega)]
          omega
        rw [List.getElem?_append_right (by omega), tail, around, List.getElem?_take_of_lt (by omega), slot _ (by omega), place]
  · have outside : (List.range r.size)[i]? = none := List.getElem?_eq_none (by rw [List.length_range]; omega)
    rw [outside, Option.map_none, List.getElem?_eq_none_iff]
    split
    · rw [List.length_drop, List.length_take]
      omega
    · rename_i wraps
      have around : (r.head + r.size) % r.capacity = r.head + r.size - r.capacity := by
        rw [Nat.mod_eq_sub_mod (by omega), Nat.mod_eq_of_lt (by omega)]
      rw [List.length_append, List.length_drop, List.length_take, List.length_take, around]
      omega

/-- After any calls, each of them answered as the bounded queue answers it, the buffer shows the
    items of the queue in every way there is to look at them. -/
theorem ring_refines_deque (capacity : Nat) (positive : 0 < capacity) (calls : List (Call α)) :
    let ring := run RingBuffer.answer (RingBuffer.empty capacity positive) calls
    let deque := run (answer capacity) [] calls
    ring.1 = deque.1 ∧ ring.2.length = deque.2.length ∧ (∀ index, ring.2.at' index = itemAt deque.2 index) ∧
      ring.2.peek = deque.2.head? ∧ ring.2.peekBack = deque.2.getLast? ∧ ring.2.toArray = deque.2.map some ∧
      ring.2.iterator = deque.2.map some ∧ (ring.2.isFull = true ↔ deque.2.length = capacity) ∧
      (ring.2.isEmpty = true ↔ deque.2 = []) := by
  intro ring deque
  obtain ⟨answers,same,shows'⟩ := run_simulates (ring_simulates capacity) ⟨rfl,shows_empty (α := α) capacity positive⟩ calls
  have count : deque.2.length = ring.2.size := shows'.1
  have capacity' : ring.2.capacity = capacity := same
  have last : ring.2.peekBack = deque.2.getLast? := by
    rw [RingBuffer.peekBack, at_shows shows', ← count, itemAt_last]
  refine ⟨answers,count.symm,at_shows shows',?_,last,?_,iterator_shows shows',?_,?_⟩
  · rw [RingBuffer.peek, at_shows shows', itemAt, if_pos (Int.le_refl 0), List.head?_eq_getElem?]
    rfl
  · rw [toArray_iterator, iterator_shows shows']
  · rw [RingBuffer.isFull, decide_eq_true_eq, count, capacity']
  · rw [RingBuffer.isEmpty, decide_eq_true_eq, ← count, List.length_eq_zero_iff]

theorem ring_refines_deque_full : (run RingBuffer.answer (RingBuffer.empty 2 (by decide)) [.push 1, .push 2, .push 3, .unshift 0, .pop]).1 =
    [none, none, some 1, some 3, some 2] :=
  (ring_refines_deque 2 (by decide) [.push 1, .push 2, .push 3, .unshift 0, .pop]).1.trans (by decide)

end observation

end Utils
