import Mathlib.Data.List.DropRight
import Mathlib.Data.List.Infix

/- The last position at which a predicate holds. -/
namespace LastIndex
variable {α : Type}

def lastIndex (p : α → Bool) : List α → Option Nat
  | [] => none
  | x :: rest =>
      match lastIndex p rest with
      | some i => some (i + 1)
      | none => if p x then some 0 else none

variable {p : α → Bool} {xs : List α} {i : Nat}

theorem lastIndex_none_iff : lastIndex p xs = none ↔ ∀ x ∈ xs, p x = false := by
  induction xs with
  | nil => simp [lastIndex]
  | cons x rest ih =>
    rw [lastIndex, List.forall_mem_cons, ← ih]
    cases later : lastIndex p rest with
    | none => cases holds : p x <;> simp
    | some i => simp

theorem lastIndex_some (found : lastIndex p xs = some i) :
    ∃ front x back, xs = front ++ x :: back ∧ front.length = i ∧ p x = true ∧
      ∀ y ∈ back, p y = false := by
  induction xs generalizing i with
  | nil => cases found
  | cons x rest ih =>
    rw [lastIndex] at found
    cases later : lastIndex p rest with
    | none =>
      rw [later] at found
      cases holds : p x with
      | false => simp [holds] at found
      | true =>
        obtain rfl : 0 = i := by simpa [holds] using found
        exact ⟨[],x,rest,rfl,rfl,holds,lastIndex_none_iff.mp later⟩
    | some j =>
      rw [later] at found
      obtain rfl : j + 1 = i := by simpa using found
      obtain ⟨front,y,back,shape,length,holds,none_later⟩ := ih later
      exact ⟨x :: front,y,back,by rw [shape]; rfl,by simp [length],holds,none_later⟩

theorem lastIndex_append (front : List α) {x : α} {back : List α} (holds : p x = true) (none_later : ∀ y ∈ back, p y = false) : lastIndex p (front ++ x :: back) = some front.length := by
  induction front with
  | nil => rw [List.nil_append, lastIndex, lastIndex_none_iff.mpr none_later, holds]; rfl
  | cons y front ih => rw [List.cons_append, lastIndex, ih]; rfl

theorem lastIndex_lt (found : lastIndex p xs = some i) : i < xs.length := by
  obtain ⟨front,x,back,rfl,rfl,-,-⟩ := lastIndex_some found
  simp

theorem lastIndex_hit (found : lastIndex p xs = some i) : (xs[i]?).any p = true ∧ ∀ j, i < j → (xs[j]?).any p = false := by
  obtain ⟨front,x,back,rfl,rfl,holds,none_later⟩ := lastIndex_some found
  constructor
  · simp [holds]
  · intro j behind
    cases there : (front ++ x :: back)[j]? with
    | none => rfl
    | some y =>
      obtain ⟨k,rfl⟩ := Nat.exists_eq_add_of_lt behind
      rw [List.getElem?_append_right (by omega), show front.length + k + 1 - front.length = k + 1 by omega,
        List.getElem?_cons_succ] at there
      exact none_later y (List.mem_of_getElem? there)

/-- What stands behind the last hit is the longest tail without one. -/
theorem drop_lastIndex (p : α → Bool) (xs : List α) :
    xs.drop (((lastIndex p xs).map (· + 1)).getD 0) = xs.rtakeWhile fun x => !p x := by
  cases found : lastIndex p xs with
  | none =>
    have all : ∀ x ∈ xs, (!p x) = true := by
      intro x mem
      simp [lastIndex_none_iff.mp found x mem]
    simp [List.rtakeWhile_eq_self_iff.mpr all]
  | some i =>
    obtain ⟨front,x,back,rfl,rfl,holds,none_later⟩ := lastIndex_some found
    have tail : ∀ ys : List α, (∀ y ∈ ys, p y = false) →
        (front ++ x :: ys).rtakeWhile (fun x => !p x) = ys := by
      intro ys
      induction ys using List.reverseRecOn with
      | nil => simp [holds]
      | append_singleton ys y ih =>
        intro none_of
        have earlier := ih fun z mem => none_of z (List.mem_append_left _ mem)
        have last := none_of y (by simp)
        rw [← List.cons_append, ← List.append_assoc, List.rtakeWhile_concat, last, earlier]
        rfl
    rw [tail back none_later]
    simp

end LastIndex

/- The longest list at one end of another that has a property, where every shorter one has it too. -/
namespace LongestPart
variable {α : Type} (P : List α → Prop)

structure LongestPrefix (all kept : List α) : Prop where
  part : kept <+: all
  holds : P kept
  longest : ∀ other, other <+: all → P other → other <+: kept

structure LongestSuffix (all kept : List α) : Prop where
  part : kept <:+ all
  holds : P kept
  longest : ∀ other, other <:+ all → P other → other <:+ kept

variable {P}

/-- One more has the property no longer. -/
theorem longest_take (closed : ∀ front whole, front <+: whole → P whole → P front) {all : List α} {k : Nat}
    (holds : P (all.take k)) (stops : all.length ≤ k ∨ ¬ P (all.take (k + 1))) : LongestPrefix P all (all.take k) := by
  refine ⟨List.take_prefix k all,holds,?_⟩
  intro other part has
  rw [List.prefix_take_iff]
  refine ⟨part,Nat.le_of_not_lt fun longer => ?_⟩
  rcases stops with whole | fails
  · have bound := part.length_le
    omega
  · apply fails
    have same := List.prefix_iff_eq_take.mp part
    refine closed _ other ?_ has
    rw [same, List.prefix_take_iff]
    exact ⟨List.take_prefix _ all,by rw [List.length_take]; omega⟩

theorem longest_drop (closed : ∀ back whole, back <:+ whole → P whole → P back) {all : List α} {k : Nat}
    (holds : P (all.drop k)) (stops : k = 0 ∨ ¬ P (all.drop (k - 1))) : LongestSuffix P all (all.drop k) := by
  refine ⟨List.drop_suffix k all,holds,?_⟩
  intro other part has
  have drop : ∀ j, other.length ≤ all.length - j → other <:+ all.drop j := fun j short =>
    List.suffix_of_suffix_length_le part (List.drop_suffix j all) (by rw [List.length_drop]; exact short)
  apply drop
  refine Nat.le_of_not_lt fun longer => ?_
  have bound := part.length_le
  rcases stops with whole | fails
  · omega
  · apply fails
    refine closed _ other ?_ has
    exact List.suffix_of_suffix_length_le (List.drop_suffix _ all) part (by rw [List.length_drop]; omega)

end LongestPart
