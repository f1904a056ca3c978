import Mathlib.Data.List.Basic

/- In-place splices of a list. Replacing single positions from the last to the
   first is one left-to-right pass, since no splice moves an earlier position. -/
namespace LineSplice
variable {α β : Type}

def splice (xs : List α) (start count : Nat) (items : List α) : List α :=
  xs.take start ++ items ++ xs.drop (start + count)

theorem set_split {xs : List α} {i : Nat} {x : α} (here : xs[i]? = some x) :
    ∃ front back, xs = front ++ x :: back ∧ ∀ y, xs.set i y = front ++ y :: back := by
  obtain ⟨inside,same⟩ := List.getElem?_eq_some_iff.mp here
  refine ⟨xs.take i,xs.drop (i + 1),?_,?_⟩
  · rw [← same, ← List.drop_eq_getElem_cons inside, List.take_append_drop]
  · intro y
    rw [List.set_eq_take_append_cons_drop, if_pos inside]

/- Positions are 1-indexed; `fallback` stands for a read past the end. -/
def replaceAt (fallback : α) (rows : Nat → α → List α) (xs : List α) (n : Nat) : List α :=
  splice xs (n - 1) 1 (rows n (xs[n - 1]?.getD fallback))

/- One pass over the list, the first element being at position `start`. -/
def linePass (rows : Nat → α → List β) : Nat → List α → List β
  | _, [] => []
  | start, x :: xs => rows start x ++ linePass rows (start + 1) xs

theorem linePass_append (rows : Nat → α → List β) (start : Nat) (xs ys : List α) :
    linePass rows start (xs ++ ys) = linePass rows start xs ++ linePass rows (start + xs.length) ys := by
  induction xs generalizing start with
  | nil => simp [linePass]
  | cons x xs ih =>
    simp only [List.cons_append, linePass, ih, List.length_cons, List.append_assoc]
    rw [Nat.add_assoc, Nat.add_comm 1]

theorem linePass_congr {rows rows' : Nat → α → List β} (start : Nat) (xs : List α)
    (same : ∀ n x, start ≤ n → n < start + xs.length → rows n x = rows' n x) :
    linePass rows start xs = linePass rows' start xs := by
  induction xs generalizing start with
  | nil => rfl
  | cons x xs ih =>
    simp only [List.length_cons] at same
    simp only [linePass]
    rw [same start x (Nat.le_refl _) (by omega),
      ih (start + 1) (fun n y low high => same n y (by omega) (by omega))]

theorem linePass_keep (start : Nat) (xs : List α) : linePass (fun _ x => [x]) start xs = xs := by
  induction xs generalizing start with
  | nil => rfl
  | cons x xs ih => simp [linePass, ih]

theorem mem_linePass {rows : Nat → α → List β} {start : Nat} {xs : List α} {y : β} :
    y ∈ linePass rows start xs ↔ ∃ i, ∃ inside : i < xs.length, y ∈ rows (start + i) xs[i] := by
  induction xs generalizing start with
  | nil => simp [linePass]
  | cons x xs ih =>
    rw [linePass, List.mem_append, ih]
    constructor
    · intro found
      rcases found with first | ⟨i,inside,later⟩
      · exact ⟨0,by simp,first⟩
      · refine ⟨i + 1,by simpa using inside,?_⟩
        rw [Nat.add_assoc, Nat.add_comm 1] at later
        exact later
    · intro found
      obtain ⟨i,inside,here⟩ := found
      cases i with
      | zero => exact .inl here
      | succ i =>
        refine .inr ⟨i,by simpa using inside,?_⟩
        rw [Nat.add_assoc, Nat.add_comm 1]
        exact here

theorem linePass_pairwise {rows : Nat → α → List β} {r : β → β → Prop} (each : ∀ n x, (rows n x).Pairwise r)
    (apart : ∀ m n x y a b, m < n → a ∈ rows m x → b ∈ rows n y → r a b) (start : Nat) (xs : List α) :
    (linePass rows start xs).Pairwise r := by
  induction xs generalizing start with
  | nil => exact List.Pairwise.nil
  | cons x xs ih =>
    rw [linePass, List.pairwise_append]
    refine ⟨each start x,ih (start + 1),?_⟩
    intro a here b later
    obtain ⟨i,inside,row⟩ := mem_linePass.mp later
    exact apart start (start + 1 + i) x _ a b (by omega) here row

/-- A pass whose rows are `extra n` around what `kept` leaves has all extra rows and all kept ones. -/
theorem linePass_perm {rows kept : Nat → α → List β} {extra : Nat → List β}
    (split : ∀ n x, (rows n x).Perm (extra n ++ kept n x)) (start : Nat) (xs : List α) :
    (linePass rows start xs).Perm
      ((List.range' start xs.length).flatMap extra ++ linePass kept start xs) := by
  induction xs generalizing start with
  | nil => simp [linePass]
  | cons x xs ih =>
    simp only [linePass, List.length_cons, List.range'_succ, List.flatMap_cons]
    have joined := (split start x).append (ih (start + 1))
    refine joined.trans ?_
    simp only [List.append_assoc]
    apply List.Perm.append_left
    simp only [← List.append_assoc]
    exact List.Perm.append_right _ List.perm_append_comm

theorem replaceAt_append (fallback : α) (rows : Nat → α → List α) (xs ys : List α) (n : Nat)
    (low : 1 ≤ n) (inside : n ≤ xs.length) :
    replaceAt fallback rows (xs ++ ys) n = replaceAt fallback rows xs n ++ ys := by
  have early : n - 1 < xs.length := by omega
  have reach : n - 1 + 1 ≤ xs.length := by omega
  simp only [replaceAt, splice, List.getElem?_append_left early]
  rw [List.take_append_of_le_length (by omega), List.drop_append_of_le_length reach]
  simp only [List.append_assoc]

theorem foldl_replaceAt_append (fallback : α) (rows : Nat → α → List α) (ks : List Nat)
    (xs ys : List α) (positions : ∀ k ∈ ks, 1 ≤ k ∧ k ≤ xs.length)
    (descending : ks.Pairwise (· > ·)) :
    ks.foldl (replaceAt fallback rows) (xs ++ ys) =
      ks.foldl (replaceAt fallback rows) xs ++ ys := by
  induction ks generalizing xs ys with
  | nil => rfl
  | cons k ks ih =>
    obtain ⟨low,high⟩ := positions k (by simp)
    have below := (List.pairwise_cons.mp descending).1
    have rest := (List.pairwise_cons.mp descending).2
    -- Later positions are smaller, so they stay inside the part before `k`.
    have split : ∀ zs : List α, k ≤ zs.length → replaceAt fallback rows zs k =
        zs.take (k - 1) ++ (rows k (zs[k - 1]?.getD fallback) ++ zs.drop k) := by
      intro zs _
      simp only [replaceAt, splice, List.append_assoc]
      rw [Nat.sub_add_cancel low]
    have prefixed : ∀ j ∈ ks, 1 ≤ j ∧ j ≤ (xs.take (k - 1)).length := by
      intro j mem
      have := below j mem
      have := (positions j (by simp [mem])).1
      rw [List.length_take]
      omega
    simp only [List.foldl_cons]
    rw [replaceAt_append fallback rows xs ys k low high, split xs high, List.append_assoc,
      ih _ _ prefixed rest, ih _ _ prefixed rest]
    simp only [List.append_assoc]

/-- The splices at positions `ks`, taken from last to first, are one pass. -/
theorem bottom_up_is_pass (fallback : α) (rows : Nat → α → List α) (ks : List Nat) (xs : List α)
    (positions : ∀ k ∈ ks, 1 ≤ k ∧ k ≤ xs.length) (descending : ks.Pairwise (· > ·)) :
    ks.foldl (replaceAt fallback rows) xs =
      linePass (fun n x => if n ∈ ks then rows n x else [x]) 1 xs := by
  induction ks generalizing xs with
  | nil => simpa using (linePass_keep 1 xs).symm
  | cons k ks ih =>
    obtain ⟨low,high⟩ := positions k (by simp)
    have below := (List.pairwise_cons.mp descending).1
    have rest := (List.pairwise_cons.mp descending).2
    have prefixed : ∀ j ∈ ks, 1 ≤ j ∧ j ≤ (xs.take (k - 1)).length := by
      intro j mem
      have := below j mem
      have := (positions j (by simp [mem])).1
      rw [List.length_take]
      omega
    have index : k - 1 < xs.length := by omega
    have decomposed : xs = xs.take (k - 1) ++ xs[k - 1] :: xs.drop k := by
      have tail : xs.drop (k - 1) = xs[k - 1] :: xs.drop k := by
        rw [List.drop_eq_getElem_cons index, Nat.sub_add_cancel low]
      rw [← tail, List.take_append_drop]
    have first : replaceAt fallback rows xs k =
        xs.take (k - 1) ++ (rows k xs[k - 1] ++ xs.drop k) := by
      simp only [replaceAt, splice, List.append_assoc, Nat.sub_add_cancel low,
        List.getElem?_eq_getElem index, Option.getD_some]
    have taken : (xs.take (k - 1)).length = k - 1 := by
      rw [List.length_take]
      omega
    rw [List.foldl_cons, first, foldl_replaceAt_append _ _ _ _ _ prefixed rest, ih _ prefixed rest]
    conv => rhs; rw [decomposed, linePass_append, taken, linePass]
    have position : 1 + (k - 1) = k := by omega
    simp only [position, List.mem_cons, true_or, if_true]
    congr 1
    · apply linePass_congr
      intro n x from_one before
      have other : n ≠ k := by omega
      simp [other]
    · rw [List.append_cancel_left_eq]
      conv => lhs; rw [← linePass_keep (k + 1) (xs.drop k)]
      apply linePass_congr
      intro n x after _
      have other : n ≠ k := by omega
      have absent : n ∉ ks := fun mem => by have := below n mem; omega
      simp [other, absent]

end LineSplice
