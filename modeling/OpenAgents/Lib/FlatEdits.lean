import Mathlib.Data.List.Sort
import Mathlib.Data.List.Range

/- Edits of a sequence: each replaces a range by new items. Applied one by one from the last range
   to the first, they give what all of them at once give, but that items inserted at one place
   come out in reverse. -/
namespace FlatEdits
variable {α β : Type}

structure Edit (α : Type) where
  start : Nat
  stop : Nat
  items : List α

def applyEdit (text : List α) (edit : Edit α) : List α := text.take edit.start ++ edit.items ++ text.drop edit.stop

def insertedAt (edits : List (Edit α)) (i : Nat) : List α :=
  (edits.filter fun edit => edit.start = i ∧ edit.stop = i).flatMap Edit.items

def replacementAt (edits : List (Edit α)) (i : Nat) : List α :=
  (edits.filter fun edit => edit.start = i ∧ i < edit.stop).flatMap Edit.items

def covered (edits : List (Edit α)) (i : Nat) : Bool := edits.any fun edit => edit.start ≤ i ∧ i < edit.stop

/- What stands for position `i`. -/
def piece (edits : List (Edit α)) (text : List α) (i : Nat) : List α :=
  insertedAt edits i ++ replacementAt edits i ++ if covered edits i then [] else text[i]?.toList

/- All edits at once, at the positions they have in the text. -/
def simultaneous (edits : List (Edit α)) (text : List α) : List α := (List.range (text.length + 1)).flatMap (piece edits text)

/- `later` stands at or after the end of `earlier`. -/
def Follows (later earlier : Edit α) : Prop := earlier.stop ≤ later.start

theorem plain_range (text : List α) {low high : Nat} (le : low ≤ high) (inside : high ≤ text.length) :
    (List.range' low (high - low)).flatMap (fun i => text[i]?.toList) = (text.take high).drop low := by
  induction h : high - low generalizing low with
  | zero =>
    have same : low = high := by omega
    rw [same, List.drop_eq_nil_of_le (by rw [List.length_take]; omega)]
    rfl
  | succ n ih =>
    have small : low < text.length := by omega
    rw [List.range'_succ, List.flatMap_cons, ih (by omega) (by omega), List.getElem?_eq_getElem small, Option.toList_some]
    have cell : low < (text.take high).length := by
      rw [List.length_take]
      omega
    rw [List.drop_eq_getElem_cons cell, List.getElem_take, List.singleton_append]

theorem range_split {low high : Nat} (le : low ≤ high) : List.range high = List.range low ++ List.range' low (high - low) := by
  have parts := List.range'_append_1 (s := 0) (m := low) (n := high - low)
  rw [Nat.zero_add, Nat.add_sub_cancel' le] at parts
  rw [List.range_eq_range', List.range_eq_range', parts]

theorem inserted_cons (edit : Edit α) (edits : List (Edit α)) (i : Nat) : insertedAt (edit :: edits) i =
    if edit.start = i ∧ edit.stop = i then edit.items ++ insertedAt edits i else insertedAt edits i := by
  rw [insertedAt, List.filter_cons]
  by_cases here : edit.start = i ∧ edit.stop = i
  · rw [if_pos (decide_eq_true here), if_pos here]
    rfl
  · rw [if_neg (by simpa using here), if_neg here]
    rfl

theorem replacement_cons (edit : Edit α) (edits : List (Edit α)) (i : Nat) : replacementAt (edit :: edits) i =
    if edit.start = i ∧ i < edit.stop then edit.items ++ replacementAt edits i else replacementAt edits i := by
  rw [replacementAt, List.filter_cons]
  by_cases here : edit.start = i ∧ i < edit.stop
  · rw [if_pos (decide_eq_true here), if_pos here]
    rfl
  · rw [if_neg (by simpa using here), if_neg here]
    rfl

theorem covered_cons (edit : Edit α) (edits : List (Edit α)) (i : Nat) :
    covered (edit :: edits) i = (decide (edit.start ≤ i ∧ i < edit.stop) || covered edits i) := rfl

theorem inserted_none {edits : List (Edit α)} {i : Nat} (apart : ∀ edit ∈ edits, ¬ (edit.start = i ∧ edit.stop = i)) :
    insertedAt edits i = [] := by
  induction edits with
  | nil => rfl
  | cons edit rest ih =>
    rw [List.forall_mem_cons] at apart
    rw [inserted_cons, if_neg apart.1, ih apart.2]

theorem replacement_none {edits : List (Edit α)} {i : Nat} (apart : ∀ edit ∈ edits, ¬ (edit.start = i ∧ i < edit.stop)) :
    replacementAt edits i = [] := by
  induction edits with
  | nil => rfl
  | cons edit rest ih =>
    rw [List.forall_mem_cons] at apart
    rw [replacement_cons, if_neg apart.1, ih apart.2]

theorem covered_none {edits : List (Edit α)} {i : Nat} (apart : ∀ edit ∈ edits, ¬ (edit.start ≤ i ∧ i < edit.stop)) :
    covered edits i = false := by
  rw [covered, List.any_eq_false]
  intro edit mem
  rw [decide_eq_true_eq]
  exact apart edit mem

theorem piece_untouched {edits : List (Edit α)} {text : List α} {i : Nat}
    (apart : ∀ edit ∈ edits, i < edit.start) : piece edits text i = text[i]?.toList := by
  rw [piece, inserted_none, replacement_none, covered_none]
  · rfl
  · intro edit mem
    have := apart edit mem
    omega
  · intro edit mem
    have := apart edit mem
    omega
  · intro edit mem
    have := apart edit mem
    omega

/-- Up to the first edit the text stays. -/
theorem simultaneous_split {edits : List (Edit α)} {text : List α} {bound : Nat} (inside : bound ≤ text.length)
    (apart : ∀ edit ∈ edits, bound ≤ edit.start) :
    simultaneous edits text =
      text.take bound ++ (List.range' bound (text.length + 1 - bound)).flatMap (piece edits text) := by
  rw [simultaneous, range_split (show bound ≤ text.length + 1 by omega), List.flatMap_append]
  congr 1
  have plain : (List.range bound).flatMap (piece edits text) = (List.range bound).flatMap fun i => text[i]?.toList := by
    apply List.flatMap_congr
    intro i mem
    apply piece_untouched
    intro edit other
    have := apart edit other
    rw [List.mem_range] at mem
    omega
  have whole := plain_range text (Nat.zero_le bound) inside
  rw [Nat.sub_zero, ← List.range_eq_range', List.drop_zero] at whole
  rw [plain, whole]

theorem piece_cons_after {edit : Edit α} {edits : List (Edit α)} {text : List α} {i : Nat} (before : edit.stop ≤ i)
    (other : edit.start < i) : piece (edit :: edits) text i = piece edits text i := by
  have bare : decide (edit.start ≤ i ∧ i < edit.stop) = false := by
    rw [decide_eq_false_iff_not]
    omega
  rw [piece, inserted_cons, if_neg (by omega), replacement_cons, if_neg (by omega), covered_cons, bare, Bool.false_or, piece]

/-- An insertion comes before what else stands at its place. -/
theorem piece_cons_insertion {edit : Edit α} (edits : List (Edit α)) (text : List α) (empty : edit.start = edit.stop) :
    piece (edit :: edits) text edit.stop = edit.items ++ piece edits text edit.stop := by
  have bare : decide (edit.start ≤ edit.stop ∧ edit.stop < edit.stop) = false := by
    rw [decide_eq_false_iff_not]
    omega
  rw [piece, inserted_cons, if_pos ⟨empty,rfl⟩, replacement_cons, if_neg (by omega), covered_cons, bare, Bool.false_or, piece]
  simp only [List.append_assoc]

/-- A replacement gives its items at the first position it covers, and nothing at the others. -/
theorem piece_cons_replacement {edit : Edit α} {edits : List (Edit α)} {text : List α} {i : Nat}
    (low : edit.start ≤ i) (high : i < edit.stop) (apart : ∀ other ∈ edits, edit.stop ≤ other.start) :
    piece (edit :: edits) text i = if edit.start = i then edit.items else [] := by
  have noInsert : insertedAt (edit :: edits) i = [] := by
    apply inserted_none
    rw [List.forall_mem_cons]
    refine ⟨by omega,?_⟩
    intro other mem
    have := apart other mem
    omega
  have others : replacementAt edits i = [] := by
    apply replacement_none
    intro other mem
    have := apart other mem
    omega
  have hidden : decide (edit.start ≤ i ∧ i < edit.stop) = true := by
    rw [decide_eq_true_eq]
    exact ⟨low,high⟩
  rw [piece, noInsert, replacement_cons, others, covered_cons, hidden, Bool.true_or, List.nil_append, if_pos rfl, List.append_nil]
  by_cases here : edit.start = i
  · rw [if_pos ⟨here,high⟩, if_pos here, List.append_nil]
  · rw [if_neg fun both => here both.1, if_neg here]

/-- One more edit before all others. -/
theorem simultaneous_cons {edit : Edit α} {edits : List (Edit α)} {text : List α} (order : edit.start ≤ edit.stop)
    (inside : edit.stop ≤ text.length) (apart : ∀ other ∈ edits, edit.stop ≤ other.start) :
    simultaneous (edit :: edits) text = applyEdit (simultaneous edits text) edit := by
  have behind : ∀ other ∈ edit :: edits, edit.start ≤ other.start := by
    intro other mem
    rcases List.mem_cons.mp mem with rfl | later
    · exact Nat.le_refl _
    · have := apart other later
      omega
  have front := simultaneous_split (show edit.start ≤ text.length by omega) behind
  have back := simultaneous_split inside apart
  have length : (text.take edit.stop).length = edit.stop := by
    rw [List.length_take]
    omega
  have kept : (simultaneous edits text).take edit.start = text.take edit.start := by
    rw [back, List.take_append_of_le_length (by omega), List.take_take, Nat.min_eq_left order]
  have rest : (simultaneous edits text).drop edit.stop =
      (List.range' edit.stop (text.length + 1 - edit.stop)).flatMap (piece edits text) := by
    rw [back, List.drop_append_of_le_length (by omega), List.drop_eq_nil_of_le (by omega), List.nil_append]
  rw [front, applyEdit, kept, rest, List.append_assoc]
  congr 1
  by_cases empty : edit.start = edit.stop
  · have first : text.length + 1 - edit.stop = (text.length - edit.stop) + 1 := by omega
    rw [empty, first, List.range'_succ, List.flatMap_cons, List.flatMap_cons]
    have later : (List.range' (edit.stop + 1) (text.length - edit.stop)).flatMap (piece (edit :: edits) text) =
        (List.range' (edit.stop + 1) (text.length - edit.stop)).flatMap (piece edits text) := by
      apply List.flatMap_congr
      intro i mem
      have low := (List.mem_range'_1.mp mem).1
      exact piece_cons_after (by omega) (by omega)
    rw [piece_cons_insertion edits text empty, later, List.append_assoc]
  · have parts : List.range' edit.start (text.length + 1 - edit.start) =
        edit.start :: List.range' (edit.start + 1) (edit.stop - edit.start - 1) ++
          List.range' edit.stop (text.length + 1 - edit.stop) := by
      have low : text.length + 1 - edit.start = (edit.stop - edit.start) + (text.length + 1 - edit.stop) := by omega
      have ends : edit.start + (edit.stop - edit.start) = edit.stop := by omega
      have one : edit.stop - edit.start = (edit.stop - edit.start - 1) + 1 := by omega
      rw [low, ← List.range'_append_1, ends]
      congr 1
      rw [one, List.range'_succ]
      rfl
    have here : piece (edit :: edits) text edit.start = edit.items := by
      rw [piece_cons_replacement (Nat.le_refl edit.start) (by omega) apart, if_pos rfl]
    have within : (List.range' (edit.start + 1) (edit.stop - edit.start - 1)).flatMap (piece (edit :: edits) text) = [] := by
      rw [List.flatMap_eq_nil_iff]
      intro i mem
      obtain ⟨low,high⟩ := List.mem_range'_1.mp mem
      rw [piece_cons_replacement (by omega) (by omega) apart, if_neg (by omega)]
    have later : (List.range' edit.stop (text.length + 1 - edit.stop)).flatMap (piece (edit :: edits) text) =
        (List.range' edit.stop (text.length + 1 - edit.stop)).flatMap (piece edits text) := by
      apply List.flatMap_congr
      intro i mem
      have low := (List.mem_range'_1.mp mem).1
      exact piece_cons_after low (by omega)
    rw [parts, List.flatMap_append, List.flatMap_cons, here, within, later, List.append_nil]

theorem simultaneous_nil (text : List α) : simultaneous [] text = text := by
  have split := @simultaneous_split α [] text text.length (Nat.le_refl text.length) (by simp)
  rw [List.take_length] at split
  have last : (List.range' text.length (text.length + 1 - text.length)).flatMap (piece [] text) = [] := by
    have one : text.length + 1 - text.length = 1 := by omega
    rw [one]
    simp [piece, insertedAt, replacementAt, covered]
  rw [split, last, List.append_nil]

/-- From the last range to the first. -/
theorem sequential_eq {edits : List (Edit α)} {text : List α}
    (valid : ∀ edit ∈ edits, edit.start ≤ edit.stop ∧ edit.stop ≤ text.length) (order : edits.Pairwise Follows) :
    edits.foldl applyEdit text = simultaneous edits.reverse text := by
  induction edits using List.reverseRecOn with
  | nil => exact (simultaneous_nil text).symm
  | append_singleton front last ih =>
    rw [List.pairwise_append] at order
    obtain ⟨least,inside⟩ := valid last (by simp)
    have earlier := ih (fun edit mem => valid edit (List.mem_append_left _ mem)) order.1
    rw [List.foldl_append, List.foldl_cons, List.foldl_nil, earlier, List.reverse_append, List.reverse_singleton,
      List.singleton_append]
    symm
    apply simultaneous_cons least inside
    intro other mem
    exact order.2.2 other (List.mem_reverse.mp mem) last (List.mem_singleton.mpr rfl)

/-- The sort keeps the order of elements that are tied. -/
theorem filter_insertionSort {r : β → β → Prop} [DecidableRel r] (q : β → Bool) (xs : List β)
    (tied : ∀ a ∈ xs, ∀ b ∈ xs, q a = true → q b = true → r a b) : (xs.insertionSort r).filter q = xs.filter q := by
  induction xs with
  | nil => rfl
  | cons a rest ih =>
    have insert : ∀ ys : List β, (∀ y ∈ ys, y ∈ rest) → (ys.orderedInsert r a).filter q = (a :: ys).filter q := by
      intro ys
      induction ys with
      | nil => exact fun _ => rfl
      | cons y ys ih =>
        intro sub
        rw [List.forall_mem_cons] at sub
        rw [List.orderedInsert_cons]
        split
        · rfl
        · rename_i beyond
          have apart : ¬ (q a = true ∧ q y = true) := fun both =>
            beyond (tied a List.mem_cons_self y (List.mem_cons_of_mem _ sub.1) both.1 both.2)
          rw [List.filter_cons, ih sub.2]
          cases first : q a <;> cases second : q y <;> simp_all
    rw [List.insertionSort_cons, insert _ fun y mem => (List.mem_insertionSort r).mp mem, List.filter_cons,
      ih fun a one b two => tied a (List.mem_cons_of_mem _ one) b (List.mem_cons_of_mem _ two), ← List.filter_cons]

/-- Reversing the edits only turns the inserted items round. -/
theorem simultaneous_reverse_iff {edits : List (Edit α)} {text : List α}
    (single : ∀ i, ((edits.filter fun edit => edit.start = i ∧ i < edit.stop).length ≤ 1)) :
    simultaneous edits.reverse text = simultaneous edits text ↔
      ∀ i ≤ text.length, insertedAt edits.reverse i = insertedAt edits i := by
  have replaced : ∀ i, replacementAt edits.reverse i = replacementAt edits i := by
    intro i
    rw [replacementAt, replacementAt, List.filter_reverse]
    have few := single i
    cases found : edits.filter fun edit => edit.start = i ∧ i < edit.stop with
    | nil => rfl
    | cons first rest =>
      rw [found, List.length_cons] at few
      have none' : rest = [] := List.length_eq_zero_iff.mp (by omega)
      rw [none']
      rfl
  have hidden : ∀ i, covered edits.reverse i = covered edits i := fun i => List.any_reverse
  have same : ∀ i, (insertedAt edits.reverse i).length = (insertedAt edits i).length := by
    intro i
    rw [insertedAt, insertedAt, List.filter_reverse, List.length_flatMap, List.length_flatMap, List.map_reverse]
    exact List.sum_reverse _
  have pieces : ∀ positions : List Nat, positions.flatMap (piece edits.reverse text) = positions.flatMap (piece edits text) ↔
      ∀ i ∈ positions, insertedAt edits.reverse i = insertedAt edits i := by
    intro positions
    induction positions with
    | nil => simp
    | cons i rest ih =>
      rw [List.flatMap_cons, List.flatMap_cons, List.forall_mem_cons, ← ih]
      have rest' : piece edits.reverse text i = insertedAt edits.reverse i ++
          (replacementAt edits i ++ if covered edits i then [] else text[i]?.toList) := by
        rw [piece, replaced, hidden, List.append_assoc]
      have first : piece edits text i = insertedAt edits i ++
          (replacementAt edits i ++ if covered edits i then [] else text[i]?.toList) := by
        rw [piece, List.append_assoc]
      constructor
      · intro all
        have equal : (piece edits.reverse text i).length = (piece edits text i).length := by
          simp only [rest', first, List.length_append, same]
        obtain ⟨here,later⟩ := List.append_inj all equal
        rw [rest', first] at here
        exact ⟨(List.append_inj here (same i)).1,later⟩
      · intro ⟨here,later⟩
        rw [rest', first, here, later]
  rw [simultaneous, simultaneous, pieces]
  constructor
  · intro all i le
    exact all i (List.mem_range.mpr (by omega))
  · intro all i mem
    exact all i (by rw [List.mem_range] at mem; omega)

/- Two edits of which one ends before the other starts. -/
def Disjoint (a b : Edit α) : Prop := a.stop ≤ b.start ∨ b.stop ≤ a.start

theorem disjoint_symm {a b : Edit α} (apart : Disjoint a b) : Disjoint b a := Or.symm apart

/-- Disjoint edits by descending start stand one behind the other. -/
theorem disjoint_follows {edits : List (Edit α)} (forward : ∀ edit ∈ edits, edit.start < edit.stop)
    (apart : edits.Pairwise Disjoint) (descends : edits.Pairwise fun a b => b.start ≤ a.start) : edits.Pairwise Follows := by
  apply (apart.and descends).imp_of_mem
  intro a b first _ both
  have := forward a first
  rcases both.1 with before | after
  · have := both.2
    omega
  · exact after

theorem replaced_once {edits : List (Edit α)} (apart : edits.Pairwise Disjoint) (i : Nat) :
    (edits.filter fun edit => edit.start = i ∧ i < edit.stop).length ≤ 1 := by
  cases found : edits.filter fun edit => edit.start = i ∧ i < edit.stop with
  | nil => simp
  | cons first rest =>
    cases rest with
    | nil => simp
    | cons second more =>
      have distinct := apart.filter fun edit => decide (edit.start = i ∧ i < edit.stop)
      rw [found] at distinct
      have both := (List.pairwise_cons.mp distinct).1 second (by simp)
      have here : ∀ edit ∈ first :: second :: more, edit.start = i ∧ i < edit.stop := by
        intro edit mem
        rw [← found, List.mem_filter] at mem
        simpa using mem.2
      have one := here first (by simp)
      have two := here second (by simp)
      rcases both with before | after <;> omega

/-- Disjoint replacements have no order among them. -/
theorem simultaneous_perm {edits others : List (Edit α)} {text : List α} (perm : edits.Perm others)
    (forward : ∀ edit ∈ edits, edit.start < edit.stop) (apart : edits.Pairwise Disjoint) :
    simultaneous edits text = simultaneous others text := by
  apply List.flatMap_congr
  intro i _
  have noInsert : insertedAt edits i = [] := by
    apply inserted_none
    intro edit mem
    have := forward edit mem
    omega
  have noInsertOther : insertedAt others i = [] := by
    apply inserted_none
    intro edit mem
    have := forward edit (perm.mem_iff.mpr mem)
    omega
  have same : replacementAt edits i = replacementAt others i := by
    have filtered := perm.filter fun edit => decide (edit.start = i ∧ i < edit.stop)
    have few := replaced_once apart i
    unfold replacementAt
    cases found : edits.filter fun edit => edit.start = i ∧ i < edit.stop with
    | nil => rw [found] at filtered; rw [List.nil_perm.mp filtered]
    | cons first rest =>
      rw [found, List.length_cons] at few
      obtain rfl : rest = [] := List.length_eq_zero_iff.mp (by omega)
      rw [found] at filtered
      rw [List.singleton_perm.mp filtered]
  have hidden : covered edits i = covered others i := perm.any_eq
  rw [piece, piece, noInsert, noInsertOther, same, hidden]

/-- One text is another with pieces replaced, each of them of a given kind. -/
inductive Spliced (lost : List α → Prop) : List α → List α → Prop where
  | done : Spliced lost [] []
  | keep (x : α) {xs ys : List α} (rest : Spliced lost xs ys) : Spliced lost (x :: xs) (x :: ys)
  | replace {piece : List α} (items : List α) {xs ys : List α} (gone : lost piece) (rest : Spliced lost xs ys) :
      Spliced lost (piece ++ xs) (items ++ ys)

theorem spliced_keep {lost : List α → Prop} (front : List α) {xs ys : List α} (rest : Spliced lost xs ys) :
    Spliced lost (front ++ xs) (front ++ ys) := by
  induction front with
  | nil => exact rest
  | cons x front ih => exact .keep x ih

theorem spliced_refl (lost : List α → Prop) (xs : List α) : Spliced lost xs xs := by
  have whole := spliced_keep xs (@Spliced.done α lost)
  rwa [List.append_nil] at whole

theorem spliced_step {lost : List α → Prop} {edit : Edit α} {text out : List α} {bound : Nat}
    (order : edit.start ≤ edit.stop) (inside : edit.stop ≤ bound) (within : bound ≤ text.length)
    (same : out.take bound = text.take bound) (behind : Spliced lost (text.drop bound) (out.drop bound))
    (gone : lost ((text.take edit.stop).drop edit.start)) :
    (applyEdit out edit).take edit.start = text.take edit.start ∧
      Spliced lost (text.drop edit.start) ((applyEdit out edit).drop edit.start) := by
  have long : bound ≤ out.length := by
    have := congrArg List.length same
    rw [List.length_take, List.length_take] at this
    omega
  have front : ∀ i ≤ bound, out.take i = text.take i := by
    intro i le
    have := congrArg (List.take i) same
    rwa [List.take_take, List.take_take, Nat.min_eq_left le] at this
  have middle : ∀ xs : List α, xs.drop edit.stop = (xs.take bound).drop edit.stop ++ xs.drop bound ∨ xs.length < bound := by
    intro xs
    by_cases short : xs.length < bound
    · exact Or.inr short
    · left
      rw [← List.drop_append_of_le_length (by rw [List.length_take]; omega), List.take_append_drop]
  have later : Spliced lost (text.drop edit.stop) (out.drop edit.stop) := by
    rcases middle text with whole | short
    · rcases middle out with other | short
      · rw [whole, other, same]
        exact spliced_keep _ behind
      · omega
    · omega
  have piece : text.drop edit.start = (text.take edit.stop).drop edit.start ++ text.drop edit.stop := by
    rw [← List.drop_append_of_le_length (by rw [List.length_take]; omega), List.take_append_drop]
  have length : (out.take edit.start).length = edit.start := by
    rw [List.length_take]
    omega
  constructor
  · rw [applyEdit, List.append_assoc, List.take_left' length]
    exact front edit.start (by omega)
  · rw [piece, applyEdit, List.append_assoc, List.drop_left' length]
    exact .replace edit.items gone later

/-- Edits from the last range to the first replace the pieces in these ranges and nothing else. -/
theorem spliced_sequential {lost : List α → Prop} {edits : List (Edit α)} {text : List α}
    (valid : ∀ edit ∈ edits, edit.start ≤ edit.stop ∧ edit.stop ≤ text.length) (order : edits.Pairwise Follows)
    (gone : ∀ edit ∈ edits, lost ((text.take edit.stop).drop edit.start)) :
    Spliced lost text (edits.foldl applyEdit text) := by
  have run : ∀ (rest : List (Edit α)) (out : List α) (bound : Nat), bound ≤ text.length →
      (∀ edit ∈ rest, edit ∈ edits ∧ edit.stop ≤ bound) → rest.Pairwise Follows → out.take bound = text.take bound →
      Spliced lost (text.drop bound) (out.drop bound) → Spliced lost text (rest.foldl applyEdit out) := by
    intro rest
    induction rest with
    | nil =>
      intro out bound _ _ _ same behind
      have whole := spliced_keep (text.take bound) behind
      rwa [List.take_append_drop, ← same, List.take_append_drop] at whole
    | cons edit rest ih =>
      intro out bound within below follows same behind
      rw [List.forall_mem_cons] at below
      obtain ⟨before,later⟩ := List.pairwise_cons.mp follows
      obtain ⟨least,inside⟩ := valid edit below.1.1
      obtain ⟨front,back⟩ := spliced_step least below.1.2 within same behind (gone edit below.1.1)
      apply ih (applyEdit out edit) edit.start (by omega) _ later front back
      intro other mem
      exact ⟨(below.2 other mem).1,before other mem⟩
  apply run edits text text.length (Nat.le_refl _) _ order rfl (spliced_refl lost _)
  intro edit mem
  exact ⟨mem,(valid edit mem).2⟩

end FlatEdits
