import Mathlib.Data.List.Sort

/- Lists in the order of a key, in which some keys are used once. A run of elements with
   such keys stands at the edge of a cut when nothing else lies between. -/
namespace KeyedBlocks
variable {α : Type} (key : α → Nat) (once : Nat → Bool)

def InOrder (a b : α) : Prop := key a ≤ key b ∧ (key a = key b → once (key a) = false)

def Ordered (xs : List α) : Prop := xs.Pairwise (InOrder key once)

/- The elements with a key strictly between two bounds. -/
def between (low high : Nat) (xs : List α) : List α := xs.filter fun x => low < key x && key x < high

variable {key once} {xs block : List α} {low high cut : Nat}

theorem strict_of_once (ordered : Ordered key once xs) (single : ∀ x ∈ xs, once (key x) = true) :
    xs.Pairwise fun a b => key a < key b := by
  refine List.Pairwise.imp_of_mem ?_ ordered
  intro a b mem _ follows
  have different : key a ≠ key b := by
    intro same
    have shared := follows.2 same
    rw [single a mem] at shared
    contradiction
  have reached := follows.1
  omega

theorem takeWhile_filter (ordered : Ordered key once xs) :
    xs.takeWhile (fun x => key x < cut) = xs.filter fun x => key x < cut := by
  induction xs with
  | nil => rfl
  | cons x xs ih =>
    obtain ⟨first,rest⟩ := List.pairwise_cons.mp ordered
    by_cases early : key x < cut
    · simp [early, ih rest]
    · have late : ∀ y ∈ xs, ¬ key y < cut := by
        intro y mem
        have reached := (first y mem).1
        omega
      have none' : xs.filter (fun y => key y < cut) = [] := by simpa [List.filter_eq_nil_iff] using late
      simp [early, none']

theorem dropWhile_filter (ordered : Ordered key once xs) :
    xs.dropWhile (fun x => key x ≤ cut) = xs.filter fun x => cut < key x := by
  induction xs with
  | nil => rfl
  | cons x xs ih =>
    obtain ⟨first,rest⟩ := List.pairwise_cons.mp ordered
    by_cases early : key x ≤ cut
    · have notLate : ¬ cut < key x := by omega
      simp [early, notLate, ih rest]
    · have here : cut < key x := by omega
      have late : ∀ y ∈ xs, cut < key y := by
        intro y mem
        have reached := (first y mem).1
        omega
      have all : xs.filter (fun y => cut < key y) = xs := by simpa [List.filter_eq_self] using late
      simp [early, here, all]

/-- A list in order is what lies below a bound and then the rest. -/
theorem split_at (ordered : Ordered key once xs) (bound : Nat) :
    xs = (xs.filter fun x => key x ≤ bound) ++ xs.filter fun x => bound < key x := by
  induction xs with
  | nil => rfl
  | cons x xs ih =>
    obtain ⟨first,rest⟩ := List.pairwise_cons.mp ordered
    by_cases early : key x ≤ bound
    · have notLate : ¬ bound < key x := by omega
      simp only [List.filter_cons, early, notLate, decide_true, decide_false, if_true, List.cons_append,
        Bool.false_eq_true, if_false, List.cons.injEq, true_and]
      exact ih rest
    · have here : bound < key x := by omega
      have late : ∀ y ∈ xs, bound < key y := by
        intro y mem
        have reached := (first y mem).1
        omega
      have all : xs.filter (fun y => bound < key y) = xs := by simpa [List.filter_eq_self] using late
      have none' : xs.filter (fun y => key y ≤ bound) = [] := by
        rw [List.filter_eq_nil_iff]
        intro y mem
        have := late y mem
        simpa using this
      simp [early, here, all, none']

/-- The elements between are a run of once-used keys iff they have its members. -/
theorem between_eq_iff (ordered : Ordered key once xs) (strict : block.Pairwise fun a b => key a < key b)
    (single : ∀ b ∈ block, once (key b) = true) (inside : ∀ b ∈ block, low < key b ∧ key b < high) :
    between key low high xs = block ↔
      (∀ b ∈ block, b ∈ xs) ∧ ∀ x ∈ xs, low < key x → key x < high → x ∈ block := by
  constructor
  · intro same
    constructor
    · intro b mem
      rw [← same] at mem
      exact (List.mem_filter.mp mem).1
    · intro x mem above below
      rw [← same]
      exact List.mem_filter.mpr ⟨mem,by simp [above, below]⟩
  · rintro ⟨present,only⟩
    have members : ∀ x, x ∈ between key low high xs ↔ x ∈ block := by
      intro x
      constructor
      · intro mem
        obtain ⟨here,bounds⟩ := List.mem_filter.mp mem
        have range : low < key x ∧ key x < high := by simpa using bounds
        exact only x here range.1 range.2
      · intro mem
        have range := inside x mem
        exact List.mem_filter.mpr ⟨present x mem,by simp [range.1, range.2]⟩
    have sorted : (between key low high xs).Pairwise fun a b => key a < key b := by
      refine strict_of_once (List.Pairwise.filter _ ordered) ?_
      intro x mem
      exact single x ((members x).mp mem)
    have irreflexive : Std.Irrefl fun a b : α => key a < key b := ⟨fun a => Nat.lt_irrefl (key a)⟩
    have antisymmetric : Std.Antisymm fun a b : α => key a < key b :=
      ⟨fun a b before after => absurd before (Nat.lt_asymm after)⟩
    exact List.Pairwise.eq_of_mem_iff sorted strict members

theorem filter_block {p : α → Bool} (early run late : List α) (dropped : ∀ x ∈ early, p x = false)
    (kept : ∀ x ∈ run, p x = true) (after : ∀ x ∈ late, p x = false) : (early ++ run ++ late).filter p = run := by
  have first : early.filter p = [] := by simpa [List.filter_eq_nil_iff] using dropped
  have middle : run.filter p = run := List.filter_eq_self.mpr kept
  have last : late.filter p = [] := by simpa [List.filter_eq_nil_iff] using after
  rw [List.filter_append, List.filter_append, first, middle, last, List.nil_append, List.append_nil]

/-- A run ends at a cut iff it is all there is from its first key to the cut. -/
theorem ends_at_cut_iff (ordered : Ordered key once xs) {first : α} (positive : 0 < key first)
    (single : once (key first) = true) (inside : ∀ b ∈ first :: block, key first ≤ key b) :
    first :: block <:+ xs.takeWhile (fun x => key x < cut) ↔
      between key (key first - 1) cut xs = first :: block := by
  have front : Ordered key once (xs.filter fun x => key x < cut) := List.Pairwise.filter _ ordered
  have rest : (xs.filter fun x => key x < cut).filter (fun x => key first - 1 < key x) =
      between key (key first - 1) cut xs := by
    rw [List.filter_filter]
    rfl
  rw [takeWhile_filter ordered, ← rest]
  constructor
  · intro suffix
    obtain ⟨early,split⟩ := suffix
    rw [← split] at front ⊢
    have below : ∀ x ∈ early, decide (key first - 1 < key x) = false := by
      intro x mem
      have follows := (List.pairwise_append.mp front).2.2 x mem first List.mem_cons_self
      have different : key x ≠ key first := by
        intro same
        have shared := follows.2 same
        rw [same, single] at shared
        contradiction
      have reached := follows.1
      simp only [decide_eq_false_iff_not]
      omega
    have above : ∀ x ∈ first :: block, decide (key first - 1 < key x) = true := by
      intro x mem
      have reached := inside x mem
      simp only [decide_eq_true_eq]
      omega
    simpa using filter_block early (first :: block) [] below above (by simp)
  · intro same
    rw [split_at front (key first - 1), same]
    exact List.suffix_append _ _

/-- A run starts after a cut iff it is all there is from the cut to its last key. -/
theorem starts_at_cut_iff (ordered : Ordered key once xs) {last : α} (single : once (key last) = true)
    (inside : ∀ b ∈ block ++ [last], key b ≤ key last) :
    block ++ [last] <+: xs.dropWhile (fun x => key x ≤ cut) ↔
      between key cut (key last + 1) xs = block ++ [last] := by
  have back : Ordered key once (xs.filter fun x => cut < key x) := List.Pairwise.filter _ ordered
  have first : (xs.filter fun x => cut < key x).filter (fun x => key x ≤ key last) =
      between key cut (key last + 1) xs := by
    rw [List.filter_filter, between]
    refine List.filter_congr ?_
    intro x _
    rw [Bool.and_comm]
    simp only [Nat.lt_succ_iff]
  rw [dropWhile_filter ordered, ← first]
  constructor
  · intro lead
    obtain ⟨late,split⟩ := lead
    rw [← split] at back ⊢
    have after : ∀ x ∈ late, decide (key x ≤ key last) = false := by
      intro x mem
      have follows := (List.pairwise_append.mp back).2.2 last (by simp) x mem
      have different : key last ≠ key x := by
        intro same
        have shared := follows.2 same
        rw [single] at shared
        contradiction
      have reached := follows.1
      simp only [decide_eq_false_iff_not]
      omega
    have kept : ∀ x ∈ block ++ [last], decide (key x ≤ key last) = true := by
      intro x mem
      simpa using inside x mem
    simpa using filter_block [] (block ++ [last]) late (by simp) kept after
  · intro same
    rw [split_at back (key last), same]
    exact List.prefix_append _ _

end KeyedBlocks
