import Mathlib.Data.List.Chain
import Mathlib.Data.List.Perm.Subperm
import Mathlib.Logic.Relation

/- Climbing from a node to its root along a parent function. A climb that would
   not end has no result. -/
namespace ParentChain
variable {α : Type}

/- Root first, the starting node last. -/
def climb (up : α → Option α) : Nat → Option α → Option (List α)
  | _, none => some []
  | 0, some _ => none
  | fuel + 1, some node => (climb up fuel (up node)).map (· ++ [node])

structure Trail (up : α → Option α) (path : List α) : Prop where
  linked : path.IsChain fun parent child => up child = some parent
  root : ∀ node ∈ path.head?, up node = none

theorem trail_nil (up : α → Option α) : Trail up [] := ⟨.nil,by simp⟩

variable {up : α → Option α} {path : List α} {node : α} {fuel : Nat}

theorem trail_snoc_iff : Trail up (path ++ [node]) ↔ Trail up path ∧ up node = path.getLast? := by
  rcases List.eq_nil_or_concat' path with rfl | ⟨before,last,rfl⟩
  · constructor
    · intro trail
      exact ⟨trail_nil up,by simpa using trail.root node (by simp)⟩
    · intro both
      exact ⟨.singleton node,by simpa using both.2⟩
  · have head : (before ++ [last] ++ [node]).head? = (before ++ [last]).head? := by
      cases before <;> rfl
    constructor
    · intro trail
      have linked := List.isChain_append.mp trail.linked
      refine ⟨⟨linked.1,by simpa [head] using trail.root⟩,?_⟩
      simpa using linked.2.2 last (by simp) node (by simp)
    · intro both
      refine ⟨List.isChain_append.mpr ⟨both.1.linked,.singleton node,?_⟩,by
        simpa [head] using both.1.root⟩
      intro x x_last y y_first
      simp only [List.getLast?_concat, Option.mem_def, Option.some.injEq, List.head?_cons] at x_last y_first
      subst x_last
      subst y_first
      simpa using both.2

theorem climb_trail (trail : Trail up path) (enough : path.length ≤ fuel) : climb up fuel path.getLast? = some path := by
  induction path using List.reverseRecOn generalizing fuel with
  | nil => cases fuel <;> rfl
  | append_singleton path node ih =>
    obtain ⟨before,parent⟩ := trail_snoc_iff.mp trail
    cases fuel with
    | zero => simp at enough
    | succ fuel =>
      rw [List.getLast?_concat, climb, parent, ih before (by simpa using enough)]
      rfl

theorem trail_of_climb {start : Option α} (climbed : climb up fuel start = some path) : Trail up path ∧ path.getLast? = start := by
  induction fuel generalizing start path with
  | zero =>
    cases start with
    | none =>
      cases climbed
      exact ⟨trail_nil up,rfl⟩
    | some node => cases climbed
  | succ fuel ih =>
    cases start with
    | none =>
      cases climbed
      exact ⟨trail_nil up,rfl⟩
    | some node =>
      obtain ⟨before,rest,rfl⟩ := Option.map_eq_some_iff.mp climbed
      obtain ⟨trail,last⟩ := ih rest
      exact ⟨trail_snoc_iff.mpr ⟨trail,last.symm⟩,by simp⟩

theorem climb_none (up : α → Option α) (fuel : Nat) : climb up fuel none = some [] := by
  cases fuel <;> rfl

/-- A rank that falls at every step bounds the climb and orders the path. -/
theorem climb_ranked (inside : α → Prop) (rank : α → Nat) (falls : ∀ child parent, inside child → up child = some parent →
      inside parent ∧ rank parent < rank child) (node : α) (start : inside node) (enough : rank node < fuel) :
    ∃ path, climb up fuel (some node) = some path ∧ (∀ x ∈ path, inside x ∧ rank x ≤ rank node) ∧
      path.Pairwise fun above below => rank above < rank below := by
  induction fuel generalizing node with
  | zero => omega
  | succ fuel ih =>
    cases parent : up node with
    | none =>
      refine ⟨[node],?_,by simp [start],List.pairwise_singleton _ _⟩
      rw [climb, parent, climb_none]
      rfl
    | some above =>
      obtain ⟨above_inside,lower⟩ := falls node above start parent
      obtain ⟨path,climbed,ranked,ordered⟩ := ih above above_inside (by omega)
      refine ⟨path ++ [node],?_,?_,?_⟩
      · rw [climb, parent, climbed]
        rfl
      · intro x mem
        rcases List.mem_append.mp mem with earlier | last
        · have bound := ranked x earlier
          exact ⟨bound.1,by omega⟩
        · obtain rfl : x = node := by simpa using last
          exact ⟨start,Nat.le_refl _⟩
      · rw [List.pairwise_append]
        refine ⟨ordered,List.pairwise_singleton _ _,?_⟩
        intro x earlier y last
        obtain rfl : y = node := by simpa using last
        have bound := (ranked x earlier).2
        omega

/-- A climb that runs out of fuel has seen a long chain. -/
theorem climb_unended (unended : climb up fuel (some node) = none) :
    ∃ chain : List α, chain.length = fuel ∧ (node :: chain).IsChain fun child parent => up child = some parent := by
  induction fuel generalizing node with
  | zero => exact ⟨[],rfl,.singleton node⟩
  | succ fuel ih =>
    rw [climb, Option.map_eq_none_iff] at unended
    cases above : up node with
    | none =>
      rw [above, climb_none] at unended
      cases unended
    | some parent =>
      rw [above] at unended
      obtain ⟨chain,length,linked⟩ := ih unended
      exact ⟨parent :: chain,by simp [length],.cons_cons above linked⟩

def Acyclic (up : α → Option α) : Prop :=
  ∀ node, ¬Relation.TransGen (fun child parent => up child = some parent) node node

theorem acyclic_ranked (rank : α → Nat) (falls : ∀ child parent, up child = some parent → rank parent < rank child) : Acyclic up := by
  have lower : ∀ one two, Relation.TransGen (fun child parent => up child = some parent) one two →
      rank two < rank one := by
    intro one two reaches
    induction reaches with
    | single link => exact falls _ _ link
    | tail _ link ih => exact Nat.lt_trans (falls _ _ link) ih
  intro node cycle
  exact Nat.lt_irrefl _ (lower node node cycle)

/-- Without cycles a climb ends before it has met every possible parent twice. -/
theorem climb_acyclic (acyclic : Acyclic up) {parents : List α}
    (inside : ∀ child parent, up child = some parent → parent ∈ parents) (enough : parents.length < fuel) (start : Option α) : ∃ path, climb up fuel start = some path := by
  cases start with
  | none => exact ⟨[],climb_none up fuel⟩
  | some node =>
    cases climbed : climb up fuel (some node) with
    | some path => exact ⟨path,rfl⟩
    | none =>
      obtain ⟨chain,length,linked⟩ := climb_unended climbed
      have ordered : (node :: chain).Pairwise (Relation.TransGen fun child parent => up child = some parent) :=
        List.isChain_iff_pairwise.mp (linked.imp fun _ _ link => .single link)
      have distinct : chain.Nodup := by
        refine (List.pairwise_cons.mp ordered).2.imp ?_
        rintro one two reaches rfl
        exact acyclic one reaches
      have among : ∀ x ∈ chain, x ∈ parents := by
        have each : ∀ (rest : List α) (first : α),
            (first :: rest).IsChain (fun child parent => up child = some parent) → ∀ x ∈ rest, x ∈ parents := by
          intro rest
          induction rest with
          | nil => simp
          | cons y rest ih =>
            intro first linked x mem
            rw [List.isChain_cons_cons] at linked
            rcases List.mem_cons.mp mem with rfl | later
            · exact inside first x linked.1
            · exact ih y linked.2 x later
        exact each chain node linked
      have bound := (List.subperm_of_subset distinct among).length_le
      omega

/-- Dropping nodes leaves a trail when no kept node hangs below a dropped one. -/
theorem trail_filter (trail : Trail up path) (keep : α → Bool)
    (closed : ∀ x ∈ path, keep x = true → ∀ parent ∈ up x, keep parent = true) : Trail up (path.filter keep) := by
  induction path using List.reverseRecOn with
  | nil => exact trail
  | append_singleton path node ih =>
    obtain ⟨before,link⟩ := trail_snoc_iff.mp trail
    have filtered := ih before fun x mem => closed x (List.mem_append_left _ mem)
    rw [List.filter_append]
    cases kept : keep node with
    | false => simpa [kept] using filtered
    | true =>
      have above := closed node (by simp) kept
      rw [List.filter_cons_of_pos kept, List.filter_nil, trail_snoc_iff]
      refine ⟨filtered,?_⟩
      rcases List.eq_nil_or_concat' path with rfl | ⟨rest,last,rfl⟩
      · simpa using link
      · have last_kept : keep last = true := above last (by simpa using link)
        rw [link, List.filter_append]
        simp [last_kept]

end ParentChain
