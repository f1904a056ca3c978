import OpenAgents.Lib.JsText
import OpenAgents.Lib.KahnSort

/- The order in which the commits of a split plan are made. -/
namespace CommitOrder
open JsText KahnSort Relation

/- `dependencies` holds integers; whether they are indices of groups is checked here. -/
structure SplitCommitGroup where
  dependencies : List Int
  deriving DecidableEq, Repr

def indexText (n : Int) : JsString := if n < 0 then js "-" ++ decimal n.natAbs else decimal n.natAbs

/- The arrays `inDegree` and `edges`, as functions of the index. -/
structure Counts where
  inDegree : Nat → Int
  edges : Nat → List Nat

def addDependency (total index : Nat) (counts : Counts) (dependency : Int) : Except JsString Counts :=
  if dependency < 0 ∨ dependency ≥ total then .error (js "Invalid dependency index: " ++ indexText dependency)
  else if index ∈ counts.edges dependency.toNat then .ok counts
  else .ok
    { edges := Function.update counts.edges dependency.toNat (counts.edges dependency.toNat ++ [index])
      inDegree := Function.update counts.inDegree index (counts.inDegree index + 1) }

def addGroups (total : Nat) : Nat → List SplitCommitGroup → Counts → Except JsString Counts
  | _, [], counts => .ok counts
  | index, group :: rest, counts =>
      match group.dependencies.foldlM (addDependency total index) counts with
      | .error text => .error text
      | .ok next => addGroups total (index + 1) rest next

/- `{ error }` is the error. Each round takes one index from the queue, and no index enters it twice. -/
def computeDependencyOrder (groups : List SplitCommitGroup) : Except JsString (List Nat) :=
  let total := groups.length
  match addGroups total 0 groups ⟨fun _ => 0,fun _ => []⟩ with
  | .error text => .error text
  | .ok counts =>
      let queue := (List.range total).filter fun index => counts.inDegree index = 0
      let order := (run counts.edges total ⟨counts.inDegree,queue,[]⟩).order
      if order.length ≠ total then .error (js "Circular dependency detected in split commit plan.") else .ok order

/-- Group `i` names group `d` among its dependencies. -/
def DependsOn (groups : List SplitCommitGroup) (i d : Nat) : Prop :=
  ∃ group, groups[i]? = some group ∧ (d : Int) ∈ group.dependencies

/-- A dependency that is no index of a group. -/
def OutOfRange (groups : List SplitCommitGroup) : Prop :=
  ∃ group ∈ groups, ∃ d ∈ group.dependencies, d < 0 ∨ d ≥ groups.length

/-- What the arrays hold once the pairs of a group and its dependency in `seen` are read. -/
structure Counted (total : Nat) (seen : Nat → Nat → Prop) (counts : Counts) : Prop where
  single : ∀ d, (counts.edges d).Nodup
  mem : ∀ d i, i ∈ counts.edges d ↔ seen i d
  known : ∀ d i, seen i d → i < total ∧ d < total
  degree : ∀ i, counts.inDegree i = ((List.range total).filter fun d => i ∈ counts.edges d).length

theorem filter_one_more {V : Type} [DecidableEq V] {vs : List V} (distinct : vs.Nodup) {p q : V → Bool} {d : V} (node : d ∈ vs)
    (fresh : p d = false) (new : ∀ v, q v = true ↔ v = d ∨ p v = true) : (vs.filter q).length = (vs.filter p).length + 1 := by
  have perm : (vs.filter q).Perm (d :: vs.filter p) := by
    have other : (d :: vs.filter p).Nodup := List.nodup_cons.mpr ⟨by simp [fresh],distinct.filter _⟩
    refine (List.perm_ext_iff_of_nodup (distinct.filter _) other).mpr fun v => ?_
    rw [List.mem_filter, List.mem_cons, List.mem_filter, new]
    constructor
    · rintro ⟨mem,rfl | old⟩
      · exact .inl rfl
      · exact .inr ⟨mem,old⟩
    · rintro (rfl | ⟨mem,old⟩)
      · exact ⟨node,.inl rfl⟩
      · exact ⟨mem,.inr old⟩
  rw [perm.length_eq, List.length_cons]

variable {seen : Nat → Nat → Prop}

theorem counted_add {total index : Nat} {counts : Counts} (counted : Counted total seen counts) (inside : index < total)
    {dependency : Int} (inRange : ¬ (dependency < 0 ∨ dependency ≥ total)) :
    ∃ next, addDependency total index counts dependency = .ok next ∧
      Counted total (fun i d => seen i d ∨ i = index ∧ (d : Int) = dependency) next := by
  obtain ⟨d,rfl⟩ := Int.eq_ofNat_of_zero_le (by omega : 0 ≤ dependency)
  have low : d < total := by omega
  rw [addDependency, if_neg inRange, Int.toNat_natCast]
  split
  next old =>
    have pairs : (fun i e => seen i e ∨ i = index ∧ (e : Int) = d) = seen := by
      funext i e
      simp only [eq_iff_iff, or_iff_left_iff_imp]
      rintro ⟨rfl,same⟩
      obtain rfl : e = d := by omega
      exact (counted.mem e i).mp old
    rw [pairs]
    exact ⟨counts,rfl,counted⟩
  next new =>
    have edges : ∀ e i, i ∈ Function.update counts.edges d (counts.edges d ++ [index]) e ↔
        i ∈ counts.edges e ∨ i = index ∧ e = d := by
      intro e i
      by_cases same : e = d
      · subst same
        simp
      · simp [same]
    refine ⟨_,rfl,fun e => ?_,fun e i => ?_,fun e i pair => ?_,fun i => ?_⟩
    · by_cases same : e = d
      · subst same
        simp only [Function.update_self]
        exact List.nodup_append.mpr ⟨counted.single e,List.nodup_singleton _,fun a mem b is => by
          rw [List.mem_singleton.mp is]
          exact fun at' => new (at' ▸ mem)⟩
      · simp only [Function.update_of_ne same]
        exact counted.single e
    · simp only [edges, counted.mem, Int.natCast_inj]
    · rcases pair with old | ⟨rfl,same⟩
      · exact counted.known e i old
      · exact ⟨inside,by omega⟩
    · simp only [edges]
      by_cases same : i = index
      · subst same
        simp only [Function.update_self, true_and]
        rw [filter_one_more (p := fun e => i ∈ counts.edges e) List.nodup_range (List.mem_range.mpr low) (by simpa using new)
          (fun e => by simp [or_comm]), counted.degree]
        rfl
      · simp only [Function.update_of_ne same, same, false_and, or_false]
        exact counted.degree i

/-- Counting fails at the first dependency that is no index. -/
theorem counted_group {total index : Nat} (inside : index < total) (dependencies : List Int) {counts : Counts}
    (counted : Counted total seen counts) :
    (∃ text, dependencies.foldlM (addDependency total index) counts = .error text) ∧ (∃ d ∈ dependencies, d < 0 ∨ d ≥ total) ∨
      (∀ d ∈ dependencies, ¬ (d < 0 ∨ d ≥ total)) ∧ ∃ next, dependencies.foldlM (addDependency total index) counts = .ok next ∧
        Counted total (fun i d => seen i d ∨ i = index ∧ (d : Int) ∈ dependencies) next := by
  induction dependencies generalizing seen counts with
  | nil => exact .inr ⟨by simp,counts,rfl,by simpa using counted⟩
  | cons dependency rest ih =>
    by_cases bad : dependency < 0 ∨ dependency ≥ total
    · refine .inl ⟨⟨js "Invalid dependency index: " ++ indexText dependency,?_⟩,dependency,List.mem_cons_self,bad⟩
      rw [List.foldlM_cons, addDependency, if_pos bad]
      rfl
    · obtain ⟨next,added,after⟩ := counted_add counted inside bad
      have unfolded : (dependency :: rest).foldlM (addDependency total index) counts =
          rest.foldlM (addDependency total index) next := by
        rw [List.foldlM_cons, added]
        rfl
      rw [unfolded]
      rcases ih after with ⟨fails,d,mem,out⟩ | ⟨good,last,given,final⟩
      · exact .inl ⟨fails,d,List.mem_cons_of_mem _ mem,out⟩
      · refine .inr ⟨?_,last,given,?_⟩
        · intro d mem
          rcases List.mem_cons.mp mem with rfl | later
          · exact bad
          · exact good d later
        · have pairs : (fun i d => (seen i d ∨ i = index ∧ (d : Int) = dependency) ∨ i = index ∧ (d : Int) ∈ rest) =
              fun i d => seen i d ∨ i = index ∧ (d : Int) ∈ dependency :: rest := by
            funext i d
            simp only [List.mem_cons, eq_iff_iff]
            tauto
          exact pairs ▸ final

theorem counted_groups {total index : Nat} (groups : List SplitCommitGroup) (inside : index + groups.length = total)
    {counts : Counts} (counted : Counted total seen counts) :
    (∃ text, addGroups total index groups counts = .error text) ∧ (∃ group ∈ groups, ∃ d ∈ group.dependencies, d < 0 ∨ d ≥ total) ∨
      (∀ group ∈ groups, ∀ d ∈ group.dependencies, ¬ (d < 0 ∨ d ≥ total)) ∧
        ∃ next, addGroups total index groups counts = .ok next ∧
          Counted total (fun i d => seen i d ∨ index ≤ i ∧ DependsOn groups (i - index) d) next := by
  induction groups generalizing index seen counts with
  | nil => exact .inr ⟨by simp,counts,rfl,by simpa [DependsOn] using counted⟩
  | cons group rest ih =>
    rw [List.length_cons] at inside
    rcases counted_group (by omega : index < total) group.dependencies counted with ⟨⟨text,fails⟩,out⟩ | ⟨good,next,given,after⟩
    · exact .inl ⟨⟨text,by rw [addGroups, fails]⟩,group,List.mem_cons_self,out⟩
    · rw [addGroups, given]
      rcases ih (by omega : index + 1 + rest.length = total) after with ⟨fails,other,mem,out⟩ | ⟨good',last,given',final⟩
      · exact .inl ⟨fails,other,List.mem_cons_of_mem _ mem,out⟩
      · refine .inr ⟨?_,last,given',?_⟩
        · intro other mem
          rcases List.mem_cons.mp mem with rfl | later
          · exact good
          · exact good' other later
        · have pairs : (fun i d => (seen i d ∨ i = index ∧ (d : Int) ∈ group.dependencies) ∨
                index + 1 ≤ i ∧ DependsOn rest (i - (index + 1)) d) =
              fun i d => seen i d ∨ index ≤ i ∧ DependsOn (group :: rest) (i - index) d := by
            funext i d
            rw [eq_iff_iff, or_assoc]
            refine or_congr_right ?_
            rcases Nat.lt_trichotomy i index with early | rfl | late
            · simp only [DependsOn]
              constructor
              · rintro (⟨rfl,-⟩ | ⟨after',-⟩) <;> omega
              · rintro ⟨after',-⟩
                omega
            · simp [DependsOn]
            · have shift : i - index = (i - (index + 1)) + 1 := by omega
              simp only [DependsOn, shift, List.getElem?_cons_succ]
              constructor
              · rintro (⟨rfl,-⟩ | ⟨-,found⟩)
                · omega
                · exact ⟨late.le,found⟩
              · rintro ⟨-,found⟩
                exact .inr ⟨late,found⟩
          exact pairs ▸ final

/-- The order of a split plan: an error exactly if a dependency is no index of a group or the dependencies run in
    a circle, and else all groups, each after those it depends on. -/
theorem computeDependencyOrder_sorts (groups : List SplitCommitGroup) :
    ((∃ text, computeDependencyOrder groups = .error text) ↔
      OutOfRange groups ∨ ∃ i, TransGen (DependsOn groups) i i) ∧
    ∀ order, computeDependencyOrder groups = .ok order →
      order.Perm (List.range groups.length) ∧
        ∀ pre i post, order = pre ++ i :: post → ∀ d, DependsOn groups i d → d ∈ pre := by
  have start : Counted groups.length (fun _ _ => False) ⟨fun _ => 0,fun _ => []⟩ :=
    ⟨fun _ => List.nodup_nil,by simp,by simp,by simp⟩
  rcases counted_groups groups (Nat.zero_add _) start with ⟨⟨text,fails⟩,out⟩ | ⟨good,counts,given,counted⟩
  · have error : computeDependencyOrder groups = .error text := by rw [computeDependencyOrder]; simp only [fails]
    rw [error]
    exact ⟨⟨fun _ => .inl out,fun _ => ⟨text,rfl⟩⟩,fun order is => nomatch is⟩
  simp only [false_or, Nat.zero_le, true_and, Nat.sub_zero] at counted
  let graph : Graph Nat := ⟨List.range groups.length,counts.edges,List.nodup_range,counted.single,fun d i mem =>
    List.mem_range.mpr (counted.known d i ((counted.mem d i).mp mem)).1⟩
  have edge : ∀ d i, graph.Edge d i ↔ DependsOn groups i d := fun d i => by
    constructor
    · exact fun step => (counted.mem d i).mp step.2
    · exact fun step => ⟨List.mem_range.mpr (counted.known d i step).2,(counted.mem d i).mpr step⟩
  have cycles : graph.Acyclic ↔ ¬ ∃ i, TransGen (DependsOn groups) i i := by
    have swapped : graph.Edge = Function.swap (DependsOn groups) := by
      funext d i
      exact propext (edge d i)
    simp only [Graph.Acyclic, swapped, transGen_swap, not_exists]
  have fine : ¬ OutOfRange groups := fun ⟨group,mem,d,given',out⟩ => good group mem d given' out
  obtain ⟨-,-,complete,whole,before⟩ := @run_sorts _ _ counts.inDegree graph fun i _ => counted.degree i
  have nodes : graph.nodes.length = groups.length := List.length_range
  rw [nodes] at complete whole
  have result : computeDependencyOrder groups =
      if (run graph.dependents groups.length (graph.start counts.inDegree)).order.length ≠ groups.length then
        .error (js "Circular dependency detected in split commit plan.")
      else .ok (run graph.dependents groups.length (graph.start counts.inDegree)).order := by
    rw [computeDependencyOrder]
    simp only [given]
    rfl
  rw [result]
  rw [nodes] at before
  split
  next short =>
    refine ⟨⟨fun _ => .inr ?_,fun _ => ⟨_,rfl⟩⟩,fun order is => nomatch is⟩
    by_contra none'
    exact short (complete.mpr (cycles.mpr none'))
  next all =>
    rw [not_not] at all
    refine ⟨⟨fun ⟨_,is⟩ => (nomatch is),fun bad => ?_⟩,fun order is => ?_⟩
    · rcases bad with out | cycle
      · exact absurd out fine
      · exact absurd cycle (cycles.mp (complete.mp all))
    · cases is
      exact ⟨whole all,fun pre i post at' d step => before pre i post at' d ((edge d i).mpr step)⟩

example : computeDependencyOrder [⟨[1, 1]⟩, ⟨[]⟩, ⟨[0]⟩] = .ok [1, 0, 2] := by decide +kernel

end CommitOrder
