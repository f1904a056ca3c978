import Mathlib.Data.List.Perm.Basic
import Mathlib.Data.List.Nodup
import Mathlib.Logic.Relation
import Mathlib.Logic.Function.Basic
import Mathlib.Order.WellFoundedSet

/- Topological sort by counting: a node is taken once all the nodes it needs are taken. What is left
   over in the end lies on or behind a cycle. -/
namespace KahnSort
open Relation
variable {V : Type}

/-- The nodes, and which nodes stand behind which. -/
structure Graph (V : Type) where
  nodes : List V
  dependents : V → List V
  distinct : nodes.Nodup
  single : ∀ v, (dependents v).Nodup
  known : ∀ v, dependents v ⊆ nodes

/-- `v` comes before `w`. -/
def Graph.Edge (g : Graph V) (v w : V) : Prop := v ∈ g.nodes ∧ w ∈ g.dependents v

def Graph.Acyclic (g : Graph V) : Prop := ∀ v, ¬ TransGen g.Edge v v

/-- A set of nodes without cycles has one that no other comes before. -/
theorem acyclic_source {g : Graph V} (acyclic : g.Acyclic) {ws : List V} (some' : ws ≠ []) :
    ∃ w ∈ ws, ∀ v ∈ ws, ¬ g.Edge v w := by
  have strict : IsStrictOrder V (TransGen g.Edge) :=
    { irrefl := acyclic, trans := fun _ _ _ first second => first.trans second }
  have founded : Set.WellFoundedOn {v | v ∈ ws} (TransGen g.Edge) := (List.finite_toSet ws).wellFoundedOn
  obtain ⟨first,rest,rfl⟩ := List.exists_cons_of_ne_nil some'
  obtain ⟨w,mem,least⟩ := founded.has_min Set.univ ⟨⟨first,List.mem_cons_self⟩,trivial⟩
  exact ⟨w.1,w.2,fun v there edge => least ⟨v,there⟩ trivial (.single edge)⟩

/-- A chain of `n` nodes, each behind the next, below a node. -/
inductive Chain (edge : V → V → Prop) : V → Nat → Prop
  | root (w : V) : Chain edge w 0
  | link {v w : V} {n : Nat} (step : edge v w) (rest : Chain edge v n) : Chain edge w (n + 1)

/-- Layers of nodes: what comes before a node is in `done` or in an earlier layer. -/
def Layers (edge : V → V → Prop) : List V → List (List V) → Prop
  | _, [] => True
  | done, layer :: rest => (∀ w ∈ layer, ∀ v, edge v w → v ∈ done) ∧ Layers edge (done ++ layer) rest

/-- No node could stand in an earlier layer: one of those before it is in the layer just above. -/
def Tight (edge : V → V → Prop) : List (List V) → Prop
  | [] => True
  | layer :: rest => (∀ w ∈ rest.headD [], ∃ v ∈ layer, edge v w) ∧ Tight edge rest

section
variable {edge : V → V → Prop}

variable {layers : List (List V)} {i : Nat} {layer : List V} {v w : V}

theorem layers_earlier {done : List V} (layered : Layers edge done layers) (at' : layers[i]? = some layer) (mem : w ∈ layer)
    (step : edge v w) : v ∈ done ∨ ∃ j < i, ∃ earlier, layers[j]? = some earlier ∧ v ∈ earlier := by
  induction layers generalizing done i with
  | nil => simp at at'
  | cons first rest ih =>
    cases i with
    | zero =>
      obtain rfl : first = layer := by simpa using at'
      exact .inl (layered.1 w mem v step)
    | succ i =>
      rcases ih layered.2 (by simpa using at') with before | ⟨j,less,earlier,found,there⟩
      · rcases List.mem_append.mp before with old | here
        · exact .inl old
        · exact .inr ⟨0,Nat.succ_pos i,first,rfl,here⟩
      · exact .inr ⟨j + 1,by omega,earlier,by simpa using found,there⟩

theorem layers_path (layered : Layers edge [] layers) (path : TransGen edge v w) (at' : layers[i]? = some layer)
    (mem : w ∈ layer) : ∃ j < i, ∃ earlier, layers[j]? = some earlier ∧ v ∈ earlier := by
  have one : ∀ {v w i layer}, layers[i]? = some layer → w ∈ layer → edge v w →
      ∃ j < i, ∃ earlier, layers[j]? = some earlier ∧ v ∈ earlier :=
    fun at' mem step => (layers_earlier layered at' mem step).resolve_left List.not_mem_nil
  induction path generalizing i layer with
  | single step => exact one at' mem step
  | tail _ step ih =>
    obtain ⟨j,less,earlier,found,there⟩ := one at' mem step
    obtain ⟨k,less',rest⟩ := ih found there
    exact ⟨k,by omega,rest⟩

theorem layers_acyclic (layered : Layers edge [] layers) (mem : w ∈ layers.flatten) : ¬ TransGen edge w w := by
  intro cycle
  obtain ⟨layer,there,inside⟩ := List.mem_flatten.mp mem
  obtain ⟨i,at'⟩ := List.mem_iff_getElem?.mp there
  induction i using Nat.strong_induction_on generalizing layer with
  | h i ih =>
    obtain ⟨j,less,earlier,found,lower⟩ := layers_path layered cycle at' inside
    exact ih j less earlier (List.mem_of_getElem? found) lower found

theorem tight_above (tight : Tight edge layers) (at' : layers[i + 1]? = some layer) (mem : w ∈ layer) : ∃ above, layers[i]? = some above ∧ ∃ v ∈ above, edge v w := by
  induction layers generalizing i with
  | nil => simp at at'
  | cons first rest ih =>
    rw [List.getElem?_cons_succ] at at'
    cases i with
    | zero =>
      cases rest with
      | nil => simp at at'
      | cons second later =>
        obtain rfl : second = layer := by simpa using at'
        exact ⟨first,rfl,tight.1 w mem⟩
    | succ i =>
      obtain ⟨above,found,v,there,step⟩ := ih tight.2 at'
      exact ⟨above,by simpa using found,v,there,step⟩

/-- In tight layers the index of a node is the length of the longest chain below it. -/
theorem longest_chain (layered : Layers edge [] layers) (tight : Tight edge layers) (at' : layers[i]? = some layer)
    (mem : w ∈ layer) : IsGreatest {n | Chain edge w n} i := by
  constructor
  · show Chain edge w i
    induction i generalizing layer w with
    | zero => exact .root w
    | succ i ih =>
      obtain ⟨next,found,v,there,step⟩ := tight_above tight at' mem
      exact .link step (ih found there)
  · intro n chain
    have deep : ∀ {w n}, Chain edge w n → ∀ {i layer}, layers[i]? = some layer → w ∈ layer → n ≤ i := by
      intro w n chain
      induction chain with
      | root w => exact fun _ _ => Nat.zero_le _
      | link step _ ih =>
        intro i layer at' mem
        rcases layers_earlier layered at' mem step with none' | ⟨j,less,earlier,found,there⟩
        · cases none'
        · have shorter := ih found there
          omega
    exact deep chain at' mem

end

variable [DecidableEq V]

structure State (V : Type) where
  inDegree : V → Int
  queue : List V
  order : List V

/- One edge of the node just taken. -/
def relax (s : State V) (w : V) : State V :=
  let degree := s.inDegree w - 1
  { s with inDegree := Function.update s.inDegree w degree, queue := if degree = 0 then s.queue ++ [w] else s.queue }

/- One round of the loop, on a queue that is not empty. -/
def take (dependents : V → List V) (s : State V) : State V :=
  match s.queue with
  | [] => s
  | v :: rest => (dependents v).foldl relax { s with queue := rest, order := s.order ++ [v] }

/- At most as many rounds as the fuel has. -/
def run (dependents : V → List V) : Nat → State V → State V
  | 0, s => s
  | fuel + 1, s => if s.queue.isEmpty then s else run dependents fuel (take dependents s)

theorem relax_all {ws : List V} (distinct : ws.Nodup) (s : State V) :
    ws.foldl relax s = { s with
      inDegree := fun w => if w ∈ ws then s.inDegree w - 1 else s.inDegree w
      queue := s.queue ++ ws.filter fun w => s.inDegree w = 1 } := by
  induction ws generalizing s with
  | nil => simp
  | cons w ws ih =>
    obtain ⟨fresh,rest⟩ := List.nodup_cons.mp distinct
    rw [List.foldl_cons, ih rest]
    have others : ∀ x ∈ ws, (relax s w).inDegree x = s.inDegree x := by
      intro x mem
      have other : x ≠ w := fun same => fresh (same ▸ mem)
      simp [relax, Function.update_of_ne other]
    have kept : (ws.filter fun x => (relax s w).inDegree x = 1) = ws.filter fun x => s.inDegree x = 1 :=
      List.filter_congr fun x mem => by rw [others x mem]
    have degrees : (fun x => if x ∈ ws then (relax s w).inDegree x - 1 else (relax s w).inDegree x) =
        fun x => if x ∈ w :: ws then s.inDegree x - 1 else s.inDegree x := by
      funext x
      by_cases same : x = w
      · subst same
        simp [relax, fresh]
      · simp [relax, same]
    rw [kept, degrees]
    by_cases last : s.inDegree w = 1
    · have zero : s.inDegree w - 1 = 0 := by omega
      simp [relax, last]
    · have some' : ¬ s.inDegree w - 1 = 0 := by omega
      simp [relax, last, some']

/- The nodes that `w` still waits for. -/
def Graph.pending (g : Graph V) (order : List V) (w : V) : List V :=
  g.nodes.filter fun v => v ∉ order ∧ w ∈ g.dependents v

/-- The state of the loop between two rounds. -/
structure Sound (g : Graph V) (s : State V) : Prop where
  nodup : (s.order ++ s.queue).Nodup
  inside : s.order ++ s.queue ⊆ g.nodes
  degree : ∀ w ∈ g.nodes, s.inDegree w = (g.pending s.order w).length
  ready : ∀ w ∈ g.nodes, w ∈ s.order ++ s.queue ↔ s.inDegree w = 0
  before : ∀ pre w post, s.order = pre ++ w :: post → ∀ v, g.Edge v w → v ∈ pre

def Graph.start (g : Graph V) (inDegree : V → Int) : State V := ⟨inDegree,g.nodes.filter fun w => inDegree w = 0,[]⟩

variable {inDegree : V → Int} {order : List V} {v : V} {g : Graph V} {s : State V}

theorem start_sound (g : Graph V) (counts : ∀ w ∈ g.nodes, inDegree w = (g.nodes.filter fun v => w ∈ g.dependents v).length) : Sound g (g.start inDegree) := by
  refine ⟨g.distinct.filter _,fun w mem => (List.mem_filter.mp mem).1,fun w mem => ?_,fun w mem => ?_,fun pre w post is => ?_⟩
  · simpa [Graph.start, Graph.pending] using counts w mem
  · simp [Graph.start, mem]
  · exact absurd is (by simp [Graph.start])

theorem pending_take (g : Graph V) (node : v ∈ g.nodes) (fresh : v ∉ order) (w : V) :
    ((g.pending (order ++ [v]) w).length : Int) =
      if w ∈ g.dependents v then ((g.pending order w).length : Int) - 1 else (g.pending order w).length := by
  have cut : g.pending (order ++ [v]) w = (g.pending order w).erase v := by
    have nodup : (g.pending order w).Nodup := g.distinct.filter _
    rw [nodup.erase_eq_filter, Graph.pending, Graph.pending, List.filter_filter]
    refine List.filter_congr fun x mem => ?_
    by_cases same : x = v
    · simp [same]
    · simp [same]
  rw [cut]
  split
  next behind =>
    have mem : v ∈ g.pending order w := by simp [Graph.pending, node, fresh, behind]
    have some' := List.length_pos_of_mem mem
    rw [List.length_erase_of_mem mem]
    omega
  next free =>
    rw [List.erase_of_not_mem (by simp [Graph.pending, free])]

theorem take_sound {rest : List V} (sound : Sound g s) (queue : s.queue = v :: rest) :
    Sound g (take g.dependents s) ∧ (take g.dependents s).order = s.order ++ [v] := by
  have waiting : v ∈ s.order ++ s.queue := by simp [queue]
  have node : v ∈ g.nodes := sound.inside waiting
  have free : s.inDegree v = 0 := (sound.ready v node).mp waiting
  have fresh : v ∉ s.order := by
    have apart := (List.nodup_append.mp sound.nodup).2.2
    exact fun early => apart v early v (by simp [queue]) rfl
  have behind : ∀ w ∈ g.dependents v, 1 ≤ s.inDegree w := by
    intro w mem
    have counted : v ∈ g.pending s.order w := by simp [Graph.pending, node, fresh, mem]
    have some' := List.length_pos_of_mem counted
    rw [sound.degree w (g.known v mem)]
    omega
  have unfolded : take g.dependents s = ⟨fun w => if w ∈ g.dependents v then s.inDegree w - 1 else s.inDegree w,
      rest ++ (g.dependents v).filter fun w => s.inDegree w = 1,s.order ++ [v]⟩ := by
    simp only [take, queue, relax_all (g.single v)]
  rw [unfolded]
  have same : ∀ w, w ∈ (s.order ++ [v]) ++ (rest ++ (g.dependents v).filter fun w => s.inDegree w = 1) ↔
      w ∈ s.order ++ s.queue ∨ w ∈ g.dependents v ∧ s.inDegree w = 1 := by
    intro w
    simp only [queue, List.mem_append, List.mem_cons, List.mem_filter, decide_eq_true_eq, List.not_mem_nil, or_false]
    tauto
  refine ⟨⟨?_,?_,fun w mem => ?_,fun w mem => ?_,?_⟩,rfl⟩
  · have old : ((s.order ++ [v]) ++ rest).Nodup := by
      have nodup := sound.nodup
      rw [queue] at nodup
      simpa using nodup
    rw [← List.append_assoc]
    refine List.nodup_append.mpr ⟨old,(g.single v).filter _,fun a mem b mem' is => ?_⟩
    subst is
    obtain ⟨isDependent,last⟩ := List.mem_filter.mp mem'
    have there : a ∈ s.order ++ s.queue := by
      rw [queue]
      simpa using mem
    have zero := (sound.ready a (g.known v isDependent)).mp there
    have one : s.inDegree a = 1 := by simpa using last
    omega
  · intro w mem
    rcases (same w).mp mem with old | ⟨isDependent,-⟩
    · exact sound.inside old
    · exact g.known v isDependent
  · simp only
    rw [pending_take g node fresh, sound.degree w mem]
  · rw [same w, sound.ready w mem]
    simp only
    split
    next isDependent =>
      have positive := behind w isDependent
      constructor
      · rintro (zero | ⟨-,one⟩) <;> omega
      · exact fun zero => .inr ⟨isDependent,by omega⟩
    next other => simp [other]
  · intro pre w post is u edge
    rcases List.eq_nil_or_concat post with rfl | ⟨post',last,rfl⟩
    · -- the node just taken: nothing is left of what it waited for
      obtain ⟨here,at'⟩ := List.append_inj' is rfl
      obtain rfl : v = w := by simpa using at'
      by_contra missing
      have counted : u ∈ g.pending s.order v := by
        rw [Graph.pending, List.mem_filter]
        exact ⟨edge.1,by simp [here, missing, edge.2]⟩
      have count := sound.degree v node
      rw [free] at count
      have some' := List.length_pos_of_mem counted
      omega
    · have whole : s.order ++ [v] = (pre ++ w :: post') ++ [last] := by simpa using is
      exact sound.before pre w post' (List.append_inj' whole rfl).1 u edge

theorem sound_length (sound : Sound g s) : s.order.length + s.queue.length ≤ g.nodes.length := by
  rw [← List.length_append]
  exact (List.subperm_of_subset sound.nodup sound.inside).length_le

theorem run_sound (fuel : Nat) (sound : Sound g s) (enough : g.nodes.length ≤ s.order.length + fuel) :
    Sound g (run g.dependents fuel s) ∧ (run g.dependents fuel s).queue = [] := by
  induction fuel generalizing s with
  | zero =>
    have most := sound_length sound
    exact ⟨sound,List.length_eq_zero_iff.mp (by simp only [run]; omega)⟩
  | succ fuel ih =>
    rw [run]
    split
    next empty => exact ⟨sound,by simpa using empty⟩
    next some' =>
      obtain ⟨v,rest,queue⟩ : ∃ v rest, s.queue = v :: rest := List.exists_cons_of_ne_nil (by simpa using some')
      obtain ⟨next',order⟩ := take_sound sound queue
      refine ih next' ?_
      rw [order, List.length_append, List.length_singleton]
      omega

/-- Where every node is taken, an earlier node of the graph stands earlier in the order. -/
theorem edge_earlier (whole : order.Perm g.nodes)
    (before : ∀ pre w post, order = pre ++ w :: post → ∀ v, g.Edge v w → v ∈ pre) {v w : V} (path : TransGen g.Edge v w) :
    order.idxOf v < order.idxOf w := by
  have nodup : order.Nodup := whole.nodup_iff.mpr g.distinct
  have one : ∀ v w, g.Edge v w → order.idxOf v < order.idxOf w := by
    intro v w edge
    have there : w ∈ order := whole.mem_iff.mpr (g.known v edge.2)
    obtain ⟨pre,post,is⟩ := List.append_of_mem there
    have early := before pre w post is v edge
    have late : w ∉ pre := fun mem => by
      rw [is] at nodup
      exact (List.nodup_append.mp nodup).2.2 w mem w List.mem_cons_self rfl
    rw [is, List.idxOf_append_of_mem early, List.idxOf_append_of_notMem late]
    have bound := List.idxOf_lt_length_iff.mpr early
    omega
  induction path with
  | single edge => exact one _ _ edge
  | tail _ edge ih => exact ih.trans (one _ _ edge)

/-- The outcome of the sort: it takes every node exactly where there is no cycle, and then each after what comes before it. -/
theorem run_sorts (g : Graph V) (counts : ∀ w ∈ g.nodes, inDegree w = (g.nodes.filter fun v => w ∈ g.dependents v).length) :
    let order := (run g.dependents g.nodes.length (g.start inDegree)).order
    order.Nodup ∧ order ⊆ g.nodes ∧ (order.length = g.nodes.length ↔ g.Acyclic) ∧
      (order.length = g.nodes.length → order.Perm g.nodes) ∧
      ∀ pre w post, order = pre ++ w :: post → ∀ v, g.Edge v w → v ∈ pre := by
  intro order
  obtain ⟨sound,done⟩ := run_sound g.nodes.length (start_sound g counts) (Nat.le_add_left _ _)
  have nodup := sound.nodup
  have inside := sound.inside
  rw [done, List.append_nil] at nodup inside
  have perm : order.length = g.nodes.length → order.Perm g.nodes := fun length =>
    (List.subperm_of_subset nodup inside).perm_of_length_le length.ge
  refine ⟨nodup,inside,⟨fun length v cycle => ?_,fun acyclic => ?_⟩,perm,sound.before⟩
  · exact (edge_earlier (perm length) sound.before cycle).ne rfl
  · by_contra short
    have left : g.nodes.filter (fun w => w ∉ order) ≠ [] := by
      intro none'
      have all : g.nodes ⊆ order := fun w mem => by
        by_contra missing
        exact List.not_mem_nil (none' ▸ List.mem_filter.mpr ⟨mem,by simpa using missing⟩)
      exact short (Nat.le_antisymm (List.subperm_of_subset nodup inside).length_le
        (List.subperm_of_subset g.distinct all).length_le)
    obtain ⟨w,mem,least⟩ := acyclic_source acyclic left
    obtain ⟨node,missing⟩ := List.mem_filter.mp mem
    have waits : (run g.dependents g.nodes.length (g.start inDegree)).inDegree w ≠ 0 := by
      rw [Ne, ← sound.ready w node, done, List.append_nil]
      simpa using missing
    rw [sound.degree w node] at waits
    obtain ⟨v,pending⟩ : ∃ v, v ∈ g.pending order w :=
      List.exists_mem_of_ne_nil _ fun none' => waits (by rw [show g.pending _ w = [] from none']; rfl)
    obtain ⟨before,is⟩ := List.mem_filter.mp pending
    have is' : v ∉ order ∧ w ∈ g.dependents v := by simpa using is
    exact least v (List.mem_filter.mpr ⟨before,by simpa using is'.1⟩) ⟨before,is'.2⟩

end KahnSort
