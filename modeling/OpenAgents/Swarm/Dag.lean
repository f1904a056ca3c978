import OpenAgents.Lib.JsText
import OpenAgents.Lib.KahnSort
import Mathlib.Data.List.Sort

/- Which agents of a swarm wait for which, and the waves they run in. -/
namespace SwarmDag
open JsText KahnSort Relation

/- `Map<string, Set<string>>` in insertion order. -/
structure DependencyMap where
  entries : List (JsString × List JsString)
  distinct : (entries.map Prod.fst).Nodup
  sets : ∀ entry ∈ entries, entry.2.Nodup

def DependencyMap.keys (deps : DependencyMap) : List JsString := deps.entries.map Prod.fst

def DependencyMap.get? (deps : DependencyMap) (node : JsString) : Option (List JsString) :=
  (deps.entries.find? fun entry => entry.1 = node).map Prod.snd

/- The maps `inDegree` and `forward`; a missing list stands for an empty one. -/
structure Counts where
  inDegree : JsString → Int
  forward : JsString → List JsString

def addNode (counts : Counts) (entry : JsString × List JsString) : Counts :=
  { inDegree := Function.update counts.inDegree entry.1 entry.2.length
    forward := entry.2.foldl (fun forward dep => Function.update forward dep (forward dep ++ [entry.1])) counts.forward }

/- Each round takes one name from the queue, and no name enters it twice. -/
def detectCycles (deps : DependencyMap) : Option (List JsString) :=
  let counts := deps.entries.foldl addNode ⟨fun _ => 0,fun _ => []⟩
  let queue := deps.keys.filter fun node => counts.inDegree node = 0
  let sorted := (run counts.forward deps.entries.length ⟨counts.inDegree,queue,[]⟩).order
  if sorted.length < deps.entries.length then some (deps.keys.filter fun node => !sorted.contains node) else none

/- The order of `sort()`, by code units. -/
def notAfter : JsString → JsString → Bool
  | [], _ => true
  | _ :: _, [] => false
  | c :: s, d :: t => decide (c < d) || (c == d && notAfter s t)

def sortNames (names : List JsString) : List JsString := names.insertionSort fun a b => notAfter a b = true

def isReady (deps : DependencyMap) (completed : List JsString) (node : JsString) : Bool :=
  ((deps.get? node).getD []).all fun dep => completed.contains dep

def deadlock (remaining : List JsString) : JsString :=
  js "Deadlock: agents [" ++ (js ", ").intercalate remaining ++ js "] cannot make progress. This indicates a bug in cycle detection."

/- Every round but the last takes names out of `remaining`, so that as many rounds as there are names are enough. -/
def buildWaves (deps : DependencyMap) : Nat → List JsString → List JsString → Except JsString (List (List JsString))
  | 0, _, _ => .ok []
  | fuel + 1, completed, remaining =>
      if remaining.isEmpty then .ok []
      else
        let wave := remaining.filter (isReady deps completed)
        if wave.isEmpty then .error (deadlock remaining)
        else
          match buildWaves deps fuel (completed ++ sortNames wave) (remaining.filter fun node => !wave.contains node) with
          | .error text => .error text
          | .ok later => .ok (sortNames wave :: later)

def buildExecutionWaves (deps : DependencyMap) : Except JsString (List (List JsString)) :=
  buildWaves deps deps.entries.length [] deps.keys

/-- Agent `node` waits for agent `dep`. -/
def DependencyMap.Needs (deps : DependencyMap) (node dep : JsString) : Prop := ∃ needed, (node, needed) ∈ deps.entries ∧ dep ∈ needed

/-- Every dependency is a node of the map. -/
def DependencyMap.Closed (deps : DependencyMap) : Prop := ∀ entry ∈ deps.entries, entry.2 ⊆ deps.keys

def DependencyMap.Acyclic (deps : DependencyMap) : Prop := ∀ node, ¬ TransGen deps.Needs node node

variable {deps : DependencyMap} {completed remaining : List JsString} {node dep : JsString}
  {entries : List (JsString × List JsString)} {fuel : Nat}

theorem get_entry {entry : JsString × List JsString} (mem : entry ∈ deps.entries) : deps.get? entry.1 = some entry.2 := by
  rw [DependencyMap.get?]
  cases found : deps.entries.find? fun other => other.1 = entry.1 with
  | none =>
    have other := List.find?_eq_none.mp found entry mem
    simp at other
  | some other =>
    have same : other.1 = entry.1 := by simpa using List.find?_some found
    rw [List.inj_on_of_nodup_map deps.distinct (List.mem_of_find?_eq_some found) mem same]
    rfl

theorem isReady_iff : isReady deps completed node = true ↔ ∀ dep, deps.Needs node dep → dep ∈ completed := by
  have all : isReady deps completed node = true ↔ ∀ dep ∈ (deps.get? node).getD [], dep ∈ completed := by
    simp [isReady]
  rw [all]
  constructor
  · rintro ready dep ⟨needed,mem,there⟩
    exact ready dep (by rw [get_entry mem]; exact there)
  · intro done dep mem
    cases found : deps.entries.find? fun entry => entry.1 = node with
    | none => simp [DependencyMap.get?, found] at mem
    | some entry =>
      obtain rfl : entry.1 = node := by simpa using List.find?_some found
      have known := List.mem_of_find?_eq_some found
      rw [get_entry known] at mem
      exact done dep ⟨entry.2,known,mem⟩

theorem forward_node (node : JsString) {needed : List JsString} (nodup : needed.Nodup) (forward : JsString → List JsString) :
    needed.foldl (fun forward dep => Function.update forward dep (forward dep ++ [node])) forward =
      fun dep => if dep ∈ needed then forward dep ++ [node] else forward dep := by
  induction needed generalizing forward with
  | nil => simp
  | cons first rest ih =>
    obtain ⟨fresh,distinct⟩ := List.nodup_cons.mp nodup
    rw [List.foldl_cons, ih distinct]
    funext dep
    by_cases same : dep = first
    · subst same
      simp [fresh]
    · simp [same]

theorem forward_spec (sets : ∀ entry ∈ entries, entry.2.Nodup) (counts : Counts) (dep : JsString) : (entries.foldl addNode counts).forward dep =
      counts.forward dep ++ (entries.filter fun entry => dep ∈ entry.2).map Prod.fst := by
  induction entries generalizing counts with
  | nil => simp
  | cons entry rest ih =>
    rw [List.foldl_cons, ih fun other mem => sets other (List.mem_cons_of_mem _ mem)]
    simp only [addNode, forward_node entry.1 (sets entry List.mem_cons_self)]
    by_cases mem : dep ∈ entry.2
    · simp [mem]
    · simp [mem]

theorem inDegree_spec (distinct : (entries.map Prod.fst).Nodup) (counts : Counts) :
    (∀ node, node ∉ entries.map Prod.fst → (entries.foldl addNode counts).inDegree node = counts.inDegree node) ∧
      ∀ entry ∈ entries, (entries.foldl addNode counts).inDegree entry.1 = entry.2.length := by
  induction entries generalizing counts with
  | nil => simp
  | cons first rest ih =>
    obtain ⟨fresh,nodup⟩ := List.nodup_cons.mp distinct
    obtain ⟨others,each⟩ := ih nodup (addNode counts first)
    rw [List.foldl_cons]
    refine ⟨fun node missing => ?_,fun entry mem => ?_⟩
    · rw [List.map_cons, List.mem_cons, not_or] at missing
      rw [others node missing.2]
      exact Function.update_of_ne missing.1 _ _
    · rcases List.mem_cons.mp mem with rfl | later
      · rw [others entry.1 fresh]
        exact Function.update_self _ _ _
      · exact each entry later

theorem needs_key (needs : deps.Needs node dep) : node ∈ deps.keys := by
  obtain ⟨needed,mem,-⟩ := needs
  exact List.mem_map_of_mem mem

theorem closed_key (closed : deps.Closed) (needs : deps.Needs node dep) : dep ∈ deps.keys := by
  obtain ⟨needed,mem,there⟩ := needs
  exact closed _ mem there

def DependencyMap.counts (deps : DependencyMap) : Counts := deps.entries.foldl addNode ⟨fun _ => 0,fun _ => []⟩

theorem forward_iff : node ∈ deps.counts.forward dep ↔ deps.Needs node dep := by
  simp only [DependencyMap.counts, forward_spec deps.sets, List.nil_append, List.mem_map, List.mem_filter, decide_eq_true_eq,
    DependencyMap.Needs]
  constructor
  · rintro ⟨entry,⟨mem,there⟩,rfl⟩
    exact ⟨entry.2,mem,there⟩
  · rintro ⟨needed,mem,there⟩
    exact ⟨(node, needed),⟨mem,there⟩,rfl⟩

/-- The map as a graph in which a dependency comes before the nodes that need it. -/
def DependencyMap.graph (deps : DependencyMap) : Graph JsString where
  nodes := deps.keys
  dependents := deps.counts.forward
  distinct := deps.distinct
  single dep := by
    rw [DependencyMap.counts, forward_spec deps.sets, List.nil_append]
    exact (List.filter_sublist.map Prod.fst).nodup deps.distinct
  known _ _ mem := needs_key (forward_iff.mp mem)

theorem graph_edge (closed : deps.Closed) (dep node : JsString) : deps.graph.Edge dep node ↔ deps.Needs node dep := by
  constructor
  · exact fun edge => forward_iff.mp edge.2
  · exact fun needs => ⟨closed_key closed needs,forward_iff.mpr needs⟩

theorem graph_acyclic (closed : deps.Closed) : deps.graph.Acyclic ↔ deps.Acyclic := by
  have swapped : deps.graph.Edge = Function.swap deps.Needs := by
    funext dep node
    exact propext (graph_edge closed dep node)
  simp only [Graph.Acyclic, DependencyMap.Acyclic, swapped, transGen_swap]

/-- The size of a set of dependencies is the number of nodes behind which its node stands. -/
theorem graph_degree (closed : deps.Closed) (node : JsString) (key : node ∈ deps.graph.nodes) :
    deps.counts.inDegree node = (deps.graph.nodes.filter fun dep => node ∈ deps.graph.dependents dep).length := by
  obtain ⟨entry,mem,rfl⟩ := List.mem_map.mp key
  have perm : (deps.graph.nodes.filter fun dep => entry.1 ∈ deps.graph.dependents dep).Perm entry.2 := by
    refine (List.perm_ext_iff_of_nodup (deps.distinct.filter _) (deps.sets entry mem)).mpr fun dep => ?_
    simp only [List.mem_filter, decide_eq_true_eq]
    constructor
    · rintro ⟨-,behind⟩
      obtain ⟨needed,mem',there⟩ := forward_iff.mp behind
      have same := get_entry mem
      rw [get_entry mem'] at same
      exact Option.some.inj same ▸ there
    · intro there
      exact ⟨closed entry mem there,forward_iff.mpr ⟨entry.2,mem,there⟩⟩
  rw [perm.length_eq]
  exact (inDegree_spec deps.distinct _).2 entry mem

theorem detectCycles_none (closed : deps.Closed) : detectCycles deps = none ↔ deps.Acyclic := by
  obtain ⟨nodup,inside,complete,-,-⟩ := run_sorts deps.graph fun node key => by convert graph_degree closed node key
  have most := (List.subperm_of_subset nodup inside).length_le
  have nodes : deps.graph.nodes.length = deps.entries.length := List.length_map _
  rw [← graph_acyclic closed, ← complete]
  rw [nodes] at most ⊢
  have unfolded : detectCycles deps = (let sorted := (run deps.graph.dependents deps.entries.length (deps.graph.start deps.counts.inDegree)).order
      if sorted.length < deps.entries.length then some (deps.keys.filter fun node => !sorted.contains node) else none) := rfl
  rw [unfolded]
  simp only
  split
  next short => simp; omega
  next whole =>
    simp only [true_iff]
    omega

theorem sortNames_perm (names : List JsString) : (sortNames names).Perm names := List.perm_insertionSort _ names

/-- A wave and what it leaves make up what remained. -/
theorem wave_split (deps : DependencyMap) (completed remaining : List JsString) :
    (sortNames (remaining.filter (isReady deps completed)) ++
      remaining.filter fun node => !(remaining.filter (isReady deps completed)).contains node).Perm remaining := by
  have left : (remaining.filter fun node => !(remaining.filter (isReady deps completed)).contains node) =
      remaining.filter fun node => !isReady deps completed node := by
    refine List.filter_congr fun node mem => ?_
    simp [mem]
  rw [left]
  exact ((sortNames_perm _).append_right _).trans (List.filter_append_perm _ _)

/-- What waits in a round and is not ready misses a dependency. -/
theorem not_ready (waits : isReady deps completed node = false) : ∃ dep, deps.Needs node dep ∧ dep ∉ completed := by
  by_contra none'
  have ready := isReady_iff.mpr fun dep needs => by
    by_contra missing
    exact none' ⟨dep,needs,missing⟩
  rw [waits] at ready
  cases ready

/-- The waves built from a round on: all that remained, in tight layers, the first of them what is ready in this round. -/
theorem buildWaves_layers {waves : List (List JsString)} (enough : remaining.length ≤ fuel)
    (built : buildWaves deps fuel completed remaining = .ok waves) :
    waves.flatten.Perm remaining ∧ Layers (Function.swap deps.Needs) completed waves ∧ Tight (Function.swap deps.Needs) waves ∧
      ∀ node ∈ waves.headD [], node ∈ remaining ∧ isReady deps completed node = true := by
  induction fuel generalizing completed remaining waves with
  | zero =>
    obtain rfl := List.length_eq_zero_iff.mp (Nat.le_zero.mp enough)
    cases built
    exact ⟨.refl _,trivial,trivial,fun _ mem => absurd mem List.not_mem_nil⟩
  | succ fuel ih =>
    rw [buildWaves] at built
    split at built
    next empty =>
      obtain rfl : remaining = [] := by simpa using empty
      cases built
      exact ⟨.refl _,trivial,trivial,fun _ mem => absurd mem List.not_mem_nil⟩
    simp only at built
    split at built
    · cases built
    next some' =>
      split at built
      · cases built
      next later rest =>
        cases built
        have split' := wave_split deps completed remaining
        have length := split'.length_eq
        have positive : 0 < (sortNames (remaining.filter (isReady deps completed))).length := by
          rw [(sortNames_perm _).length_eq]
          exact List.length_pos_iff.mpr (by simpa using some')
        rw [List.length_append] at length
        obtain ⟨whole,layered,tight,first⟩ := ih (by omega) rest
        have ready : ∀ node ∈ sortNames (remaining.filter (isReady deps completed)),
            node ∈ remaining ∧ isReady deps completed node = true := fun node mem =>
          List.mem_filter.mp ((sortNames_perm _).mem_iff.mp mem)
        refine ⟨(whole.append_left _).trans split',⟨fun node mem dep needs => isReady_iff.mp (ready node mem).2 dep needs,layered⟩,
          ⟨fun node mem => ?_,tight⟩,ready⟩
        -- a name left over misses a dependency before this wave and none after it
        obtain ⟨left,ready'⟩ := first node mem
        obtain ⟨there,waits⟩ := List.mem_filter.mp left
        have early : isReady deps completed node = false := by simpa [there] using waits
        obtain ⟨dep,needs,missing⟩ := not_ready early
        exact ⟨dep,(List.mem_append.mp (isReady_iff.mp ready' dep needs)).resolve_left missing,needs⟩

/-- A deadlock leaves names each of which needs another of them. -/
theorem buildWaves_deadlock (closed : deps.Closed) {text : JsString} (cover : (completed ++ remaining).Perm deps.keys)
    (failed : buildWaves deps fuel completed remaining = .error text) : ¬ deps.Acyclic := by
  induction fuel generalizing completed remaining with
  | zero => cases failed
  | succ fuel ih =>
    rw [buildWaves] at failed
    split at failed
    · cases failed
    next some' =>
      simp only at failed
      split at failed
      next none' =>
        intro acyclic
        have nonempty : remaining ≠ [] := by simpa using some'
        obtain ⟨node,mem,least⟩ := acyclic_source ((graph_acyclic closed).mpr acyclic) nonempty
        have waits : isReady deps completed node = false := by
          have each := List.filter_eq_nil_iff.mp (List.isEmpty_iff.mp none') node mem
          simpa using each
        obtain ⟨dep,needs,missing⟩ := not_ready waits
        have known := cover.mem_iff.mpr (closed_key closed needs)
        exact least dep ((List.mem_append.mp known).resolve_left missing) ((graph_edge closed dep node).mpr needs)
      · split at failed
        next other rest =>
          cases failed
          refine ih ?_ rest
          rw [List.append_assoc]
          exact ((wave_split deps completed remaining).append_left completed).trans cover
        · cases failed

/-- Cycles are found, and waves are not built, exactly for a map with a cycle. Otherwise each node is in one wave, behind
    the waves of its dependencies, and the number of its wave is the length of the longest chain of dependencies below it. -/
theorem waves_layer_agents (deps : DependencyMap) (closed : deps.Closed) :
    (detectCycles deps = none ↔ deps.Acyclic) ∧
      ((∃ waves, buildExecutionWaves deps = .ok waves) ↔ deps.Acyclic) ∧
      ∀ waves, buildExecutionWaves deps = .ok waves → waves.flatten.Perm deps.keys ∧
        ∀ i wave, waves[i]? = some wave → ∀ node ∈ wave,
          (∀ dep, deps.Needs node dep → ∃ j < i, ∃ earlier, waves[j]? = some earlier ∧ dep ∈ earlier) ∧
            IsGreatest {n | Chain (Function.swap deps.Needs) node n} i := by
  have layers : ∀ waves, buildExecutionWaves deps = .ok waves → waves.flatten.Perm deps.keys ∧
      Layers (Function.swap deps.Needs) [] waves ∧ Tight (Function.swap deps.Needs) waves := by
    intro waves built
    obtain ⟨whole,layered,tight,-⟩ := buildWaves_layers (Nat.le_of_eq (List.length_map _)) built
    exact ⟨whole,layered,tight⟩
  have acyclic : ∀ waves, buildExecutionWaves deps = .ok waves → deps.Acyclic := by
    intro waves built node cycle
    obtain ⟨whole,layered,-⟩ := layers waves built
    have needs : ∃ dep, deps.Needs node dep := by
      rcases TransGen.head'_iff.mp cycle with ⟨dep,needs,-⟩
      exact ⟨dep,needs⟩
    have mem := whole.mem_iff.mpr (needs_key needs.choose_spec)
    exact layers_acyclic layered mem (transGen_swap.mpr cycle)
  refine ⟨detectCycles_none closed,⟨fun ⟨waves,built⟩ => acyclic waves built,fun none' => ?_⟩,fun waves built => ?_⟩
  · cases result : buildExecutionWaves deps with
    | ok waves => exact ⟨waves,rfl⟩
    | error text => exact absurd none' (buildWaves_deadlock closed (.refl _) result)
  · obtain ⟨whole,layered,tight⟩ := layers waves built
    refine ⟨whole,fun i wave at' node mem => ⟨fun dep needs => ?_,longest_chain layered tight at' mem⟩⟩
    exact (layers_earlier layered at' mem needs).resolve_left List.not_mem_nil

def reviewTeam : DependencyMap where
  entries := [(js "lead", [js "reader", js "writer"]), (js "writer", [js "reader"]), (js "reader", []), (js "critic", [js "reader"])]
  distinct := by decide +kernel
  sets := by decide +kernel

theorem review_team_layers : (detectCycles reviewTeam = none ↔ reviewTeam.Acyclic) ∧
    ((∃ waves, buildExecutionWaves reviewTeam = .ok waves) ↔ reviewTeam.Acyclic) ∧
    ∀ waves, buildExecutionWaves reviewTeam = .ok waves → waves.flatten.Perm reviewTeam.keys ∧
      ∀ i wave, waves[i]? = some wave → ∀ node ∈ wave,
        (∀ dep, reviewTeam.Needs node dep → ∃ j < i, ∃ earlier, waves[j]? = some earlier ∧ dep ∈ earlier) ∧
          IsGreatest {n | Chain (Function.swap reviewTeam.Needs) node n} i :=
  waves_layer_agents reviewTeam (by unfold DependencyMap.Closed; decide +kernel)

example : buildExecutionWaves reviewTeam = .ok [[js "reader"], [js "critic", js "writer"], [js "lead"]] := by decide +kernel

end SwarmDag
