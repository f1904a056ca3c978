import OpenAgents.Swarm.Dag
import OpenAgents.Swarm.Pipeline

/- From the definition of a swarm to its run: which agents wait for which, and in what order they are executed.
   Of an agent only what the order depends on is kept. -/
namespace SwarmLaunch
open JsText KahnSort SwarmDag SwarmPipeline

inductive SwarmMode where
  | pipeline
  | parallel
  | sequential
  deriving DecidableEq, Repr

structure SwarmAgent where
  name : JsString
  reportsTo : List JsString
  waitsFor : List JsString

/-- The agents in the order of the YAML file, each name a key of its mapping. -/
structure Definition where
  mode : SwarmMode
  targetCount : Nat
  agents : List SwarmAgent
  distinct : (agents.map SwarmAgent.name).Nodup

section
variable (d : Definition)

def agentOrder : List JsString := d.agents.map SwarmAgent.name

/- What the first loop adds, from a node to one it waits for: names without an agent are passed over. -/
def waitsForEdges : List (JsString × JsString) :=
  d.agents.flatMap fun agent => (agent.waitsFor.filter (agentOrder d).contains).map fun dep => (agent.name, dep)

/- What the second adds: the target waits for the reporter. -/
def reportsToEdges : List (JsString × JsString) :=
  d.agents.flatMap fun agent => (agent.reportsTo.filter (agentOrder d).contains).map fun target => (target, agent.name)

def chainEdges : List (JsString × JsString) := (agentOrder d).tail.zip (agentOrder d)

/- The set of a node, whatever the order in which its members were added. -/
def setOf (edges : List (JsString × JsString)) (node : JsString) : List JsString :=
  ((edges.filter fun edge => edge.1 = node).map Prod.snd).dedup

def hasExplicitDeps : Bool := (agentOrder d).any fun name => !(setOf (waitsForEdges d ++ reportsToEdges d) name).isEmpty

def allEdges : List (JsString × JsString) :=
  let explicit := waitsForEdges d ++ reportsToEdges d
  if (d.mode == .pipeline || d.mode == .sequential) && !hasExplicitDeps d then explicit ++ chainEdges d else explicit

def buildDependencyGraph : DependencyMap where
  entries := (agentOrder d).map fun name => (name, setOf (allEdges d) name)
  distinct := by
    rw [List.map_map]
    exact (List.map_id' (agentOrder d)).symm ▸ d.distinct
  sets := by
    intro entry mem
    obtain ⟨name,_,rfl⟩ := List.mem_map.mp mem
    exact List.nodup_dedup _

/-- An agent waits for another, or the other reports to it. -/
def Declared (node dep : JsString) : Prop := node ∈ agentOrder d ∧ dep ∈ agentOrder d ∧
  ((∃ agent ∈ d.agents, agent.name = node ∧ dep ∈ agent.waitsFor) ∨ ∃ agent ∈ d.agents, agent.name = dep ∧ node ∈ agent.reportsTo)

/-- One agent stands right behind another in the YAML file. -/
def Behind (node dep : JsString) : Prop := ∃ i, (agentOrder d)[i]? = some dep ∧ (agentOrder d)[i + 1]? = some node

variable {d} {node dep : JsString}

theorem mem_setOf {edges : List (JsString × JsString)} : dep ∈ setOf edges node ↔ (node, dep) ∈ edges := by
  simp [setOf]

theorem mem_explicit : (node, dep) ∈ waitsForEdges d ++ reportsToEdges d ↔ Declared d node dep := by
  rw [List.mem_append, waitsForEdges, reportsToEdges, Declared]
  simp only [List.mem_flatMap, List.mem_map, List.mem_filter, List.contains_iff_mem, Prod.mk.injEq]
  constructor
  · rintro (⟨agent,mem,_,⟨waits,known⟩,rfl,rfl⟩ | ⟨agent,mem,_,⟨reports,known⟩,rfl,rfl⟩)
    · exact ⟨List.mem_map_of_mem mem,known,.inl ⟨agent,mem,rfl,waits⟩⟩
    · exact ⟨known,List.mem_map_of_mem mem,.inr ⟨agent,mem,rfl,reports⟩⟩
  · rintro ⟨there,known,⟨agent,mem,rfl,waits⟩ | ⟨agent,mem,rfl,reports⟩⟩
    · exact .inl ⟨agent,mem,dep,⟨waits,known⟩,rfl,rfl⟩
    · exact .inr ⟨agent,mem,node,⟨reports,there⟩,rfl,rfl⟩

theorem mem_chain : (node, dep) ∈ chainEdges d ↔ Behind d node dep := by
  rw [chainEdges, List.mem_iff_getElem?]
  refine exists_congr fun i => ?_
  rw [List.getElem?_zip_eq_some, List.getElem?_tail, and_comm]

theorem explicit_none : hasExplicitDeps d = false ↔ ∀ node dep, ¬ Declared d node dep := by
  rw [hasExplicitDeps, List.any_eq_false]
  constructor
  · intro none' node dep declared
    have empty := none' node declared.1
    simp only [Bool.not_eq_true', Bool.not_eq_false, List.isEmpty_iff] at empty
    have mem := mem_setOf.mpr (mem_explicit.mpr declared)
    rw [empty] at mem
    cases mem
  · intro none' name _
    have empty : setOf (waitsForEdges d ++ reportsToEdges d) name = [] :=
      List.eq_nil_iff_forall_not_mem.mpr fun dep mem => none' name dep (mem_explicit.mp (mem_setOf.mp mem))
    rw [empty]
    decide

theorem mem_allEdges : (node, dep) ∈ allEdges d ↔
    Declared d node dep ∨ d.mode ≠ .parallel ∧ (∀ node dep, ¬ Declared d node dep) ∧ Behind d node dep := by
  have chained : ((d.mode == .pipeline || d.mode == .sequential) && !hasExplicitDeps d) = true ↔
      d.mode ≠ .parallel ∧ ∀ node dep, ¬ Declared d node dep := by
    rw [Bool.and_eq_true, Bool.not_eq_true', explicit_none]
    exact and_congr_left' (by cases d.mode <;> decide)
  rw [allEdges]
  split
  next yes =>
    obtain ⟨mode,none'⟩ := chained.mp yes
    rw [List.mem_append, mem_explicit, mem_chain]
    exact or_congr_right ⟨fun behind => ⟨mode,none',behind⟩,fun chain => chain.2.2⟩
  next no =>
    rw [mem_explicit]
    exact ⟨.inl,fun either => either.resolve_right fun chain => no (chained.mpr ⟨chain.1,chain.2.1⟩)⟩

theorem edge_known (mem : (node, dep) ∈ allEdges d) : node ∈ agentOrder d ∧ dep ∈ agentOrder d := by
  rcases mem_allEdges.mp mem with declared | ⟨_,_,i,at',next⟩
  · exact ⟨declared.1,declared.2.1⟩
  · exact ⟨List.mem_of_getElem? next,List.mem_of_getElem? at'⟩

theorem graph_needs : (buildDependencyGraph d).Needs node dep ↔ (node, dep) ∈ allEdges d := by
  constructor
  · rintro ⟨needed,mem,there⟩
    obtain ⟨name,_,same⟩ := List.mem_map.mp mem
    cases same
    exact mem_setOf.mp there
  · intro mem
    exact ⟨_,List.mem_map_of_mem (edge_known mem).1,mem_setOf.mpr mem⟩

theorem graph_keys : (buildDependencyGraph d).keys = agentOrder d := by
  rw [DependencyMap.keys, buildDependencyGraph, List.map_map]
  exact List.map_id' _

end

/-- The graph holds what is declared between two agents of the swarm and nothing else, but for a pipeline or a sequence
    in which nothing is declared: there each agent waits for the one before it. -/
theorem graph_is_declared (d : Definition) : (buildDependencyGraph d).keys = agentOrder d ∧ (buildDependencyGraph d).Closed ∧
    ∀ node dep, (buildDependencyGraph d).Needs node dep ↔
      Declared d node dep ∨ d.mode ≠ .parallel ∧ (∀ node dep, ¬ Declared d node dep) ∧ Behind d node dep := by
  refine ⟨graph_keys,fun entry mem dep there => ?_,fun node dep => graph_needs.trans mem_allEdges⟩
  obtain ⟨name,_,rfl⟩ := List.mem_map.mp mem
  rw [graph_keys]
  exact (edge_known (mem_setOf.mp there)).2

section
variable (around : Surroundings) (controller : PipelineController)

/- Which agent an execution is of, and in which iteration. -/
def place (execution : Execution) : Nat × JsString := (execution.iteration, execution.agentName)

def round (iteration : Nat) (waves : List (List JsString)) : List (Nat × JsString) := waves.flatten.map (iteration, ·)

/-- Every agent of every wave, iteration by iteration. -/
def schedule (first count : Nat) (waves : List (List JsString)) : List (Nat × JsString) :=
  (List.range' first count).flatMap fun iteration => round iteration waves

variable {around controller} {waves : List (List JsString)} {world : World} {iteration : Nat}

theorem aborted_later {early late : Nat} (seen : aborted around early = true) (order : early ≤ late) : aborted around late = true := by
  rw [aborted, Option.any_eq_true] at seen ⊢
  obtain ⟨moment,is,reached⟩ := seen
  exact ⟨moment,is,decide_eq_true (Nat.le_trans (of_decide_eq_true reached) order)⟩

/-- An iteration executes its waves in turn, all of them unless the signal is aborted. -/
theorem runWaves_places (known : AllAgents controller waves) (agentIndex : Nat) (results : OrderedMap.OMap JsString SingleResult) :
    ∃ ran all after, runWaves around controller iteration agentIndex results waves world = (.ok all, after) ∧
      after.executions.map place = world.executions.map place ++ ran ∧ ran <+: round iteration waves ∧
      (ran = round iteration waves ∨ aborted around after.polls = true) := by
  induction waves generalizing agentIndex results world with
  | nil => exact ⟨[],_,_,rfl,(List.append_nil _).symm,List.nil_prefix,.inl rfl⟩
  | cons wave rest ih =>
    rw [runWaves]
    dsimp only
    split
    next stops => exact ⟨[],_,_,rfl,(List.append_nil _).symm,List.nil_prefix,.inr (aborted_later stops (Nat.le_succ _))⟩
    next goes =>
      have here := known wave List.mem_cons_self
      rw [if_pos ((wave_known controller).mpr here)]
      obtain ⟨ran,all,after,ended,places,part,whole⟩ := @ih ⟨world.polls + 1,world.executions ++ log iteration
        ((runWave around iteration agentIndex wave).filter fun entry => isAgent controller entry.1)⟩
        (fun other mem => known other (List.mem_cons_of_mem _ mem)) (agentIndex + wave.length)
        ((runWave around iteration agentIndex wave).foldl (fun m entry => OrderedMap.put m entry.1 entry.2) results)
      have logged : (log iteration (runWave around iteration agentIndex wave)).map place = wave.map (iteration, ·) := by
        rw [log, List.map_map]
        nth_rewrite 2 [← runWave_names around iteration agentIndex wave]
        rw [List.map_map]
        rfl
      have split' : round iteration (wave :: rest) = wave.map (iteration, ·) ++ round iteration rest := by
        rw [round, List.flatten_cons, List.map_append, round]
      rw [runWave_known around controller here, List.map_append, logged, List.append_assoc] at places
      refine ⟨wave.map (iteration, ·) ++ ran,all,after,ended,places,?_,?_⟩
      · rw [split']
        exact (List.prefix_append_right_inj _).mpr part
      · rw [split']
        exact whole.imp_left (congrArg _)

theorem runIterations_places (known : AllAgents controller controller.waves) (left : Nat) (state : Collected) :
    ∃ ran, (runIterations around controller left iteration state world).2.executions.map place = world.executions.map place ++ ran ∧
      ran <+: schedule iteration left controller.waves ∧ (aborted around world.polls = true → ran = []) := by
  induction left generalizing iteration state world with
  | zero => exact ⟨[],(List.append_nil _).symm,List.nil_prefix,fun _ => rfl⟩
  | succ left ih =>
    rw [runIterations]
    split
    · exact ⟨[],(List.append_nil _).symm,List.nil_prefix,fun _ => rfl⟩
    next goes =>
      obtain ⟨ran,all,after,ended,places,part,whole⟩ := @runWaves_places around controller controller.waves
        { world with polls := world.polls + 1 } iteration known 0 []
      rw [ended]
      obtain ⟨more,later,part',quiet⟩ := @ih after (iteration + 1) (all.foldl (collect iteration) state)
      have split' : schedule iteration (left + 1) controller.waves =
          round iteration controller.waves ++ schedule (iteration + 1) left controller.waves := by
        rw [schedule, List.range'_succ, List.flatMap_cons, schedule]
      refine ⟨ran ++ more,?_,?_,fun seen => absurd seen goes⟩
      · rw [later, places, List.append_assoc]
      · rw [split']
        rcases whole with rfl | seen
        · exact (List.prefix_append_right_inj _).mpr part'
        · rw [quiet seen, List.append_nil]
          exact part.trans (List.prefix_append _ _)

theorem run_planned {names : List JsString} {count : Nat} (known : ∀ name ∈ waves.flatten, name ∈ names) :
    (run around ⟨⟨names,count⟩,waves⟩).2.executions.map place <+: schedule 0 count waves := by
  have all : AllAgents ⟨⟨names,count⟩,waves⟩ waves := fun wave there name mem => known name (List.mem_flatten.mpr ⟨wave,there,mem⟩)
  obtain ⟨ran,places,part,-⟩ := @runIterations_places around _ ⟨0,[]⟩ 0 all count ⟨fun _ => [],[]⟩
  exact places ▸ part

theorem schedule_iteration {first count : Nat} {entry : Nat × JsString} (mem : entry ∈ schedule first count waves) :
    entry.1 ∈ List.range' first count ∧ entry.2 ∈ waves.flatten := by
  obtain ⟨iteration,there,inside⟩ := List.mem_flatMap.mp mem
  obtain ⟨name,at',rfl⟩ := List.mem_map.mp inside
  exact ⟨there,at'⟩

/-- What holds between the agents of the waves in their order holds along the schedule. -/
theorem schedule_pairwise {R : Nat × JsString → Nat × JsString → Prop} (first count : Nat)
    (within : ∀ iteration, waves.flatten.Pairwise fun a b => R (iteration, a) (iteration, b))
    (across : ∀ i j a b, i < j → R (i, a) (j, b)) : (schedule first count waves).Pairwise R := by
  rw [schedule, List.pairwise_flatMap]
  refine ⟨fun iteration _ => List.pairwise_map.mpr (within iteration),?_⟩
  refine (List.pairwise_lt_range' (s := first) (n := count) 1).imp fun {i j} less => ?_
  intro x there y there'
  obtain ⟨a,_,rfl⟩ := List.mem_map.mp there
  obtain ⟨b,_,rfl⟩ := List.mem_map.mp there'
  exact across i j a b less

end

/-- In layers no node stands behind one it leads to. -/
theorem layers_backward {edge : JsString → JsString → Prop} {done : List JsString} {layers : List (List JsString)}
    (layered : Layers edge done layers) (once : (done ++ layers.flatten).Nodup) : layers.flatten.Pairwise fun a b => ¬ edge b a := by
  induction layers generalizing done with
  | nil => exact .nil
  | cons layer rest ih =>
    rw [List.flatten_cons] at once ⊢
    have fresh : ∀ a ∈ layer, ∀ b ∈ layer ++ rest.flatten, ¬ edge b a := fun a mem b behind step =>
      List.disjoint_of_nodup_append once (layered.1 a mem b step) behind
    rw [← List.append_assoc] at once
    refine List.pairwise_append.mpr ⟨?_,ih layered.2 once,fun a mem b behind => fresh a mem b (List.mem_append_right _ behind)⟩
    exact List.pairwise_of_forall_mem_list fun a mem b there => fresh a mem b (List.mem_append_left _ there)

/-- The run of a swarm: whatever the agents return and whenever the signal is aborted, each agent is executed at most once
    in an iteration, no iteration begins before the one before it has ended, and when an agent is executed, all agents it
    waits for have been executed in the same iteration. -/
theorem run_in_order (d : Definition) (around : Surroundings) (waves : List (List JsString))
    (built : buildExecutionWaves (buildDependencyGraph d) = .ok waves) :
    let log := (run around ⟨⟨agentOrder d,d.targetCount⟩,waves⟩).2.executions
    (log.map place).Nodup ∧ log.Pairwise (fun a b => a.iteration ≤ b.iteration) ∧
      ∀ front execution back, log = front ++ execution :: back → ∀ dep, (buildDependencyGraph d).Needs execution.agentName dep →
        ∃ earlier ∈ front, earlier.iteration = execution.iteration ∧ earlier.agentName = dep := by
  obtain ⟨whole,layered,-⟩ := buildWaves_layers (Nat.le_of_eq (List.length_map _)) built
  have agents : ∀ name, name ∈ waves.flatten ↔ name ∈ agentOrder d := fun name => graph_keys (d := d) ▸ whole.mem_iff
  have once : waves.flatten.Nodup := whole.nodup_iff.mpr (buildDependencyGraph d).distinct
  intro log
  have planned : log.map place <+: schedule 0 d.targetCount waves := run_planned fun name => (agents name).mp
  refine ⟨?_,?_,fun front execution back split' dep needs => ?_⟩
  · refine planned.sublist.nodup (schedule_pairwise 0 _ (fun i => once.imp fun apart same => apart (Prod.mk.inj same).2) ?_)
    intro i j a b less same
    exact absurd (Prod.mk.inj same).1 (Nat.ne_of_lt less)
  · have ordered := @schedule_pairwise waves (fun a b => a.1 ≤ b.1) 0 d.targetCount
      (fun i => List.pairwise_of_forall fun _ _ => Nat.le_refl i) fun i j _ _ less => Nat.le_of_lt less
    have sorted := List.Pairwise.sublist planned.sublist ordered
    exact (List.pairwise_map (f := place)).mp sorted
  · obtain ⟨rest,all⟩ := planned
    rw [split', List.map_append, List.map_cons, List.append_assoc, List.cons_append] at all
    have needless := @schedule_pairwise waves (fun a b => ¬ (a.1 = b.1 ∧ (buildDependencyGraph d).Needs a.2 b.2)) 0 d.targetCount
      (fun i => (layers_backward layered once).imp fun free both => free both.2) fun i j _ _ less both => Nat.ne_of_lt less both.1
    have self : place execution ∈ schedule 0 d.targetCount waves := all ▸ List.mem_append_right _ List.mem_cons_self
    obtain ⟨inRange,inWaves⟩ := schedule_iteration self
    have awaited := (agents dep).mpr (edge_known (graph_needs.mp needs)).2
    have there : (execution.iteration, dep) ∈ schedule 0 d.targetCount waves :=
      List.mem_flatMap.mpr ⟨_,inRange,List.mem_map.mpr ⟨dep,awaited,rfl⟩⟩
    rw [← all, List.mem_append, List.mem_cons] at there
    rw [← all] at needless
    rcases there with earlier | same | later
    · obtain ⟨other,mem,is⟩ := List.mem_map.mp earlier
      exact ⟨other,mem,(Prod.mk.inj is).1,(Prod.mk.inj is).2⟩
    · rw [← (Prod.mk.inj same).2] at needs
      have cycle : Relation.TransGen (Function.swap (buildDependencyGraph d).Needs) dep dep := .single needs
      exact absurd cycle (layers_acyclic layered awaited)
    · exact absurd ⟨rfl,needs⟩ (List.rel_of_pairwise_cons (List.pairwise_append.mp needless).2.1 later)

/- The writer reports to the editor, who waits for the critic too. -/
def editors : Definition where
  mode := .pipeline
  targetCount := 2
  agents := [⟨js "editor",[],[js "critic"]⟩, ⟨js "writer",[js "editor"],[]⟩, ⟨js "critic",[],[js "writer", js "nobody"]⟩]
  distinct := by decide +kernel

def allFine : Surroundings := ⟨fun _ _ _ => .returns ⟨0,none⟩,some 5,[]⟩

theorem editors_in_order :
    let log := (run allFine ⟨⟨agentOrder editors,2⟩,[[js "writer"], [js "critic"], [js "editor"]]⟩).2.executions
    (log.map place).Nodup ∧ log.Pairwise (fun a b => a.iteration ≤ b.iteration) ∧
      ∀ front execution back, log = front ++ execution :: back → ∀ dep, (buildDependencyGraph editors).Needs execution.agentName dep →
        ∃ earlier ∈ front, earlier.iteration = execution.iteration ∧ earlier.agentName = dep :=
  run_in_order editors allFine _ (by decide +kernel)

section
variable {d : Definition} {node dep : JsString} (chained : d.mode ≠ .parallel) (nothing : ∀ node dep, ¬ Declared d node dep)
include chained nothing

theorem chain_needs : (buildDependencyGraph d).Needs node dep ↔ Behind d node dep := by
  rw [graph_needs, mem_allEdges]
  exact ⟨fun either => (either.resolve_left (nothing node dep)).2.2,fun behind => .inr ⟨chained,nothing,behind⟩⟩

/- The first name left is ready, and each of the others waits for the one before it. -/
theorem chain_ready {done later : List JsString} {name : JsString} (all : agentOrder d = done ++ name :: later) :
    (name :: later).filter (isReady (buildDependencyGraph d) done) = [name] := by
  have once : (done ++ name :: later).Nodup := all ▸ d.distinct
  have first : isReady (buildDependencyGraph d) done name = true := isReady_iff.mpr fun dep needs => by
    obtain ⟨i,at',next⟩ := (chain_needs chained nothing).mp needs
    rw [all] at at' next
    have here : (done ++ name :: later)[done.length]? = some name := by simp
    have same : i + 1 = done.length := (List.getElem?_inj (List.getElem?_eq_some_iff.mp next).1 once).mp (next.trans here.symm)
    rw [List.getElem?_append_left (by omega)] at at'
    exact List.mem_of_getElem? at'
  rw [List.filter_cons_of_pos first, List.filter_eq_nil_iff.mpr]
  intro other mem ready
  obtain ⟨front,back,rfl⟩ := List.append_of_mem mem
  have before := List.getLast_mem (List.cons_ne_nil name front)
  have needs : (buildDependencyGraph d).Needs other ((name :: front).getLast (List.cons_ne_nil _ _)) :=
    (chain_needs chained nothing).mpr ⟨done.length + front.length,by grind,by grind⟩
  exact List.disjoint_of_nodup_append once (isReady_iff.mp ready _ needs) (by grind)

theorem chain_waves {done left : List JsString} (all : agentOrder d = done ++ left) (fuel : Nat) (enough : left.length ≤ fuel) :
    buildWaves (buildDependencyGraph d) fuel done left = .ok (left.map ([·])) := by
  induction fuel generalizing done left with
  | zero => rw [List.length_eq_zero_iff.mp (Nat.le_zero.mp enough), buildWaves, List.map_nil]
  | succ fuel ih =>
    cases left with
    | nil => rfl
    | cons name later =>
      have fresh : name ∉ later := fun mem =>
        (List.nodup_cons.mp (List.nodup_append.mp (all ▸ d.distinct : (done ++ name :: later).Nodup)).2.1).1 mem
      have others : (name :: later).filter (fun node => !([name].contains node)) = later := by
        rw [List.filter_cons_of_neg (by simp), List.filter_eq_self]
        grind
      rw [buildWaves, chain_ready chained nothing all]
      simp only [List.isEmpty_cons, Bool.false_eq_true, if_false, show sortNames [name] = [name] from rfl, others]
      rw [ih (by rw [all, List.append_assoc]; rfl) (Nat.le_of_succ_le_succ enough)]
      rfl

end

/-- In a pipeline or a sequence in which nothing is declared each agent is a wave, and whatever comes, the agents that are
    executed are the first of the iterations, in the order of the file. -/
theorem sequence_in_order (d : Definition) (around : Surroundings) (chained : d.mode ≠ .parallel)
    (nothing : ∀ node dep, ¬ Declared d node dep) :
    let waves := (agentOrder d).map ([·])
    buildExecutionWaves (buildDependencyGraph d) = .ok waves ∧
      (run around ⟨⟨agentOrder d,d.targetCount⟩,waves⟩).2.executions.map place <+:
        (List.range d.targetCount).flatMap fun iteration => (agentOrder d).map (iteration, ·) := by
  intro waves
  have flat : waves.flatten = agentOrder d := by
    rw [← List.flatMap_def, List.flatMap_singleton']
  refine ⟨?_,?_⟩
  · rw [buildExecutionWaves, graph_keys]
    exact chain_waves chained nothing (List.nil_append _).symm _ (by simp [buildDependencyGraph])
  · rw [List.range_eq_range', ← flat]
    exact run_planned fun name mem => flat ▸ mem

def twoInTurn : Definition where
  mode := .sequential
  targetCount := 2
  agents := [⟨js "writer",[],[]⟩, ⟨js "editor",[],[]⟩]
  distinct := by decide +kernel

theorem two_in_turn :
    let waves := (agentOrder twoInTurn).map ([·])
    buildExecutionWaves (buildDependencyGraph twoInTurn) = .ok waves ∧
      (run allFine ⟨⟨agentOrder twoInTurn,2⟩,waves⟩).2.executions.map place <+:
        (List.range 2).flatMap fun iteration => (agentOrder twoInTurn).map (iteration, ·) :=
  sequence_in_order twoInTurn allFine (by decide) (explicit_none.mp (by decide +kernel))

end SwarmLaunch
