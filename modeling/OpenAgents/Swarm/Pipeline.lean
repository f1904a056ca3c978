import OpenAgents.Lib.JsText
import OpenAgents.Lib.OrderedMap
import Mathlib.Logic.Function.Basic

/- Runs of a swarm: iterations of waves of agents, with the abort signal polled before each. Log and state files
   are written without failure and without effect on the run. -/
namespace SwarmPipeline
open JsText OrderedMap

/- The keys of `agents`; what an agent is told only its outcome depends on. -/
structure SwarmDefinition where
  agents : List JsString
  targetCount : Nat

structure SingleResult where
  exitCode : Int
  error : Option JsString
  deriving DecidableEq, Repr

/- How a call of `executeSwarmAgent` ends. -/
inductive Outcome where
  | returns (result : SingleResult)
  | throws (message : JsString)
  deriving DecidableEq, Repr

inductive Status where
  | completed
  | failed
  | aborted
  deriving DecidableEq, Repr

structure PipelineResult where
  status : Status
  iterations : Nat
  agentResults : JsString → List SingleResult
  errors : List JsString

structure PipelineController where
  definition : SwarmDefinition
  waves : List (List JsString)

/-- A call of `executeSwarmAgent`, with the exit code of its result. -/
structure Execution where
  iteration : Nat
  agentName : JsString
  exitCode : Int
  deriving DecidableEq, Repr

/-- The outside of a run: how often the signal was read, and which agents were executed. -/
structure World where
  polls : Nat
  executions : List Execution

/-- What a run depends on: how each execution ends, by iteration, index and agent; after how many readings the signal
    is aborted, if it ever is; and the text of the `TypeError` of a name without an agent. -/
structure Surroundings where
  outcome : Nat → Nat → JsString → Outcome
  abortAfter : Option Nat
  missingAgent : JsString

section
variable (around : Surroundings) (controller : PipelineController)

def aborted (polls : Nat) : Bool := around.abortAfter.any fun moment => moment ≤ polls

def executeAgent (iteration index : Nat) (agentName : JsString) : SingleResult :=
  match around.outcome iteration index agentName with
  | .returns result => result
  | .throws message => ⟨1,some message⟩

def runWave (iteration : Nat) : Nat → List JsString → List (JsString × SingleResult)
  | _, [] => []
  | index, agentName :: rest => (agentName, executeAgent around iteration index agentName) :: runWave iteration (index + 1) rest

def isAgent (agentName : JsString) : Bool := controller.definition.agents.contains agentName

def log (iteration : Nat) (waveResults : List (JsString × SingleResult)) : List Execution :=
  waveResults.map fun entry => ⟨iteration,entry.1,entry.2.exitCode⟩

/- A name without an agent lets the whole wave fail; the agents beside it have been started. -/
def runWaves (iteration : Nat) : Nat → OMap JsString SingleResult → List (List JsString) → World →
    Except JsString (OMap JsString SingleResult) × World
  | _, results, [], world => (.ok results, world)
  | agentIndex, results, wave :: rest, world =>
      let polled := { world with polls := world.polls + 1 }
      if aborted around world.polls then (.ok results, polled)
      else
        let waveResults := runWave around iteration agentIndex wave
        let started := waveResults.filter fun entry => isAgent controller entry.1
        let executed := { polled with executions := polled.executions ++ log iteration started }
        if wave.all (isAgent controller) then
          runWaves iteration (agentIndex + wave.length) (waveResults.foldl (fun m entry => put m entry.1 entry.2) results) rest executed
        else (.error around.missingAgent, executed)

def numberText (n : Int) : JsString := if n < 0 then js "-" ++ decimal n.natAbs else decimal n.natAbs

/- An empty error counts as none. -/
def errorText (iteration : Nat) (agentName : JsString) (result : SingleResult) : JsString :=
  let reason := result.error.getD []
  agentName ++ js " (iteration " ++ decimal (iteration + 1) ++ js "): " ++
    if reason.isEmpty then js "exit code " ++ numberText result.exitCode else reason

structure Collected where
  allResults : JsString → List SingleResult
  errors : List JsString

def collect (iteration : Nat) (state : Collected) (entry : JsString × SingleResult) : Collected :=
  { allResults := Function.update state.allResults entry.1 (state.allResults entry.1 ++ [entry.2])
    errors := if entry.2.exitCode ≠ 0 then state.errors ++ [errorText iteration entry.1 entry.2] else state.errors }

/- The iterations that are left, from one on. -/
def runIterations : Nat → Nat → Collected → World → PipelineResult × World
  | 0, _, state, world =>
      (⟨if state.errors.length > 0 then .failed else .completed,controller.definition.targetCount,state.allResults,state.errors⟩, world)
  | left + 1, iteration, state, world =>
      let polled := { world with polls := world.polls + 1 }
      if aborted around world.polls then (⟨.aborted,iteration,state.allResults,state.errors⟩, polled)
      else
        match runWaves around controller iteration 0 [] controller.waves polled with
        | (.error error, after) => (⟨.failed,0,state.allResults,state.errors ++ [error]⟩, after)
        | (.ok results, after) => runIterations left (iteration + 1) (results.foldl (collect iteration) state) after

def run : PipelineResult × World :=
  runIterations around controller controller.definition.targetCount 0 ⟨fun _ => [],[]⟩ ⟨0,[]⟩

/-- One of the first readings of the signal finds it aborted. -/
def AbortSeen (polls : Nat) : Prop := ∃ moment, around.abortAfter = some moment ∧ moment < polls

/-- An agent was executed with exit code 0 in an iteration. -/
def Succeeded (world : World) (iteration : Nat) (agentName : JsString) : Prop :=
  (⟨iteration,agentName,0⟩ : Execution) ∈ world.executions

/-- The status of a run says no more than what happened. -/
structure Truthful (result : PipelineResult) (world : World) : Prop where
  completed : result.status = .completed → ∀ agentName ∈ controller.definition.agents,
    (∀ iteration < controller.definition.targetCount, Succeeded world iteration agentName) ∧
      (result.agentResults agentName).length = controller.definition.targetCount
  cutShort : AbortSeen around world.polls → result.status = .aborted

/- The waves before which the signal is read in an iteration that is not aborted: all up to the first with a name
   without an agent. -/
def reached : List (List JsString) → Nat
  | [] => 0
  | wave :: rest => if wave.all (isAgent controller) then reached rest + 1 else 1

/-- The signal is aborted between the start of the last iteration and the last time it is read there. -/
def AbortsLate : Prop :=
  ∃ moment, around.abortAfter = some moment ∧ 0 < controller.definition.targetCount ∧
    (controller.definition.targetCount = 1 ∨ ∀ wave ∈ controller.waves, ∀ agentName ∈ wave, agentName ∈ controller.definition.agents) ∧
    (controller.definition.targetCount - 1) * (controller.waves.length + 1) < moment ∧
    moment ≤ (controller.definition.targetCount - 1) * (controller.waves.length + 1) + reached controller controller.waves

/-- Every agent is in a wave. -/
def Covers : Prop := ∀ agentName ∈ controller.definition.agents, ∃ wave ∈ controller.waves, agentName ∈ wave

/-- The results of an iteration are those of its executions, one for each agent executed. -/
structure Recorded (iteration : Nat) (results : OMap JsString SingleResult) (world : World) : Prop where
  distinct : (results.map Prod.fst).Nodup
  executed : ∀ entry ∈ results, (⟨iteration,entry.1,entry.2.exitCode⟩ : Execution) ∈ world.executions

theorem put_all (entries : List (JsString × SingleResult)) {results : List (JsString × SingleResult)} (distinct : (results.map Prod.fst).Nodup) :
    ((entries.foldl (fun m entry => put m entry.1 entry.2) results).map Prod.fst).Nodup ∧
      (∀ entry ∈ entries.foldl (fun m entry => put m entry.1 entry.2) results, entry ∈ results ∨ entry ∈ entries) ∧
      ∀ name, name ∈ (entries.foldl (fun m entry => put m entry.1 entry.2) results).map Prod.fst ↔
        name ∈ results.map Prod.fst ∨ name ∈ entries.map Prod.fst := by
  induction entries generalizing results with
  | nil => exact ⟨distinct,fun entry mem => .inl mem,fun name => by simp⟩
  | cons first rest ih =>
    obtain ⟨nodup,from',keys⟩ := ih (put_distinct distinct first.1 first.2)
    rw [List.foldl_cons]
    refine ⟨nodup,fun entry mem => ?_,fun name => ?_⟩
    · rcases from' entry mem with put' | later
      · rcases mem_put put' with rfl | old
        · exact .inr List.mem_cons_self
        · exact .inl old
      · exact .inr (List.mem_cons_of_mem _ later)
    · rw [keys, mem_put_keys, List.map_cons, List.mem_cons]
      tauto

theorem runWave_names (iteration index : Nat) (wave : List JsString) : (runWave around iteration index wave).map Prod.fst = wave := by
  induction wave generalizing index with
  | nil => rfl
  | cons name rest ih => rw [runWave, List.map_cons, ih]

theorem aborted_iff (polls : Nat) : aborted around polls = true ↔ AbortSeen around (polls + 1) := by
  simp only [aborted, AbortSeen, Option.any_eq_true, decide_eq_true_eq, Nat.lt_succ_iff]

theorem unseen_next {polls : Nat} (goes : ¬ aborted around polls = true) : ¬ AbortSeen around (polls + 1) := by
  rwa [← aborted_iff]

def AllAgents (waves : List (List JsString)) : Prop := ∀ wave ∈ waves, ∀ agentName ∈ wave, agentName ∈ controller.definition.agents

/-- How the waves of an iteration end: with a name without an agent, at an aborted signal, or all run. -/
inductive WavesEnd (iteration : Nat) (results : OMap JsString SingleResult) (waves : List (List JsString)) (world : World) :
    Except JsString (OMap JsString SingleResult) → World → Prop
  | throws {error : JsString} {after : World} (unseen : ¬ AbortSeen around after.polls) (stranger : ¬ AllAgents controller waves)
      (reaches : after.polls = world.polls + reached controller waves) : WavesEnd iteration results waves world (.error error) after
  | breaks {some' : OMap JsString SingleResult} {after : World} (seen : AbortSeen around after.polls)
      (within : after.polls ≤ world.polls + reached controller waves) : WavesEnd iteration results waves world (.ok some') after
  | runs {all : OMap JsString SingleResult} {after : World} (unseen : ¬ AbortSeen around after.polls) (known : AllAgents controller waves)
      (polls : after.polls = world.polls + waves.length) (recorded : Recorded iteration all after)
      (keeps : world.executions ⊆ after.executions)
      (names : ∀ name, name ∈ all.map Prod.fst ↔ name ∈ results.map Prod.fst ∨ ∃ wave ∈ waves, name ∈ wave) :
      WavesEnd iteration results waves world (.ok all) after

variable {wave : List JsString} {results : OMap JsString SingleResult} {world : World} {iteration left : Nat}
  {state : Collected}

theorem wave_known : wave.all (isAgent controller) = true ↔ ∀ agentName ∈ wave, agentName ∈ controller.definition.agents := by
  simp [isAgent]

theorem runWave_known {index : Nat} (known : ∀ agentName ∈ wave, agentName ∈ controller.definition.agents) :
    (runWave around iteration index wave).filter (fun entry => isAgent controller entry.1) = runWave around iteration index wave := by
  refine List.filter_eq_self.mpr fun entry mem => ?_
  have there : entry.1 ∈ wave := by
    rw [← runWave_names around iteration index wave]
    exact List.mem_map_of_mem mem
  simpa [isAgent] using known entry.1 there

theorem reached_le (waves : List (List JsString)) : reached controller waves ≤ waves.length ∧
    (AllAgents controller waves → reached controller waves = waves.length) := by
  induction waves with
  | nil => exact ⟨Nat.le_refl _,fun _ => rfl⟩
  | cons wave rest ih =>
    rw [reached, List.length_cons]
    split
    · exact ⟨by omega,fun known => by rw [ih.2 fun other mem => known other (List.mem_cons_of_mem _ mem)]⟩
    next stranger => exact ⟨by omega,fun known => absurd ((wave_known controller).mpr (known wave List.mem_cons_self)) stranger⟩

theorem reached_pos (wave : List JsString) (rest : List (List JsString)) : 1 ≤ reached controller (wave :: rest) := by
  rw [reached]
  split <;> omega

theorem recorded_wave {iteration index : Nat} (recorded : Recorded iteration results world) :
    Recorded iteration ((runWave around iteration index wave).foldl (fun m entry => put m entry.1 entry.2) results)
      ⟨world.polls + 1,world.executions ++ log iteration (runWave around iteration index wave)⟩ := by
  obtain ⟨nodup,from',-⟩ := put_all (runWave around iteration index wave) recorded.distinct
  refine ⟨nodup,fun entry mem => ?_⟩
  rcases from' entry mem with old | new
  · exact List.mem_append_left _ (recorded.executed entry old)
  · exact List.mem_append_right _ (List.mem_map.mpr ⟨entry,new,rfl⟩)

theorem runWaves_ends (iteration agentIndex : Nat) (results : OMap JsString SingleResult) (waves : List (List JsString)) (world : World)
    (unseen : ¬ AbortSeen around world.polls) (recorded : Recorded iteration results world) :
    WavesEnd around controller iteration results waves world (runWaves around controller iteration agentIndex results waves world).1
      (runWaves around controller iteration agentIndex results waves world).2 := by
  induction waves generalizing agentIndex results world with
  | nil => exact .runs unseen (fun _ mem => absurd mem List.not_mem_nil) rfl recorded (fun _ mem => mem) fun name => by simp
  | cons wave rest ih =>
    rw [runWaves]
    simp only
    split
    next stops =>
      have least := reached_pos controller wave rest
      exact .breaks ((aborted_iff around _).mp stops) (by simp only; omega)
    next goes =>
      have still := unseen_next around goes
      split
      next known =>
        have all := (wave_known controller).mp known
        rw [runWave_known around controller all]
        have reach : reached controller (wave :: rest) = reached controller rest + 1 := by rw [reached, if_pos known]
        have later := ih (agentIndex + wave.length) ((runWave around iteration agentIndex wave).foldl _ results)
          ⟨world.polls + 1,world.executions ++ log iteration (runWave around iteration agentIndex wave)⟩ still
          (recorded_wave around recorded)
        generalize (runWaves around controller iteration (agentIndex + wave.length) _ rest _) = ends at later ⊢
        obtain ⟨answer,after⟩ := ends
        cases later with
        | throws unseen' stranger reaches =>
          refine .throws unseen' (fun known' => stranger fun other mem => known' other (List.mem_cons_of_mem _ mem)) ?_
          show after.polls = world.polls + reached controller (wave :: rest)
          rw [reach]
          simp only at reaches
          omega
        | breaks seen within =>
          refine .breaks seen ?_
          show after.polls ≤ world.polls + reached controller (wave :: rest)
          rw [reach]
          simp only at within
          omega
        | runs unseen' known' polls recorded' keeps names =>
          refine .runs unseen' ?_ ?_ recorded' ?_ fun name => ?_
          · intro other mem
            rcases List.mem_cons.mp mem with rfl | behind
            · exact all
            · exact known' other behind
          · rw [polls, List.length_cons]
            simp only
            omega
          · exact fun execution mem => keeps (List.mem_append_left _ mem)
          · rw [names, (put_all _ recorded.distinct).2.2, runWave_names, List.exists_mem_cons_iff, or_assoc]
      next stranger =>
        refine .throws still (fun known => stranger ((wave_known controller).mpr (known wave List.mem_cons_self))) ?_
        rw [reached, if_neg stranger]

/-- Collecting the results of an iteration adds one result for each agent that has one. -/
theorem collect_lengths (state : Collected) (distinct : (results.map Prod.fst).Nodup) (name : JsString) :
    ((results.foldl (collect iteration) state).allResults name).length =
      (state.allResults name).length + if name ∈ results.map Prod.fst then 1 else 0 := by
  induction results generalizing state with
  | nil => rfl
  | cons entry rest ih =>
    rw [List.map_cons, List.nodup_cons] at distinct
    rw [List.foldl_cons, ih _ distinct.2]
    by_cases same : name = entry.1
    · subst same
      simp [collect, distinct.1]
    · have keys : name ∈ (entry :: rest).map Prod.fst ↔ name ∈ rest.map Prod.fst := by
        rw [List.map_cons, List.mem_cons, or_iff_right same]
      simp only [collect, Function.update_of_ne same, keys]

/-- No error is collected only if every exit code is 0. -/
theorem collect_errors (state : Collected) (none_left : (results.foldl (collect iteration) state).errors = []) :
    state.errors = [] ∧ ∀ entry ∈ results, entry.2.exitCode = 0 := by
  induction results generalizing state with
  | nil => exact ⟨none_left,fun entry mem => absurd mem List.not_mem_nil⟩
  | cons entry rest ih =>
    rw [List.foldl_cons] at none_left
    obtain ⟨before,later⟩ := ih _ none_left
    simp only [collect] at before
    split at before
    next bad => simp at before
    next good =>
      refine ⟨before,fun other mem => ?_⟩
      rcases List.mem_cons.mp mem with rfl | behind
      · exact not_not.mp good
      · exact later other behind

/-- What is collected after some iterations that ran in full. -/
structure Done (iteration : Nat) (state : Collected) (world : World) : Prop where
  lengths : ∀ agentName ∈ controller.definition.agents, (state.allResults agentName).length = iteration
  succeeded : state.errors = [] → ∀ agentName ∈ controller.definition.agents, ∀ earlier < iteration, Succeeded world earlier agentName

theorem done_next {world after : World} {all : OMap JsString SingleResult} (covers : Covers controller)
    (before : Done controller iteration state world) (recorded : Recorded iteration all after)
    (keeps : world.executions ⊆ after.executions)
    (names : ∀ name, name ∈ all.map Prod.fst ↔ ∃ wave ∈ controller.waves, name ∈ wave) :
    Done controller (iteration + 1) (all.foldl (collect iteration) state) after := by
  refine ⟨fun agentName agent => ?_,fun clean agentName agent earlier lt => ?_⟩
  · rw [collect_lengths state recorded.distinct, before.lengths agentName agent, if_pos ((names agentName).mpr (covers agentName agent))]
  · obtain ⟨cleanBefore,zero⟩ := collect_errors state clean
    rcases Nat.lt_succ_iff_lt_or_eq.mp lt with old | rfl
    · exact keeps (before.succeeded cleanBefore agentName agent earlier old)
    · obtain ⟨entry,mem,rfl⟩ := List.mem_map.mp ((names agentName).mpr (covers agentName agent))
      have ran := recorded.executed entry mem
      rwa [zero entry mem] at ran

/-- With so many iterations left, the signal is aborted between the start of the last one and its last reading there. -/
def CutsLast (left polls : Nat) : Prop :=
  ∃ moment, around.abortAfter = some moment ∧ 0 < left ∧ (left = 1 ∨ AllAgents controller controller.waves) ∧
    polls + (left - 1) * (controller.waves.length + 1) < moment ∧
    moment ≤ polls + (left - 1) * (controller.waves.length + 1) + reached controller controller.waves

theorem aborted_start (stops : aborted around world.polls = true) :
    (runIterations around controller (left + 1) iteration state world).1.status = .aborted := by
  rw [runIterations]
  simp only [stops, if_true]

theorem truthful_aborted {result : PipelineResult} (stopped : result.status = .aborted) : Truthful around controller result world := by
  refine ⟨fun completed => ?_,fun _ => stopped⟩
  rw [stopped] at completed
  cases completed

/-- From the start of any iteration, what the run reports is truthful exactly if the last iteration is not cut. -/
theorem runIterations_truthful (covers : Covers controller) (total : left + iteration = controller.definition.targetCount)
    (unseen : ¬ AbortSeen around world.polls) (before : Done controller iteration state world) :
    Truthful around controller (runIterations around controller left iteration state world).1
      (runIterations around controller left iteration state world).2 ↔ ¬ CutsLast around controller left world.polls := by
  induction left generalizing iteration state world with
  | zero =>
    rw [Nat.zero_add] at total
    subst total
    refine iff_of_true ⟨fun completed agentName agent => ?_,fun seen => absurd seen unseen⟩ fun cuts => ?_
    · rw [runIterations] at completed ⊢
      simp only at completed
      split at completed
      · cases completed
      next clean =>
        refine ⟨before.succeeded (List.length_eq_zero_iff.mp (by omega)) agentName agent,before.lengths agentName agent⟩
    · obtain ⟨moment,at',positive,rest⟩ := cuts
      exact absurd positive (Nat.lt_irrefl 0)
  | succ left ih =>
    have short := (reached_le controller controller.waves).1
    by_cases stops : aborted around world.polls = true
    · refine iff_of_true (truthful_aborted around controller (aborted_start around controller stops)) fun cuts => ?_
      obtain ⟨moment,at',positive,known,late,early⟩ := cuts
      obtain ⟨moment',at'',seen⟩ := (aborted_iff around _).mp stops
      obtain rfl : moment = moment' := Option.some.inj (at'.symm.trans at'')
      have := Nat.zero_le ((left + 1 - 1) * (controller.waves.length + 1))
      omega
    · have still := unseen_next around stops
      have ends := runWaves_ends around controller iteration 0 [] controller.waves { world with polls := world.polls + 1 } still
        ⟨List.nodup_nil,fun _ mem => absurd mem List.not_mem_nil⟩
      rw [runIterations]
      simp only [stops, Bool.false_eq_true, if_false]
      generalize runWaves around controller iteration 0 [] controller.waves _ = answered at ends ⊢
      obtain ⟨answer,after⟩ := answered
      cases ends with
      | throws unseen' stranger reaches =>
        refine iff_of_true ⟨fun completed => (nomatch completed),fun seen => absurd seen unseen'⟩ fun cuts => ?_
        obtain ⟨moment,at',positive,known,late,early⟩ := cuts
        obtain rfl : left = 0 := (known.resolve_right stranger) |> Nat.succ.inj
        refine unseen' ⟨moment,at',?_⟩
        simp only at reaches ⊢
        omega
      | breaks seen within =>
        obtain ⟨moment,at',cut⟩ := seen
        have late : world.polls < moment := by
          by_contra early
          exact still ⟨moment,at',by omega⟩
        simp only at within cut
        cases left with
        | zero =>
          refine iff_of_false (fun truthful => ?_) (not_not.mpr ⟨moment,at',Nat.one_pos,.inl rfl,by omega,by omega⟩)
          have said := truthful.cutShort ⟨moment,at',cut⟩
          simp only [runIterations] at said
          split at said <;> cases said
        | succ left =>
          have stopped : aborted around after.polls = true := (aborted_iff around _).mpr ⟨moment,at',by omega⟩
          refine iff_of_true (truthful_aborted around controller (aborted_start around controller stopped)) fun cuts => ?_
          obtain ⟨moment',at'',positive,known,later,early⟩ := cuts
          obtain rfl : moment = moment' := Option.some.inj (at'.symm.trans at'')
          have further : controller.waves.length + 1 ≤ (left + 1 + 1 - 1) * (controller.waves.length + 1) :=
            Nat.le_mul_of_pos_left _ (by omega)
          omega
      | runs unseen' known polls recorded keeps names =>
        have next' := done_next controller covers before recorded keeps fun name => by rw [names]; simp
        simp only at polls
        rw [ih (by omega) unseen' next', not_iff_not]
        cases left with
        | zero =>
          refine iff_of_false (fun cuts => ?_) fun cuts => ?_
          · obtain ⟨moment,at',positive,rest⟩ := cuts
            exact absurd positive (Nat.lt_irrefl 0)
          · obtain ⟨moment,at',positive,_,late,early⟩ := cuts
            exact unseen' ⟨moment,at',by simp only; omega⟩
        | succ left =>
          have further : (left + 1 + 1 - 1) * (controller.waves.length + 1) =
              (left + 1 - 1) * (controller.waves.length + 1) + (controller.waves.length + 1) := Nat.succ_mul _ _
          simp only [CutsLast, polls, further]
          refine exists_congr fun moment => and_congr_right fun _ => ?_
          constructor
          · rintro ⟨-,-,late,early⟩
            exact ⟨by omega,.inr known,by omega,by omega⟩
          · rintro ⟨-,-,late,early⟩
            exact ⟨by omega,.inr known,by omega,by omega⟩

/-- The status of a run is truthful exactly if the signal is not aborted between the start of the last iteration and its
    last reading there: such an abort ends the waves, and the status is that of a run that was not cut. -/
theorem run_truthful_iff (covers : Covers controller) :
    Truthful around controller (run around controller).1 (run around controller).2 ↔ ¬ AbortsLate around controller := by
  have start : ¬ AbortSeen around 0 := fun ⟨moment,_,lt⟩ => absurd lt (Nat.not_lt_zero _)
  have none_yet : Done controller 0 ⟨fun _ => [],[]⟩ ⟨0,[]⟩ :=
    ⟨fun _ _ => rfl,fun _ _ _ earlier lt => absurd lt (Nat.not_lt_zero earlier)⟩
  have whole := runIterations_truthful around controller covers (Nat.add_zero _) start none_yet
  simp only [CutsLast, Nat.zero_add] at whole
  exact whole

end

/-- Two agents, one after the other, in one iteration. -/
def buildThenTest : PipelineController := ⟨⟨[js "build", js "test"],1⟩,[[js "build"], [js "test"]]⟩

/-- Every execution succeeds; the signal is aborted after a number of readings. -/
def abortedAfter (readings : Nat) : Surroundings := ⟨fun _ _ _ => .returns ⟨0,none⟩,some readings,js "undefined is not an object"⟩

theorem buildThenTest_covers : Covers buildThenTest := by
  intro agentName agent
  simp only [buildThenTest, List.mem_cons, List.not_mem_nil, or_false] at agent ⊢
  rcases agent with rfl | rfl
  · exact ⟨_,.inl rfl,List.mem_singleton.mpr rfl⟩
  · exact ⟨_,.inr rfl,List.mem_singleton.mpr rfl⟩

/-- An abort before the first reading is reported. -/
theorem aborted_at_once : Truthful (abortedAfter 0) buildThenTest (run (abortedAfter 0) buildThenTest).1 (run (abortedAfter 0) buildThenTest).2 :=
  (run_truthful_iff (abortedAfter 0) buildThenTest buildThenTest_covers).mpr fun ⟨moment,at',_,_,late,_⟩ => by
    obtain rfl : 0 = moment := Option.some.inj at'
    exact absurd late (Nat.not_lt_zero _)

/-- Aborted while the first agent runs, the run is reported completed, without a result of the second. -/
theorem completed_untested :
    Covers buildThenTest ∧ (run (abortedAfter 2) buildThenTest).1.status = .completed ∧
      (run (abortedAfter 2) buildThenTest).1.agentResults (js "test") = [] ∧
      ¬ Truthful (abortedAfter 2) buildThenTest (run (abortedAfter 2) buildThenTest).1 (run (abortedAfter 2) buildThenTest).2 := by
  have reported : (run (abortedAfter 2) buildThenTest).1.status = .completed := by decide +kernel
  refine ⟨buildThenTest_covers,reported,by decide +kernel,fun truthful => ?_⟩
  have cut := truthful.cutShort ⟨2,rfl,by decide +kernel⟩
  rw [reported] at cut
  cases cut

end SwarmPipeline
