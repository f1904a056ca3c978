import OpenAgents.Lib.Runs
import OpenAgents.Scheduler.PendingClosures

/- Ticks, answers and cancellations on one table, in any order. A tick owns the rows it claimed
   until it finalizes or requeues them; what breaks its ownership is an answer that reschedules
   a row in between. -/
namespace ClosureRuns
open PendingClosures CheckedRuns
variable {Text : Type} [LinearOrder Text]

/-- A row that a tick has claimed and not given back; `overtaken` when it was rescheduled since. -/
structure Holding (Text : Type) where
  tick : Nat
  issueKey : Text
  overtaken : Bool
  deriving DecidableEq

structure World (Text : Type) where
  table : List (Row Text)
  held : List (Holding Text)
  nextTick : Nat

inductive Call (Text : Type) where
  | upsert (schedule : Schedule Text) (stamp : Text)
  | claim (now : Text) (limit : Int)
  | finalize (tick : Nat) (issueKey : Text) (state : ClosureState) (reason : Option Text) (stamp : Text)
  | requeue (tick : Nat) (issueKey stamp : Text)
  | cancel (issueKey reason stamp : Text)

def start : World Text := ⟨[],[],0⟩

def overtake (issueKey : Text) (held : List (Holding Text)) : List (Holding Text) :=
  held.map fun holding => if holding.issueKey = issueKey then { holding with overtaken := true } else holding

def release (tick : Nat) (issueKey : Text) (held : List (Holding Text)) : List (Holding Text) :=
  held.filter fun holding => ¬ (holding.tick = tick ∧ holding.issueKey = issueKey)

def step (lower : Text → Text) (w : World Text) : Call Text → World Text
  | .upsert schedule stamp =>
      { w with table := upsertPendingClosure lower w.table schedule stamp, held := overtake schedule.issueKey w.held }
  | .claim now limit =>
      { table := (claimDueClosures w.table now limit).2
        held := w.held ++ (dueKeys w.table now limit).map fun key => ⟨w.nextTick,key,false⟩
        nextTick := w.nextTick + 1 }
  | .finalize tick issueKey state reason stamp =>
      match finalizeClosure w.table issueKey state reason stamp with
      | .ok table => { w with table := table, held := release tick issueKey w.held }
      | .error _ => w
  | .requeue tick issueKey stamp =>
      { w with table := (requeueClaimedClosure w.table issueKey stamp).2, held := release tick issueKey w.held }
  | .cancel issueKey reason stamp => { w with table := (cancelPendingClosure w.table issueKey reason stamp).2 }

def Holds (w : World Text) (tick : Nat) (issueKey : Text) : Prop :=
  ∃ holding ∈ w.held, holding.tick = tick ∧ holding.issueKey = issueKey

instance (w : World Text) (tick : Nat) (issueKey : Text) : Decidable (Holds w tick issueKey) :=
  inferInstanceAs (Decidable (∃ holding ∈ w.held, _))

/- A row is finalized or requeued by the tick that claimed it, and only once. -/
def Allowed (w : World Text) : Call Text → Prop
  | .finalize tick issueKey _ _ _ => Holds w tick issueKey
  | .requeue tick issueKey _ => Holds w tick issueKey
  | _ => True

instance (w : World Text) : (call : Call Text) → Decidable (Allowed w call)
  | .finalize tick issueKey _ _ _ => inferInstanceAs (Decidable (Holds w tick issueKey))
  | .requeue tick issueKey _ => inferInstanceAs (Decidable (Holds w tick issueKey))
  | .upsert _ _ => inferInstanceAs (Decidable True)
  | .claim _ _ => inferInstanceAs (Decidable True)
  | .cancel _ _ _ => inferInstanceAs (Decidable True)

/- No row is claimed while another tick owns it. -/
def OneOwner (w : World Text) : Call Text → Prop
  | .claim now limit => ∀ key ∈ dueKeys w.table now limit, ∀ holding ∈ w.held, holding.issueKey ≠ key
  | _ => True

/- A row that is finalized was claimed. -/
def FromClaimed (w : World Text) : Call Text → Prop
  | .finalize _ issueKey state _ _ =>
      isTerminal state = true → ∀ row ∈ w.table, row.issueKey = issueKey → row.state = .claimed
  | _ => True

/- Finalizing an earlier claim leaves a later schedule pending. -/
def KeepsSchedule (lower : Text → Text) (w : World Text) : Call Text → Prop
  | .finalize tick issueKey state reason stamp =>
      ∀ holding ∈ w.held, holding.tick = tick → holding.issueKey = issueKey → holding.overtaken = true →
        ∀ row ∈ w.table, row.issueKey = issueKey → row.state = .pending →
          row ∈ (step lower w (.finalize tick issueKey state reason stamp)).table
  | _ => True

def Sound (lower : Text → Text) (w : World Text) (call : Call Text) : Prop :=
  OneOwner w call ∧ FromClaimed w call ∧ KeepsSchedule lower w call

/-- A tick does not finalize a row that was rescheduled after it claimed it, and until it has
    requeued the row no other tick claims the new schedule. -/
def Undisturbed (w : World Text) : Call Text → Prop
  | .claim now limit =>
      ∀ key ∈ dueKeys w.table now limit, ∀ holding ∈ w.held, holding.issueKey = key → holding.overtaken = false
  | .finalize tick issueKey state _ _ =>
      isTerminal state = true →
        ∀ holding ∈ w.held, holding.tick = tick → holding.issueKey = issueKey → holding.overtaken = false
  | _ => True

instance (w : World Text) : (call : Call Text) → Decidable (Undisturbed w call)
  | .claim now limit => inferInstanceAs (Decidable (∀ key ∈ dueKeys w.table now limit, _))
  | .finalize tick issueKey state _ _ =>
      inferInstanceAs (Decidable (isTerminal state = true →
        ∀ holding ∈ w.held, holding.tick = tick → holding.issueKey = issueKey → holding.overtaken = false))
  | .upsert _ _ => inferInstanceAs (Decidable True)
  | .requeue _ _ _ => inferInstanceAs (Decidable True)
  | .cancel _ _ _ => inferInstanceAs (Decidable True)

/-- Each row has at most one owner, and is claimed while its owner is not overtaken. -/
structure Inv (w : World Text) : Prop where
  distinct : (w.table.map Row.issueKey).Nodup
  owners : (w.held.map Holding.issueKey).Nodup
  known : ∀ holding ∈ w.held, ∃ row ∈ w.table, row.issueKey = holding.issueKey
  claimed : ∀ holding ∈ w.held, ∀ row ∈ w.table, row.issueKey = holding.issueKey →
    (row.state = .claimed ↔ holding.overtaken = false)

omit [LinearOrder Text] in
theorem inv_start : Inv (start : World Text) where
  distinct := List.nodup_nil
  owners := List.nodup_nil
  known := by simp [start]
  claimed := by simp [start]

theorem keys_overtake (issueKey : Text) (held : List (Holding Text)) :
    (overtake issueKey held).map Holding.issueKey = held.map Holding.issueKey := by
  rw [overtake, List.map_map]
  apply List.map_congr_left
  intro holding _
  dsimp only [Function.comp_apply]
  split <;> rfl

section step
variable {lower : Text → Text} {w : World Text} (inv : Inv w)
include inv

/-- A step that only changes rows it finds. -/
theorem inv_update {hit : Row Text → Bool} {change : Row Text → Row Text} {held : List (Holding Text)} {next : Nat}
    (same : ∀ row, (change row).issueKey = row.issueKey) (sub : held.Sublist w.held)
    (kept : ∀ holding ∈ held, ∀ row ∈ w.table, row.issueKey = holding.issueKey → hit row = true →
      ((change row).state = .claimed ↔ holding.overtaken = false)) :
    Inv ⟨updateWhere w.table hit change,held,next⟩ where
  distinct := by
    dsimp only
    rw [keys_update _ _ same]
    exact inv.distinct
  owners := inv.owners.sublist (sub.map Holding.issueKey)
  known := by
    intro holding mem
    obtain ⟨row,inside,key⟩ := inv.known holding (sub.subset mem)
    refine ⟨_,mem_update.mpr ⟨row,inside,rfl⟩,?_⟩
    split
    · rw [same]
      exact key
    · exact key
  claimed := by
    intro holding mem row inside key
    obtain ⟨old,there,is⟩ := mem_update.mp inside
    split at is
    · rename_i found
      rw [is, same] at key
      rw [is]
      exact kept holding mem old there key found
    · rw [is] at key ⊢
      exact inv.claimed holding (sub.subset mem) old there key

theorem inv_upsert (schedule : Schedule Text) (stamp : Text) : Inv (step lower w (.upsert schedule stamp)) := by
  have owners : ((overtake schedule.issueKey w.held).map Holding.issueKey).Nodup := by
    rw [keys_overtake]
    exact inv.owners
  have old : ∀ holding ∈ overtake schedule.issueKey w.held, ∃ before ∈ w.held, before.issueKey = holding.issueKey ∧
      (holding.issueKey = schedule.issueKey → holding.overtaken = true) ∧
      (holding.issueKey ≠ schedule.issueKey → holding = before) := by
    intro holding mem
    obtain ⟨before,inside,is⟩ := List.mem_map.mp mem
    split at is
    · rename_i here
      exact ⟨before,inside,by rw [← is],fun _ => by rw [← is],fun other => absurd (by rw [← is]; exact here) other⟩
    · rename_i other
      rw [← is]
      exact ⟨before,inside,rfl,fun here => absurd here other,fun _ => rfl⟩
  rw [step, upsertPendingClosure]
  split
  · constructor
    · dsimp only
      rw [keys_update]
      · exact inv.distinct
      · exact fun row => rfl
    · exact owners
    · intro holding mem
      obtain ⟨before,inside,key,_⟩ := old holding mem
      obtain ⟨row,there,same⟩ := inv.known before inside
      refine ⟨_,mem_update.mpr ⟨row,there,rfl⟩,?_⟩
      split <;> exact same.trans key
    · intro holding mem row inside key
      obtain ⟨before,there,same,overtaken,kept⟩ := old holding mem
      obtain ⟨earlier,known,is⟩ := mem_update.mp inside
      by_cases here : earlier.issueKey = schedule.issueKey
      · rw [if_pos (by simpa using here)] at is
        have name : holding.issueKey = schedule.issueKey := by
          rw [← key, is]
          exact here
        rw [is, overtaken name]
        simp
      · rw [if_neg (by simpa using here)] at is
        rw [is] at key ⊢
        rw [kept (by rw [← key]; exact here)]
        exact inv.claimed before there earlier known (key.trans same.symm)
  · rename_i unknown
    have fresh : ∀ row ∈ w.table, row.issueKey ≠ schedule.issueKey := by
      intro row mem same
      exact unknown (List.any_eq_true.mpr ⟨row,mem,by simpa using same⟩)
    constructor
    · dsimp only
      rw [List.map_append, List.nodup_append]
      refine ⟨inv.distinct,List.nodup_singleton _,?_⟩
      intro a first b second same
      obtain ⟨row,mem,is⟩ := List.mem_map.mp first
      rw [List.map_singleton, List.mem_singleton] at second
      exact fresh row mem (by rw [is, same, second])
    · exact owners
    · intro holding mem
      obtain ⟨before,inside,key,_⟩ := old holding mem
      obtain ⟨row,there,same⟩ := inv.known before inside
      exact ⟨row,List.mem_append_left _ there,same.trans key⟩
    · intro holding mem row inside key
      obtain ⟨before,there,same,_,kept⟩ := old holding mem
      obtain ⟨earlier,known,first⟩ := inv.known before there
      have other : holding.issueKey ≠ schedule.issueKey := by
        rw [← same, ← first]
        exact fresh earlier known
      rcases List.mem_append.mp inside with table | new
      · rw [kept other]
        exact inv.claimed before there row table (key.trans same.symm)
      · rw [List.mem_singleton] at new
        rw [new] at key
        exact absurd key.symm other

variable {now issueKey : Text} {limit : Int} {tick : Nat}

theorem inv_claim (alone : ∀ key ∈ dueKeys w.table now limit, ∀ holding ∈ w.held, holding.issueKey ≠ key) :
    Inv (step lower w (.claim now limit)) := by
  rw [step, claimDueClosures]
  dsimp only
  constructor
  · dsimp only
    rw [keys_update]
    · exact inv.distinct
    · exact fun row => rfl
  · dsimp only
    rw [List.map_append, List.map_map, List.nodup_append]
    refine ⟨inv.owners,?_,?_⟩
    · have same : (dueKeys w.table now limit).map (Holding.issueKey ∘ fun key => (⟨w.nextTick,key,false⟩ : Holding Text)) =
          dueKeys w.table now limit := (List.map_congr_left fun _ _ => rfl).trans (List.map_id _)
      rw [same]
      exact dueKeys_nodup inv.distinct now limit
    · intro a first b second same
      obtain ⟨holding,mem,is⟩ := List.mem_map.mp first
      obtain ⟨key,due,key'⟩ := List.mem_map.mp second
      apply alone key due holding mem
      rw [is, same, ← key']
      rfl
  · intro holding mem
    have row : ∃ row ∈ w.table, row.issueKey = holding.issueKey := by
      rcases List.mem_append.mp mem with old | new
      · exact inv.known holding old
      · obtain ⟨key,due,is⟩ := List.mem_map.mp new
        obtain ⟨row,inside,same,_⟩ := mem_dueKeys due
        exact ⟨row,inside,by rw [← is]; exact same⟩
    obtain ⟨row,inside,same⟩ := row
    refine ⟨_,mem_update.mpr ⟨row,inside,rfl⟩,?_⟩
    split <;> exact same
  · intro holding mem row inside key
    obtain ⟨old,there,is⟩ := mem_update.mp inside
    rcases List.mem_append.mp mem with held | new
    · have apart : ¬ decide (old.issueKey ∈ dueKeys w.table now limit) = true := by
        intro due
        rw [if_pos due] at is
        rw [is] at key
        exact alone old.issueKey (by simpa using due) holding held key.symm
      rw [if_neg apart] at is
      rw [is] at key ⊢
      exact inv.claimed holding held old there key
    · obtain ⟨due,mem',made⟩ := List.mem_map.mp new
      have hit : decide (old.issueKey ∈ dueKeys w.table now limit) = true := by
        have name : old.issueKey = due := by
          rw [← made, is] at key
          split at key <;> exact key
        rw [name]
        simpa using mem'
      rw [if_pos hit] at is
      rw [is, ← made]
      simp

theorem not_released (owner : Holds w tick issueKey) {holding : Holding Text} (mem : holding ∈ release tick issueKey w.held) : holding.issueKey ≠ issueKey := by
  obtain ⟨first,inside,number,name⟩ := owner
  obtain ⟨there,other⟩ := List.mem_filter.mp mem
  intro same
  have equal := List.inj_on_of_nodup_map inv.owners there inside (same.trans name.symm)
  rw [equal] at other
  simp [number, name] at other

theorem inv_finalize (owner : Holds w tick issueKey) (state : ClosureState) (reason : Option Text) (stamp : Text) : Inv (step lower w (.finalize tick issueKey state reason stamp)) := by
  rw [step, finalizeClosure]
  split
  · rename_i table made
    split at made
    · cases made
      apply inv_update inv _ List.filter_sublist
      · intro holding mem row _ key hit
        rw [decide_eq_true_eq] at hit
        exact absurd (key.symm.trans hit) (not_released inv owner mem)
      · exact fun row => rfl
    · contradiction
  · exact inv

theorem inv_requeue (owner : Holds w tick issueKey) (stamp : Text) : Inv (step lower w (.requeue tick issueKey stamp)) := by
  apply inv_update inv _ List.filter_sublist
  · intro holding mem row _ key hit
    rw [Bool.and_eq_true, decide_eq_true_eq] at hit
    exact absurd (key.symm.trans hit.1) (not_released inv owner mem)
  · exact fun row => rfl

theorem inv_cancel (issueKey reason stamp : Text) : Inv (step lower w (.cancel issueKey reason stamp)) := by
  apply inv_update inv _ (List.Sublist.refl _)
  · intro holding mem row inside key hit
    rw [Bool.and_eq_true, decide_eq_true_eq, decide_eq_true_eq] at hit
    have before := inv.claimed holding mem row inside key
    rw [hit.2] at before
    simpa using before
  · exact fun row => rfl

theorem claims_alone (calm : Undisturbed w (.claim now limit)) :
    ∀ key ∈ dueKeys w.table now limit, ∀ holding ∈ w.held, holding.issueKey ≠ key := by
  intro key due holding mem same
  obtain ⟨row,inside,name,pending⟩ := mem_dueKeys due
  have claimed := (inv.claimed holding mem row inside (name.trans same.symm)).mpr (calm key due holding mem same)
  rw [pending] at claimed
  contradiction

theorem step_keeps (call : Call Text) (allowed : Allowed w call) (calm : Undisturbed w call) : Inv (step lower w call) := by
  cases call with
  | upsert schedule stamp => exact inv_upsert inv schedule stamp
  | claim now limit => exact inv_claim inv (claims_alone inv calm)
  | finalize tick issueKey state reason stamp => exact inv_finalize inv allowed state reason stamp
  | requeue tick issueKey stamp => exact inv_requeue inv allowed stamp
  | cancel issueKey reason stamp => exact inv_cancel inv issueKey reason stamp

theorem sound_iff (call : Call Text) (allowed : Allowed w call) : Sound lower w call ↔ Undisturbed w call := by
  cases call with
  | upsert schedule stamp => simp [Sound, OneOwner, FromClaimed, KeepsSchedule, Undisturbed]
  | requeue tick issueKey stamp => simp [Sound, OneOwner, FromClaimed, KeepsSchedule, Undisturbed]
  | cancel issueKey reason stamp => simp [Sound, OneOwner, FromClaimed, KeepsSchedule, Undisturbed]
  | claim now limit =>
    constructor
    · intro ⟨owner,_⟩ key due holding mem same
      exact absurd same (owner key due holding mem)
    · intro calm
      exact ⟨claims_alone inv calm,trivial,trivial⟩
  | finalize tick issueKey state reason stamp =>
    constructor
    · intro ⟨_,from',_⟩ terminal holding mem number name
      obtain ⟨row,inside,same⟩ := inv.known holding mem
      exact (inv.claimed holding mem row inside same).mp (from' terminal row inside (same.trans name))
    · intro calm
      refine ⟨trivial,?_,?_⟩
      · intro terminal row inside same
        obtain ⟨holding,mem,number,name⟩ := allowed
        exact (inv.claimed holding mem row inside (same.trans name.symm)).mpr (calm terminal holding mem number name)
      · intro holding mem number name overtaken row inside _ _
        cases terminal : isTerminal state with
        | true =>
          have same := calm terminal holding mem number name
          rw [same] at overtaken
          contradiction
        | false =>
          rw [step, finalizeClosure, terminal]
          exact inside

end step

/-- Over every run: one owner, closed from claimed only and no lost schedule, exactly when no answer
    comes between a tick's claim and its finalization. -/
theorem closures_sound_iff (lower : Text → Text) (calls : List (Call Text))
    (run : Every (step lower) Allowed start calls) :
    Every (step lower) (Sound lower) start calls ↔ Every (step lower) Undisturbed start calls :=
  every_iff (fun _ call inv allowed => sound_iff inv call allowed) (fun _ call inv allowed calm => step_keeps inv call allowed calm)
    inv_start run

/- The tick that was overtaken gives the row back, and the next one closes it. -/
def givenBack : List (Call Nat) :=
  [.upsert ⟨1,1,7,70,3,10⟩ 0, .claim 10 50, .upsert ⟨1,1,7,71,3,90⟩ 11, .requeue 0 1 12, .claim 95 50,
    .finalize 1 1 .closed none 96]

theorem given_back_is_sound : Every (step id) (Sound id) start givenBack :=
  (closures_sound_iff id givenBack (by decide)).mpr (by decide)

/- An answer reschedules the issue while a tick has it claimed; the tick closes it. -/
def rescheduled : List (Call Nat) :=
  [.upsert ⟨1,1,7,70,3,10⟩ 0, .claim 10 50, .upsert ⟨1,1,7,71,3,90⟩ 11, .finalize 0 1 .closed none 12]

theorem rescheduled_is_lost : Every (step id) Allowed start rescheduled ∧ ¬ Every (step id) (Sound id) start rescheduled := by
  constructor
  · decide
  · intro sound
    have claimed := sound.2.2.2.1.2.1 rfl ⟨1,1,7,71,3,90,.pending,none,0,11⟩ (by decide) rfl
    contradiction

end ClosureRuns
