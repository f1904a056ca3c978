import Mathlib.Data.List.Basic

/- Runs of a machine that answers every call, and the rule by which one machine stands for
   another: related states answer alike and stay related. -/
namespace AnsweredRuns
variable {S T C R : Type}

def run (step : S → C → R × S) : S → List C → List R × S
  | s, [] => ([], s)
  | s, call :: rest =>
      let (answer, next) := step s call
      let (later, last) := run step next rest
      (answer :: later, last)

/-- Related states answer a call alike and are related after it. -/
def Simulates (rel : S → T → Prop) (step : S → C → R × S) (model : T → C → R × T) : Prop :=
  ∀ s t call, rel s t → (step s call).1 = (model t call).1 ∧ rel (step s call).2 (model t call).2

theorem run_simulates {rel : S → T → Prop} {step : S → C → R × S} {model : T → C → R × T}
    (simulates : Simulates rel step model) {s : S} {t : T} (related : rel s t) (calls : List C) :
    (run step s calls).1 = (run model t calls).1 ∧ rel (run step s calls).2 (run model t calls).2 := by
  induction calls generalizing s t with
  | nil => exact ⟨rfl,related⟩
  | cons call rest ih =>
    obtain ⟨answer,after⟩ := simulates s t call related
    obtain ⟨later,last⟩ := ih after
    exact ⟨by simp only [run, answer, later],last⟩

end AnsweredRuns

/- A consumer that is fed a stream in chunks and answers each with some output. Where
   feeding two chunks is feeding their concatenation, the cuts cannot be seen. -/
namespace ChunkedRuns
variable {S U V : Type} (feed : S → List U → List V × S)

def feedAll : S → List (List U) → List V × S
  | state, [] => ([], state)
  | state, chunk :: rest =>
      let (out, next) := feed state chunk
      let (later, last) := feedAll next rest
      (out ++ later, last)

/-- The consumer cannot tell where a chunk was cut, in the states `inv` describes. -/
structure Seamless (inv : S → Prop) : Prop where
  empty : ∀ state, inv state → feed state [] = ([], state)
  keeps : ∀ state chunk, inv state → inv (feed state chunk).2
  append : ∀ state first second, inv state →
    feed state (first ++ second) =
      ((feed state first).1 ++ (feed (feed state first).2 second).1, (feed (feed state first).2 second).2)

variable {feed}

theorem feedAll_flatten {inv : S → Prop} (seamless : Seamless feed inv) (chunks : List (List U)) {state : S}
    (holds : inv state) : feedAll feed state chunks = feed state chunks.flatten := by
  induction chunks generalizing state with
  | nil => exact (seamless.empty state holds).symm
  | cons chunk rest ih =>
    have kept := seamless.keeps state chunk holds
    rw [List.flatten_cons, seamless.append state chunk rest.flatten holds]
    simp only [feedAll, ih kept]

end ChunkedRuns

/- Runs of a total step function, and what holds at every step of a run. -/
namespace CheckedRuns
variable {W C : Type} (step : W → C → W)

/- `check` holds of every state and the call made in it. -/
def Every (check : W → C → Prop) : W → List C → Prop
  | _, [] => True
  | w, call :: rest => check w call ∧ Every check (step w call) rest

instance {check : W → C → Prop} [∀ w c, Decidable (check w c)] : (w : W) → (calls : List C) →
    Decidable (Every step check w calls)
  | _, [] => inferInstanceAs (Decidable True)
  | w, call :: rest =>
      have : Decidable (Every step check (step w call) rest) := instDecidableEvery (step w call) rest
      inferInstanceAs (Decidable (check w call ∧ Every step check (step w call) rest))

variable {step}

variable {inv : W → Prop} {allowed : W → C → Prop} {w : W}

/-- Two checks that agree wherever the invariant holds agree on whole runs, when the
    calls that pass keep the invariant. -/
theorem every_iff {allowed ok good : W → C → Prop} (agree : ∀ w c, inv w → allowed w c → (ok w c ↔ good w c))
    (keeps : ∀ w c, inv w → allowed w c → good w c → inv (step w c)) {calls : List C} (start : inv w)
    (run : Every step allowed w calls) : Every step ok w calls ↔ Every step good w calls := by
  induction calls generalizing w with
  | nil => exact Iff.rfl
  | cons call rest ih =>
    obtain ⟨here,later⟩ := run
    have first := agree w call start here
    constructor
    · intro ⟨one,others⟩
      have passed := first.mp one
      exact ⟨passed,(ih (keeps w call start here passed) later).mp others⟩
    · intro ⟨one,others⟩
      exact ⟨first.mpr one,(ih (keeps w call start here one) later).mpr others⟩

/-- What every allowed call shows and keeps holds all along a run of allowed calls. -/
theorem every_of_keeps {allowed good : W → C → Prop} (keeps : ∀ w c, inv w → allowed w c → good w c ∧ inv (step w c))
    {calls : List C} (start : inv w) (run : Every step allowed w calls) : Every step good w calls := by
  induction calls generalizing w with
  | nil => trivial
  | cons call rest ih =>
    obtain ⟨here,later⟩ := run
    obtain ⟨shown,kept⟩ := keeps w call start here
    exact ⟨shown,ih kept later⟩

/-- And the last state has what they keep. -/
theorem inv_of_keeps (keeps : ∀ w c, inv w → allowed w c → inv (step w c)) {calls : List C} (start : inv w)
    (run : Every step allowed w calls) : inv (calls.foldl step w) := by
  induction calls generalizing w with
  | nil => exact start
  | cons call rest ih =>
    obtain ⟨here,later⟩ := run
    exact ih (keeps w call start here) later

theorem every_and {first second : W → C → Prop} {calls : List C} (one : Every step first w calls)
    (other : Every step second w calls) : Every step (fun w call => first w call ∧ second w call) w calls := by
  induction calls generalizing w with
  | nil => trivial
  | cons call rest ih => exact ⟨⟨one.1,other.1⟩,ih one.2 other.2⟩

end CheckedRuns
