import Mathlib.Data.List.Forall2
import Mathlib.Data.List.Induction

/- Actions that change a state and may fail.  A failed action keeps what it changed before.
   What every step leaves alone, the whole action leaves alone. -/
namespace FallibleState

def Action (W ε α : Type) := W → Except ε α × W

variable {W V ε α β : Type}

def Action.bind (x : Action W ε α) (f : α → Action W ε β) : Action W ε β := fun w =>
  match x w with
  | (.ok a, next) => f a next
  | (.error e, next) => (.error e, next)

instance : Monad (Action W ε) where
  pure a := fun w => (.ok a, w)
  bind := Action.bind

def ofExcept (outcome : Except ε α) : Action W ε α := fun w => (outcome, w)

def reading (view : W → α) : Action W ε α := fun w => (.ok (view w), w)

def updating (change : W → α × W) : Action W ε α := fun w => (.ok (change w).1, (change w).2)

@[simp] theorem pure_run (a : α) (w : W) : (pure a : Action W ε α) w = (.ok a, w) := rfl

theorem bind_run (x : Action W ε α) (f : α → Action W ε β) (w : W) :
    (x >>= f) w = match x w with
      | (.ok a, next) => f a next
      | (.error e, next) => (.error e, next) := rfl

instance : LawfulMonad (Action W ε) := LawfulMonad.mk' (Action W ε)
  (by
    intro α x
    funext w
    show Action.bind x pure w = x w
    unfold Action.bind
    cases x w with
    | mk outcome next => cases outcome <;> rfl)
  (by
    intro α β a f
    rfl)
  (by
    intro α β γ x f g
    funext w
    show Action.bind (Action.bind x f) g w = Action.bind x (fun a => Action.bind (f a) g) w
    unfold Action.bind
    cases x w with
    | mk outcome next => cases outcome <;> rfl)

variable {x : Action W ε α} {f : α → Action W ε β} {w last : W} {view : W → V}

theorem bind_ok {b : β} : (x >>= f) w = (.ok b, last) ↔ ∃ a next, x w = (.ok a, next) ∧ f a next = (.ok b, last) := by
  rw [bind_run]
  cases result : x w with
  | mk outcome next =>
    cases outcome with
    | ok a => simp
    | error e => simp

theorem ofExcept_ok {outcome : Except ε α} {a : α} :
    (ofExcept outcome : Action W ε α) w = (.ok a, last) ↔ outcome = .ok a ∧ w = last := by
  unfold ofExcept
  rw [Prod.mk.injEq]

/- The action never changes the view. -/
def Leaves (view : W → V) (x : Action W ε α) : Prop := ∀ w, view (x w).2 = view w

theorem leaves_pure (view : W → V) (a : α) : Leaves view (pure a : Action W ε α) := fun _ => rfl

theorem leaves_ofExcept (view : W → V) (outcome : Except ε α) : Leaves view (ofExcept outcome : Action W ε α) :=
  fun _ => rfl

theorem Leaves.bind (first : Leaves view x) (then_ : ∀ a, Leaves view (f a)) : Leaves view (x >>= f) := by
  intro w
  have kept := first w
  rw [bind_run]
  cases result : x w with
  | mk outcome next =>
    rw [result] at kept
    cases outcome with
    | ok a => exact (then_ a next).trans kept
    | error e => exact kept

theorem Leaves.mapM (each : ∀ a, Leaves view (f a)) (items : List α) : Leaves view (items.mapM f) := by
  induction items with
  | nil => exact leaves_pure view []
  | cons item rest ih =>
    rw [List.mapM_cons]
    exact (each item).bind fun b => ih.bind fun bs => leaves_pure view (b :: bs)

/-- The results of a run, each reached from a state with the same view. -/
theorem mapM_ok (each : ∀ a, Leaves view (f a)) {items : List α} :
    ∀ {w last : W} {results : List β}, items.mapM f w = (.ok results, last) →
      List.Forall₂ (fun a b => ∃ here next, f a here = (.ok b, next) ∧ view here = view w) items results := by
  induction items with
  | nil =>
    intro w last results ran
    cases ran
    exact .nil
  | cons item rest ih =>
    intro w last results ran
    rw [List.mapM_cons] at ran
    obtain ⟨b,next,first,later⟩ := bind_ok.mp ran
    obtain ⟨bs,final,others,done⟩ := bind_ok.mp later
    cases done
    have kept : view next = view w := by
      have stays := each item w
      rwa [first] at stays
    refine .cons ⟨w,next,first,rfl⟩ ((ih others).imp ?_)
    intro a b reached
    obtain ⟨here,after,made,same⟩ := reached
    exact ⟨here,after,made,same.trans kept⟩

end FallibleState

/- Runs of a fallible step function: how a successful run comes apart, and how
   one run follows another through a relation between their states. -/
namespace ExceptRun
variable {ε σ τ α β : Type}

theorem bind_ok {x : Except ε α} {f : α → Except ε β} {b : β} :
    (x >>= f) = .ok b ↔ ∃ a, x = .ok a ∧ f a = .ok b := by
  cases x with
  | error e => simp [bind, Except.bind]
  | ok a => simp [bind, Except.bind]

/-- A step that can be followed once can be followed along every list of inputs. -/
theorem foldlM_follows (step : σ → α → Except ε σ) (step' : τ → β → Except ε τ) (R : σ → τ → Prop)
    (translate : α → β)
    (follows : ∀ s t s' a, R s t → step s a = .ok s' →
      ∃ t', step' t (translate a) = .ok t' ∧ R s' t')
    (items : List α) {s s' : σ} {t : τ} (related : R s t) (run : items.foldlM step s = .ok s') :
    ∃ t', (items.map translate).foldlM step' t = .ok t' ∧ R s' t' := by
  induction items generalizing s t with
  | nil =>
    obtain rfl : s = s' := by simpa [pure, Except.pure] using run
    exact ⟨t,rfl,related⟩
  | cons item items ih =>
    rw [List.foldlM_cons] at run
    obtain ⟨next,stepped,rest⟩ := bind_ok.mp run
    obtain ⟨next',stepped',related'⟩ := follows s t next item related stepped
    obtain ⟨last,ran,final⟩ := ih related' rest
    refine ⟨last,?_,final⟩
    rw [List.map_cons, List.foldlM_cons, stepped']
    exact ran

/-- What every step keeps that the run gets to holds at its end. -/
theorem foldlM_keeps {step : σ → α → Except ε σ} (inv : σ → Prop) {items : List α} {start last : σ}
    (keeps : ∀ done item rest s s', items = done ++ item :: rest → done.foldlM step start = .ok s → inv s →
      step s item = .ok s' → inv s')
    (begins : inv start) (run : items.foldlM step start = .ok last) : inv last := by
  induction items using List.reverseRecOn generalizing last with
  | nil =>
    obtain rfl : start = last := by simpa [pure, Except.pure] using run
    exact begins
  | append_singleton front item ih =>
    rw [List.foldlM_append] at run
    obtain ⟨before,ran,final⟩ := bind_ok.mp run
    rw [List.foldlM_cons] at final
    obtain ⟨after,step',same⟩ := bind_ok.mp final
    obtain rfl : after = last := by simpa [pure, Except.pure] using same
    refine keeps front item [] before after rfl ran (ih ?_ ran) step'
    intro done other rest s s' split reached
    exact keeps done other (rest ++ [item]) s s' (by rw [split, List.append_assoc]; rfl) reached

end ExceptRun
