/- Loops that nothing in their text makes finite: a step gives the next state or leaves with a result,
   and the fuel counts the steps. -/
namespace WhileLoop
variable {S R : Type}

def loop (step : S → S ⊕ R) : Nat → S → Option R
  | 0, _ => none
  | fuel + 1, s =>
      match step s with
      | .inl next => loop step fuel next
      | .inr result => some result

section rules
variable {step : S → S ⊕ R}

theorem loop_next {s next : S} (steps : step s = .inl next) (fuel : Nat) : loop step (fuel + 1) s = loop step fuel next := by
  simp only [loop, steps]

variable {s : S} {fuel : Nat}

theorem loop_leaves {result : R} (leaves : step s = .inr result) (fuel : Nat) : loop step (fuel + 1) s = some result := by
  simp only [loop, leaves]

/-- More fuel changes no result. -/
theorem loop_more {fuel more : Nat} {result : R} (ends : loop step fuel s = some result) (enough : fuel ≤ more) :
    loop step more s = some result := by
  induction fuel generalizing more s with
  | zero => cases ends
  | succ fuel ih =>
    obtain ⟨more,rfl⟩ : ∃ k, more = k + 1 := ⟨more - 1,by omega⟩
    cases steps : step s with
    | inl next =>
      rw [loop_next steps] at ends ⊢
      exact ih ends (by omega)
    | inr out =>
      rw [loop_leaves steps] at ends ⊢
      exact ends

theorem loop_same {fuel other : Nat} {result result' : R} (ends : loop step fuel s = some result)
    (ends' : loop step other s = some result') : result = result' := by
  have first := loop_more ends (Nat.le_max_left fuel other)
  have second := loop_more ends' (Nat.le_max_right fuel other)
  exact Option.some.inj (first.symm.trans second)

/-- What each step lowers bounds their number. -/
theorem loop_ends (holds : S → Prop) (left : S → Nat)
    (lowers : ∀ s next, holds s → step s = .inl next → holds next ∧ left next < left s) (now : holds s)
    (enough : left s < fuel) : ∃ result, loop step fuel s = some result := by
  induction fuel generalizing s with
  | zero => omega
  | succ fuel ih =>
    cases steps : step s with
    | inl next =>
      rw [loop_next steps]
      obtain ⟨still,lower⟩ := lowers s next now steps
      exact ih still (by omega)
    | inr out => exact ⟨out,loop_leaves steps fuel⟩

/-- A loop that always steps from `stuck` to `stuck` never leaves. -/
theorem loop_never (stuck : S → Prop) (stays : ∀ s, stuck s → ∃ next, step s = .inl next ∧ stuck next) (now : stuck s)
    (fuel : Nat) : loop step fuel s = none := by
  induction fuel generalizing s with
  | zero => rfl
  | succ fuel ih =>
    obtain ⟨next,steps,still⟩ := stays s now
    rw [loop_next steps]
    exact ih still

/-- What holds of a result is shown backwards: where the loop leaves, and across one step. -/
theorem loop_result (Gives : S → R → Prop) (leaves : ∀ s out, step s = .inr out → Gives s out)
    (steps : ∀ s next out, step s = .inl next → Gives next out → Gives s out) {result : R}
    (ends : loop step fuel s = some result) : Gives s result := by
  induction fuel generalizing s with
  | zero => cases ends
  | succ fuel ih =>
    cases stepped : step s with
    | inl next =>
      rw [loop_next stepped] at ends
      exact steps s next result stepped (ih ends)
    | inr out =>
      rw [loop_leaves stepped] at ends
      exact Option.some.inj ends ▸ leaves s out stepped

end rules

/- Some fuel is enough for this result, and no more fuel gives another. -/
def Yields (f : Nat → Option R) (result : R) : Prop := ∃ least, ∀ fuel, least ≤ fuel → f fuel = some result

def Ends (f : Nat → Option R) : Prop := ∃ result, Yields f result

variable {s : S} {f : Nat → Option S} {g : S → Nat → Option R} {A : Type}

theorem loop_yields {step : S → S ⊕ R} {fuel : Nat} {result : R} (ends : loop step fuel s = some result) :
    Yields (fun fuel => loop step fuel s) result :=
  ⟨fuel,fun _ enough => loop_more ends enough⟩

theorem yields_pure (result : R) : Yields (fun _ => some result) result := ⟨0,fun _ _ => rfl⟩

theorem yields_bind {result : R} (first : Yields f s) (then_ : Yields (g s) result) : Yields (fun fuel => (f fuel).bind fun s => g s fuel) result := by
  obtain ⟨least,gives⟩ := first
  obtain ⟨least',gives'⟩ := then_
  refine ⟨max least least',fun fuel enough => ?_⟩
  dsimp only
  rw [gives fuel (by omega)]
  exact gives' fuel (by omega)

theorem yields_map (g : S → R) (first : Yields f s) : Yields (fun fuel => (f fuel).map g) (g s) := by
  obtain ⟨least,gives⟩ := first
  exact ⟨least,fun fuel enough => congrArg (Option.map g) (gives fuel enough)⟩

theorem yields_same {f : Nat → Option R} {result other : R} (one : Yields f result) (two : Yields f other) : result = other := by
  obtain ⟨least,gives⟩ := one
  obtain ⟨least',gives'⟩ := two
  have first := gives (max least least') (Nat.le_max_left _ _)
  rw [gives' (max least least') (Nat.le_max_right _ _)] at first
  exact (Option.some.inj first).symm

theorem ends_bind (first : Yields f s) (then_ : Ends (g s)) : Ends fun fuel => (f fuel).bind fun s => g s fuel := by
  obtain ⟨result,gives⟩ := then_
  exact ⟨result,yields_bind first gives⟩

/-- A fold ends when its every step does. -/
theorem ends_foldlM {f : Nat → S → A → Option S} {items : List A}
    (each : ∀ item ∈ items, ∀ s, Ends fun fuel => f fuel s item) (s : S) : Ends fun fuel => items.foldlM (f fuel) s := by
  induction items generalizing s with
  | nil => exact ⟨s,0,fun _ _ => rfl⟩
  | cons item later ih =>
    obtain ⟨next,gives⟩ := each item List.mem_cons_self s
    exact ends_bind gives (ih (fun other mem => each other (List.mem_cons_of_mem _ mem)) next)

/-- One step that never ends keeps the fold from ending. -/
theorem foldlM_none {f : S → A → Option S} {items : List A} {item : A} (mem : item ∈ items) (never : ∀ s, f s item = none)
    (s : S) : items.foldlM f s = none := by
  induction items generalizing s with
  | nil => cases mem
  | cons first later ih =>
    rw [List.foldlM_cons]
    rcases List.mem_cons.mp mem with rfl | later
    · rw [never s]
      rfl
    · cases f s first with
      | none => rfl
      | some next => exact ih later next

end WhileLoop
