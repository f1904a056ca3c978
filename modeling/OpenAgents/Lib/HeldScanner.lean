import Mathlib.Data.List.Infix

/- A scanner over a buffer that grows in chunks: at each place it takes some units
   or holds the rest back. What is taken must not depend on how far the buffer reaches. -/
namespace HeldScanner
variable {U M O : Type}

structure Taken (M O : Type) where
  size : Nat
  mode : M
  output : O

/- None holds the rest back. -/
abbrev Decision (U M O : Type) := M → List U → Option (Taken M O)

structure Scan (U M O : Type) where
  mode : M
  rest : List U
  outputs : List O

section Decisions
variable (decision : Decision U M O)

/- The fuel is the length of the buffer, since every decision takes something. -/
def scanFuel : Nat → M → List U → Scan U M O
  | 0, m, s => ⟨m,s,[]⟩
  | fuel + 1, m, s =>
      if s.isEmpty then ⟨m,s,[]⟩
      else
        match decision m s with
        | none => ⟨m,s,[]⟩
        | some taken =>
            let after := scanFuel fuel taken.mode (s.drop taken.size)
            { after with outputs := taken.output :: after.outputs }

def scan (m : M) (s : List U) : Scan U M O := scanFuel decision s.length m s

/- Each chunk is put behind what was held back. -/
def feedChunks (m : M) (held : List U) : List (List U) → Scan U M O
  | [] => ⟨m,held,[]⟩
  | chunk :: rest =>
      let first := scan decision m (held ++ chunk)
      let after := feedChunks first.mode first.rest rest
      { after with outputs := first.outputs ++ after.outputs }

/-- The run of a scan, decision by decision. -/
inductive Scans : M → List U → Scan U M O → Prop where
  | empty (m : M) : Scans m [] ⟨m,[],[]⟩
  | hold (m : M) (s : List U) (held : decision m s = none) : Scans m s ⟨m,s,[]⟩
  | take (m : M) (s : List U) (taken : Taken M O) (after : Scan U M O) (nonempty : s ≠ [])
      (decided : decision m s = some taken) (rest : Scans taken.mode (s.drop taken.size) after) :
      Scans m s { after with outputs := taken.output :: after.outputs }

/-- The places a scan comes to. -/
inductive Visits : M → List U → M → List U → Prop where
  | here (m : M) (s : List U) (nonempty : s ≠ []) : Visits m s m s
  | later (m : M) (s : List U) (taken : Taken M O) (n : M) (t : List U) (nonempty : s ≠ [])
      (decided : decision m s = some taken) (rest : Visits taken.mode (s.drop taken.size) n t) :
      Visits m s n t

/- Something is taken, and nothing beyond the buffer. -/
def Progress : Prop :=
  ∀ m s taken, s ≠ [] → decision m s = some taken → 0 < taken.size ∧ taken.size ≤ s.length

/- What was decided before the cut stays decided with what comes behind it. -/
def StableAt (m : M) (before behind : List U) : Prop :=
  ∀ n s, Visits decision m before n s → ∀ taken, decision n s = some taken →
    decision n (s ++ behind) = some taken

end Decisions

section Runs
variable {decision : Decision U M O}

theorem scanFuel_scans (progress : Progress decision) (fuel : Nat) : ∀ (m : M) (s : List U),
    s.length ≤ fuel → Scans decision m s (scanFuel decision fuel m s) := by
  induction fuel with
  | zero =>
    intro m s enough
    obtain rfl : s = [] := List.eq_nil_of_length_eq_zero (by omega)
    exact .empty m
  | succ fuel ih =>
    intro m s enough
    rw [scanFuel]
    cases s with
    | nil => exact .empty m
    | cons u rest =>
      rw [if_neg (by simp)]
      cases decided : decision m (u :: rest) with
      | none => exact .hold m _ decided
      | some taken =>
        have nonempty : u :: rest ≠ [] := List.cons_ne_nil u rest
        obtain ⟨positive,-⟩ := progress m _ taken nonempty decided
        have shorter : ((u :: rest).drop taken.size).length ≤ fuel := by
          rw [List.length_drop]
          omega
        exact .take m _ taken _ nonempty decided (ih taken.mode _ shorter)

theorem scan_scans (progress : Progress decision) (m : M) (s : List U) :
    Scans decision m s (scan decision m s) :=
  scanFuel_scans progress s.length m s (Nat.le_refl _)

variable {m n : M} {s t : List U} {holds : M → Prop} {chunks : List (List U)}

theorem Scans.unique {one two : Scan U M O} (first : Scans decision m s one) (second : Scans decision m s two) : one = two := by
  induction first generalizing two with
  | empty m =>
    cases second with
    | empty => rfl
    | hold => rfl
    | take _ _ _ _ nonempty => exact absurd rfl nonempty
  | hold m s held =>
    cases second with
    | empty => rfl
    | hold => rfl
    | take _ _ taken _ _ decided =>
      rw [held] at decided
      cases decided
  | take m s taken after nonempty decided rest ih =>
    cases second with
    | empty => exact absurd rfl nonempty
    | hold _ _ held =>
      rw [held] at decided
      cases decided
    | take _ _ other after' _ decided' rest' =>
      rw [decided] at decided'
      cases decided'
      rw [ih rest']

/-- A scan goes on from where it was held. -/
theorem Scans.append (progress : Progress decision) {before behind : List U} {one two : Scan U M O}
    (first : Scans decision m before one) (stable : StableAt decision m before behind)
    (second : Scans decision one.mode (one.rest ++ behind) two) :
    Scans decision m (before ++ behind) { two with outputs := one.outputs ++ two.outputs } := by
  induction first with
  | empty m => exact second
  | hold m s held => exact second
  | take m s taken after nonempty decided rest ih =>
    have still := stable m s (.here m s nonempty) taken decided
    obtain ⟨-,inside⟩ := progress m s taken nonempty decided
    have dropped : (s ++ behind).drop taken.size = s.drop taken.size ++ behind :=
      List.drop_append_of_le_length inside
    have later : StableAt decision taken.mode (s.drop taken.size) behind := by
      intro n t visited
      exact stable n t (.later m s taken n t nonempty decided visited)
    have whole := ih later second
    rw [← dropped] at whole
    exact .take m _ taken _ (List.append_ne_nil_of_left_ne_nil nonempty behind) still whole

theorem Visits.suffix (visited : Visits decision m s n t) : t <:+ s ∧ t ≠ [] := by
  induction visited with
  | here m s nonempty => exact ⟨List.suffix_rfl,nonempty⟩
  | later m s taken n t nonempty decided rest ih => exact ⟨ih.1.trans (List.drop_suffix taken.size s),ih.2⟩

/-- What every decision preserves holds wherever a scan comes to. -/
theorem Visits.keeps (step : ∀ m s taken, holds m → decision m s = some taken → holds taken.mode)
    (visited : Visits decision m s n t) (first : holds m) : holds n := by
  induction visited with
  | here m s nonempty => exact first
  | later m s taken n t nonempty decided rest ih => exact ih (step m s taken first decided)

theorem Scans.keeps (step : ∀ m s taken, holds m → decision m s = some taken → holds taken.mode) {one : Scan U M O}
    (scanned : Scans decision m s one) (first : holds m) : holds one.mode := by
  induction scanned with
  | empty m => exact first
  | hold m s held => exact first
  | take m s taken after nonempty decided rest ih => exact ih (step m s taken first decided)

/- Every cut between two chunks is stable for the scan of all that came before it. -/
def StableCuts (decision : Decision U M O) (m : M) (before : List U) : List (List U) → Prop
  | [] => True
  | chunk :: rest => StableAt decision m before chunk ∧ StableCuts decision m (before ++ chunk) rest

theorem feedChunks_scans (progress : Progress decision) :
    ∀ {before : List U} {one : Scan U M O}, Scans decision m before one →
      StableCuts decision m before chunks →
      Scans decision m (before ++ chunks.flatten)
        (let fed := feedChunks decision one.mode one.rest chunks
         { fed with outputs := one.outputs ++ fed.outputs }) := by
  induction chunks with
  | nil =>
    intro before one scanned _
    simpa [feedChunks] using scanned
  | cons chunk rest ih =>
    intro before one scanned stable
    have next := scan_scans progress one.mode (one.rest ++ chunk)
    have through := ih (scanned.append progress stable.1 next) stable.2
    simpa [feedChunks] using through

/-- With stable cuts the chunks are scanned as the text in one piece. -/
theorem feedChunks_eq_scan (progress : Progress decision) (stable : StableCuts decision m [] chunks) :
    feedChunks decision m [] chunks = scan decision m chunks.flatten := by
  have fed := feedChunks_scans progress (Scans.empty m) stable
  exact (fed.unique (scan_scans progress m chunks.flatten))

end Runs

end HeldScanner
