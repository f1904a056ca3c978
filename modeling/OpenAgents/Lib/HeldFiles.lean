import Mathlib.Logic.Function.Basic

/- Files that outlive their names: a name points at a file, a writer holds the
   file it was opened on, and renaming moves the name only. -/
namespace HeldFiles
variable {N L : Type}

structure Disk (N L : Type) where
  names : N → Option Nat
  contents : Nat → List L
  next : Nat
  bounded : ∀ n i, names n = some i → i < next

def Disk.read (d : Disk N L) (n : N) : Option (List L) := (d.names n).map d.contents

def Disk.exists (d : Disk N L) (n : N) : Bool := (d.names n).isSome

/-- A new file without a name. -/
def Disk.create (d : Disk N L) (lines : List L) : Disk N L :=
  { names := d.names
    contents := Function.update d.contents d.next lines
    next := d.next + 1
    bounded := fun n i named => Nat.lt_succ_of_lt (d.bounded n i named) }

def Disk.append (d : Disk N L) (held : Nat) (line : L) : Disk N L :=
  { d with contents := Function.update d.contents held (d.contents held ++ [line]) }

@[simp] theorem names_create (d : Disk N L) (lines : List L) : (d.create lines).names = d.names := rfl

@[simp] theorem next_create (d : Disk N L) (lines : List L) : (d.create lines).next = d.next + 1 := rfl

@[simp] theorem contents_create (d : Disk N L) (lines : List L) : (d.create lines).contents d.next = lines := by
  simp [Disk.create]

theorem read_append (d : Disk N L) {n : N} {held : Nat} (named : d.names n = some held) (line : L) :
    (d.append held line).read n = (d.read n).map (· ++ [line]) := by
  simp [Disk.read, Disk.append, named]

section Names
variable [DecidableEq N]

/-- The name points at the file from now on. -/
def Disk.link (d : Disk N L) (n : N) (held : Nat) : Disk N L :=
  if inside : held < d.next then
    { d with
      names := Function.update d.names n (some held)
      bounded := by
        intro m i named
        by_cases same : m = n
        · subst same
          rw [Function.update_self] at named
          cases named
          exact inside
        · rw [Function.update_of_ne same] at named
          exact d.bounded m i named }
  else d

/-- An append writer finds the file of that name, or creates it. -/
def Disk.openAppend (d : Disk N L) (n : N) : Disk N L × Nat :=
  match d.names n with
  | some held => (d, held)
  | none => ((d.create []).link n d.next, d.next)

def Disk.rename (d : Disk N L) (n m : N) : Disk N L :=
  { d with
    names := Function.update (Function.update d.names n none) m (d.names n)
    bounded := by
      intro k i named
      by_cases target : k = m
      · subst target
        rw [Function.update_self] at named
        exact d.bounded n i named
      · rw [Function.update_of_ne target] at named
        by_cases source : k = n
        · subst source
          rw [Function.update_self] at named
          cases named
        · rw [Function.update_of_ne source] at named
          exact d.bounded k i named }

theorem names_link (d : Disk N L) (n : N) {held : Nat} (inside : held < d.next) :
    (d.link n held).names = Function.update d.names n (some held) := by
  rw [Disk.link, dif_pos inside]

theorem contents_link (d : Disk N L) (n : N) (held : Nat) : (d.link n held).contents = d.contents := by
  unfold Disk.link
  split <;> rfl

@[simp] theorem next_link (d : Disk N L) (n : N) (held : Nat) : (d.link n held).next = d.next := by
  unfold Disk.link
  split <;> rfl

theorem read_link (d : Disk N L) (n : N) {held : Nat} (inside : held < d.next) :
    (d.link n held).read n = some (d.contents held) := by
  rw [Disk.read, names_link d n inside, contents_link, Function.update_self]
  rfl

/-- Linking takes no name away. -/
theorem exists_link (d : Disk N L) (n : N) (held : Nat) {m : N} (named : d.exists m = true) :
    (d.link n held).exists m = true := by
  by_cases inside : held < d.next
  · rw [Disk.exists, names_link d n inside]
    by_cases same : m = n
    · subst same
      rw [Function.update_self]
      rfl
    · rw [Function.update_of_ne same]
      exact named
  · rw [Disk.link, dif_neg inside]
    exact named

theorem openAppend_known (d : Disk N L) {n : N} {held : Nat} (named : d.names n = some held) :
    d.openAppend n = (d, held) := by
  rw [Disk.openAppend, named]

/-- Opening finds or creates the file, and the name points at it afterwards. -/
theorem names_openAppend (d : Disk N L) (n : N) : (d.openAppend n).1.names n = some (d.openAppend n).2 := by
  unfold Disk.openAppend
  cases named : d.names n with
  | some held => exact named
  | none =>
    have inside : d.next < (d.create []).next := Nat.lt_succ_self d.next
    simp only
    rw [names_link _ _ inside, Function.update_self]

theorem next_openAppend (d : Disk N L) (n : N) : d.next ≤ (d.openAppend n).1.next := by
  unfold Disk.openAppend
  cases named : d.names n with
  | some held => exact Nat.le_refl d.next
  | none => simp

theorem exists_openAppend (d : Disk N L) (n : N) {m : N} (named : d.exists m = true) :
    (d.openAppend n).1.exists m = true := by
  unfold Disk.openAppend
  cases known : d.names n with
  | some held => exact named
  | none => exact exists_link _ _ _ named

theorem names_rename (d : Disk N L) (n m : N) : (d.rename n m).names m = d.names n := by
  simp [Disk.rename]

end Names

end HeldFiles
