import Mathlib.Algebra.Order.Ring.Nat
import Mathlib.Tactic.Ring

/- Numerals of a fixed base, the highest digit first. Numerals of one length are ordered as texts
   just as their values are ordered as numbers. -/
namespace Numerals
variable {D : Type} (base : Nat) (digit : D → Nat)

def value (ds : List D) : Nat := ds.foldl (fun n d => n * base + digit d) 0

theorem value_foldl (n : Nat) (ds : List D) :
    ds.foldl (fun n d => n * base + digit d) n = n * base ^ ds.length + value base digit ds := by
  unfold value
  induction ds generalizing n with
  | nil => simp
  | cons d ds ih =>
    simp only [List.foldl_cons, List.length_cons]
    rw [ih, ih (0 * base + digit d)]
    ring

@[simp] theorem value_nil : value base digit [] = 0 := rfl

@[simp] theorem value_cons (d : D) (ds : List D) :
    value base digit (d :: ds) = digit d * base ^ ds.length + value base digit ds := by
  rw [value, List.foldl_cons, value_foldl, Nat.zero_mul, Nat.zero_add]

theorem value_append (ds es : List D) :
    value base digit (ds ++ es) = value base digit ds * base ^ es.length + value base digit es := by
  rw [value, List.foldl_append, value_foldl]
  rfl

variable {base digit}

theorem value_lt {ds : List D} (digits : ∀ d ∈ ds, digit d < base) : value base digit ds < base ^ ds.length := by
  induction ds with
  | nil => simp
  | cons d ds ih =>
    have first : digit d + 1 ≤ base := digits d List.mem_cons_self
    have later := ih fun e mem => digits e (List.mem_cons_of_mem d mem)
    calc value base digit (d :: ds) < digit d * base ^ ds.length + base ^ ds.length := by
          rw [value_cons]
          exact Nat.add_lt_add_left later _
      _ = (digit d + 1) * base ^ ds.length := by ring
      _ ≤ base ^ (d :: ds).length := by
          rw [List.length_cons, Nat.pow_succ, Nat.mul_comm (base ^ ds.length)]
          exact Nat.mul_le_mul_right _ first

/-- Digits that are ordered as they count: below the base, and none counts as another. -/
structure Ordered (base : Nat) (digit : D → Nat) (before : D → D → Prop) (allowed : D → Prop) : Prop where
  below : ∀ d, allowed d → digit d < base
  order : ∀ d e, allowed d → allowed e → (before d e ↔ digit d < digit e)
  distinct : ∀ d e, allowed d → allowed e → digit d = digit e → d = e

variable {before : D → D → Prop} {allowed : D → Prop}

theorem lex_iff_value (ordered : Ordered base digit before allowed) {ds es : List D} (same : ds.length = es.length)
    (left : ∀ d ∈ ds, allowed d) (right : ∀ e ∈ es, allowed e) :
    List.Lex before ds es ↔ value base digit ds < value base digit es := by
  induction ds generalizing es with
  | nil =>
    obtain rfl : es = [] := List.length_eq_zero_iff.mp same.symm
    simp
  | cons d ds ih =>
    cases es with
    | nil => cases same
    | cons e es =>
      have lengths : ds.length = es.length := by simpa using same
      have first : allowed d := left d List.mem_cons_self
      have second : allowed e := right e List.mem_cons_self
      have rest := ih lengths (fun x mem => left x (List.mem_cons_of_mem d mem)) fun x mem => right x (List.mem_cons_of_mem e mem)
      have below := value_lt fun x mem => ordered.below x (left x (List.mem_cons_of_mem d mem))
      have below' := value_lt fun x mem => ordered.below x (right x (List.mem_cons_of_mem e mem))
      rw [List.cons_lex_cons_iff, rest, ordered.order d e first second, value_cons, value_cons, lengths]
      rw [lengths] at below
      constructor
      · rintro (less | ⟨rfl,less⟩)
        · have step := Nat.mul_le_mul_right (base ^ es.length) (Nat.succ_le_of_lt less)
          rw [Nat.succ_mul] at step
          omega
        · omega
      · intro less
        rcases Nat.lt_trichotomy (digit d) (digit e) with lower | equal | higher
        · exact .inl lower
        · rw [equal] at less
          exact .inr ⟨ordered.distinct d e first second equal,by omega⟩
        · have step := Nat.mul_le_mul_right (base ^ es.length) (Nat.succ_le_of_lt higher)
          rw [Nat.succ_mul] at step
          omega

end Numerals
