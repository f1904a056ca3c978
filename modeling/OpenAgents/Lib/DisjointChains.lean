import Mathlib.Data.Set.Basic
import Mathlib.Logic.Function.Basic

/- Effects on a store of keys, waiting on chains.  The effects of one chain run in the order
   they were put there; nothing orders two chains.  While the chains touch disjoint keys,
   the store is on its way to the state that program order leads to. -/
namespace DisjointChains
open Function

variable {K V E I : Type}

/-- What an effect does to a store, and the keys outside which it reads and changes nothing. -/
structure Effects (K V E : Type) where
  run : E → (K → V) → K → V
  touches : E → Set K
  outside : ∀ effect store key, key ∉ touches effect → run effect store key = store key
  inside : ∀ effect one two, (∀ key ∈ touches effect, one key = two key) →
    ∀ key ∈ touches effect, run effect one key = run effect two key

namespace Effects

def runAll (F : Effects K V E) (effects : List E) (store : K → V) : K → V :=
  effects.foldl (fun store effect => F.run effect store) store

def touched (F : Effects K V E) (effects : List E) : Set K :=
  fun key => ∃ effect ∈ effects, key ∈ F.touches effect

end Effects

variable (F : Effects K V E)

@[simp] theorem runAll_cons (effect : E) (rest : List E) (store : K → V) :
    F.runAll (effect :: rest) store = F.runAll rest (F.run effect store) := rfl

theorem runAll_append (first second : List E) (store : K → V) :
    F.runAll (first ++ second) store = F.runAll second (F.runAll first store) := by
  unfold Effects.runAll
  rw [List.foldl_append]

@[simp] theorem mem_touched_nil (key : K) : key ∉ F.touched [] := by
  rintro ⟨effect,member,-⟩
  cases member

@[simp] theorem mem_touched_cons (key : K) (effect : E) (rest : List E) :
    key ∈ F.touched (effect :: rest) ↔ key ∈ F.touches effect ∨ key ∈ F.touched rest := by
  constructor
  · rintro ⟨found,member,touches⟩
    cases member with
    | head => exact .inl touches
    | tail _ later => exact .inr ⟨found,later,touches⟩
  · intro either
    rcases either with touches | ⟨found,later,touches⟩
    · exact ⟨effect,List.mem_cons_self,touches⟩
    · exact ⟨found,List.mem_cons_of_mem effect later,touches⟩

@[simp] theorem mem_touched_append (key : K) (first second : List E) :
    key ∈ F.touched (first ++ second) ↔ key ∈ F.touched first ∨ key ∈ F.touched second := by
  induction first with
  | nil => simp
  | cons effect rest ih => simp [ih, or_assoc]

theorem runAll_outside {effects : List E} {key : K} (apart : key ∉ F.touched effects) :
    ∀ store, F.runAll effects store key = store key := by
  induction effects with
  | nil =>
    intro store
    rfl
  | cons effect rest ih =>
    intro store
    rw [mem_touched_cons, not_or] at apart
    rw [runAll_cons, ih apart.2, F.outside effect store key apart.1]

/-- Two stores that agree on what the effects touch, and maybe on more, still do afterwards. -/
theorem runAll_agree {effects : List E} {keys : Set K} (covered : F.touched effects ⊆ keys) :
    ∀ {one two : K → V}, (∀ key ∈ keys, one key = two key) →
      ∀ key ∈ keys, F.runAll effects one key = F.runAll effects two key := by
  induction effects with
  | nil =>
    intro one two agree key member
    exact agree key member
  | cons effect rest ih =>
    intro one two agree
    have now : F.touches effect ⊆ keys :=
      fun key touches => covered ((mem_touched_cons F key effect rest).mpr (.inl touches))
    have later : F.touched rest ⊆ keys :=
      fun key touches => covered ((mem_touched_cons F key effect rest).mpr (.inr touches))
    have start : ∀ key ∈ keys, F.run effect one key = F.run effect two key := by
      intro key member
      by_cases touches : key ∈ F.touches effect
      · exact F.inside effect one two (fun other mine => agree other (now mine)) key touches
      · rw [F.outside effect one key touches, F.outside effect two key touches]
        exact agree key member
    exact ih later start

/-- The store lacks what waits on the chains, each of which completes its own keys. -/
structure Covers (store target : K → V) (waiting : I → List E) : Prop where
  ahead : ∀ i, ∀ key ∈ F.touched (waiting i), F.runAll (waiting i) store key = target key
  apart : ∀ i j key, key ∈ F.touched (waiting i) → key ∈ F.touched (waiting j) → i = j
  still : ∀ key, (∀ i, key ∉ F.touched (waiting i)) → store key = target key

namespace Covers

variable {F} {store target : K → V} {waiting : I → List E}

theorem settled (covers : Covers F store target waiting) (empty : ∀ i, waiting i = []) :
    store = target := by
  funext key
  refine covers.still key ?_
  intro i
  rw [empty i]
  exact mem_touched_nil F key

theorem of_settled (empty : ∀ i, waiting i = []) : Covers F store store waiting where
  ahead i key touches := by simp [empty] at touches
  apart i j key touches := by simp [empty] at touches
  still _ _ := rfl

variable [DecidableEq I]

/-- The first effect of any chain runs. -/
theorem complete (covers : Covers F store target waiting) {i : I} {effect : E} {rest : List E}
    (head : waiting i = effect :: rest) :
    Covers F (F.run effect store) target (update waiting i rest) := by
  have shrinks : ∀ j, F.touched (update waiting i rest j) ⊆ F.touched (waiting j) := by
    intro j key touches
    by_cases same : j = i
    · subst same
      rw [update_self] at touches
      rw [head, mem_touched_cons]
      exact .inr touches
    · rwa [update_of_ne same] at touches
  constructor
  · intro j key touches
    by_cases same : j = i
    · subst same
      have before := covers.ahead j key (shrinks j touches)
      rw [head, runAll_cons] at before
      rwa [update_self]
    · rw [update_of_ne same] at touches ⊢
      rw [← covers.ahead j key touches]
      refine runAll_agree F subset_rfl ?_ key touches
      intro other mine
      refine F.outside effect store other ?_
      intro theirs
      have both : other ∈ F.touched (waiting i) := by
        rw [head, mem_touched_cons]
        exact .inl theirs
      exact same (covers.apart j i other mine both)
  · intro j k key first second
    exact covers.apart j k key (shrinks j first) (shrinks k second)
  · intro key free
    have later : key ∉ F.touched rest := by
      have own := free i
      rwa [update_self] at own
    by_cases touches : key ∈ F.touches effect
    · have member : key ∈ F.touched (waiting i) := by
        rw [head, mem_touched_cons]
        exact .inl touches
      have before := covers.ahead i key member
      rwa [head, runAll_cons, runAll_outside F later] at before
    · rw [F.outside effect store key touches]
      refine covers.still key ?_
      intro j member
      by_cases same : j = i
      · subst same
        rw [head, mem_touched_cons] at member
        exact member.elim touches later
      · refine free j ?_
        rwa [update_of_ne same]

/-- More effects wait on a chain, on keys that no other chain touches. -/
theorem extend (covers : Covers F store target waiting) {i : I} {effects : List E}
    (free : ∀ j, j ≠ i → ∀ key ∈ F.touched effects, key ∉ F.touched (waiting j)) :
    Covers F store (F.runAll effects target) (update waiting i (waiting i ++ effects)) := by
  have reaches : ∀ key ∈ F.touched (waiting i) ∪ F.touched effects,
      F.runAll (waiting i) store key = target key := by
    intro key either
    by_cases own : key ∈ F.touched (waiting i)
    · exact covers.ahead i key own
    · have new := either.resolve_left own
      rw [runAll_outside F own]
      refine covers.still key ?_
      intro j
      by_cases same : j = i
      · rwa [same]
      · exact free j same key new
  constructor
  · intro j key touches
    by_cases same : j = i
    · subst same
      rw [update_self, mem_touched_append] at touches
      rw [update_self, runAll_append]
      exact runAll_agree F Set.subset_union_right reaches key touches
    · rw [update_of_ne same] at touches ⊢
      rw [covers.ahead j key touches, runAll_outside F]
      intro new
      exact free j same key new touches
  · intro j k key first second
    by_cases one : j = i
    · by_cases two : k = i
      · rw [one, two]
      · subst one
        rw [update_self, mem_touched_append] at first
        rw [update_of_ne two] at second
        rcases first with own | new
        · exact covers.apart j k key own second
        · exact absurd second (free k two key new)
    · rw [update_of_ne one] at first
      by_cases two : k = i
      · subst two
        rw [update_self, mem_touched_append] at second
        rcases second with own | new
        · exact covers.apart j k key first own
        · exact absurd first (free j one key new)
      · rw [update_of_ne two] at second
        exact covers.apart j k key first second
  · intro key none
    have own := none i
    rw [update_self, mem_touched_append, not_or] at own
    rw [runAll_outside F own.2]
    refine covers.still key ?_
    intro j
    by_cases same : j = i
    · rw [same]
      exact own.1
    · have others := none j
      rwa [update_of_ne same] at others

end Covers

end DisjointChains
