import OpenAgents.Lib.JsText

/- Anchored matching with backtracking. `run` lists the remainders of every
   match from the start of the subject, in the order a greedy engine tries them. -/
namespace BacktrackingRegex
open JsText

inductive Regex where
  | set (accepts : CodeUnit → Bool)
  | literal (token : JsString)
  | seq (first second : Regex)
  | alt (first second : Regex)
  | star (body : Regex)
  | optional (body : Regex)
  | endOfInput

def one (c : CodeUnit) : Regex := .set (· == c)
def anyOf (units : JsString) : Regex := .set (units.contains ·)
def plus (body : Regex) : Regex := .seq body (.star body)

def concat : List Regex → Regex
  | [] => .literal []
  | [r] => r
  | r :: rest => .seq r (concat rest)

/- An iteration that consumes nothing is not repeated, so the subject length bounds the depth. -/
def starRun (body : JsString → List JsString) : Nat → JsString → List JsString
  | 0, s => [s]
  | depth + 1, s =>
      ((body s).filter fun rest => rest.length < s.length).flatMap (starRun body depth) ++ [s]

def run : Regex → JsString → List JsString
  | .set accepts, s =>
      match s with
      | [] => []
      | c :: rest => if accepts c then [rest] else []
  | .literal token, s => if token.isPrefixOf s then [s.drop token.length] else []
  | .seq first second, s => (run first s).flatMap (run second)
  | .alt first second, s => run first s ++ run second s
  | .star body, s => starRun (run body) s.length s
  | .optional body, s => run body s ++ [s]
  | .endOfInput, s => if s.isEmpty then [s] else []

def test (r : Regex) (s : JsString) : Bool := !(run r s).isEmpty

/- `{0,n}`, greedy. -/
def upTo : Nat → Regex → Regex
  | 0, _ => .literal []
  | n + 1, body => .optional (.seq body (upTo n body))

/- A lower-case token under the `i` flag. -/
def ignoreCase (token : JsString) : Regex := concat (token.map fun c => .set fun d => d == c || d + 32 == c)

/- The texts a match can consume. An assertion about the end consumes nothing and is not local. -/
def Matches : Regex → JsString → Prop
  | .set accepts, m => ∃ c, m = [c] ∧ accepts c = true
  | .literal token, m => m = token
  | .seq first second, m => ∃ x y, m = x ++ y ∧ Matches first x ∧ Matches second y
  | .alt first second, m => Matches first m ∨ Matches second m
  | .star body, m => ∃ parts : List JsString, m = parts.flatten ∧ ∀ part ∈ parts, Matches body part
  | .optional body, m => Matches body m ∨ m = []
  | .endOfInput, m => m = []

def isLocal : Regex → Bool
  | .set _ => true
  | .literal _ => true
  | .seq first second => isLocal first && isLocal second
  | .alt first second => isLocal first && isLocal second
  | .star body => isLocal body
  | .optional body => isLocal body
  | .endOfInput => false

theorem mem_starRun {body : JsString → List JsString} {consumes : JsString → Prop}
    (spec : ∀ s rest, rest ∈ body s ↔ ∃ m, s = m ++ rest ∧ consumes m) (depth : Nat) (s rest : JsString)
    (enough : s.length ≤ depth) :
    rest ∈ starRun body depth s ↔
      ∃ parts : List JsString, s = parts.flatten ++ rest ∧ ∀ part ∈ parts, consumes part := by
  constructor
  · intro mem
    clear enough
    induction depth generalizing s with
    | zero =>
      obtain rfl : rest = s := by simpa [starRun] using mem
      exact ⟨[],rfl,by simp⟩
    | succ depth ih =>
      rcases List.mem_append.mp mem with iterated | stopped
      · obtain ⟨next,shorter,later⟩ := List.mem_flatMap.mp iterated
        obtain ⟨m,taken,consumed⟩ := (spec s next).mp (List.mem_filter.mp shorter).1
        obtain ⟨parts,rfl,all⟩ := ih next later
        refine ⟨m :: parts,by simp [taken],?_⟩
        intro part mem
        rcases List.mem_cons.mp mem with rfl | among
        · exact consumed
        · exact all part among
      · obtain rfl : rest = s := by simpa using stopped
        exact ⟨[],rfl,by simp⟩
  · intro split
    obtain ⟨parts,text,all⟩ := split
    induction parts generalizing s depth with
    | nil =>
      obtain rfl : s = rest := by simpa using text
      cases depth with
      | zero => simp [starRun]
      | succ depth => simp [starRun]
    | cons part parts ih =>
      have later : ∀ other ∈ parts, consumes other := fun other mem => all other (List.mem_cons_of_mem _ mem)
      cases part with
      | nil => exact ih depth s enough (by simpa using text) later
      | cons c part =>
        cases depth with
        | zero =>
          rw [text] at enough
          simp at enough
        | succ depth =>
          have shorter : (parts.flatten ++ rest).length < s.length := by
            rw [text]
            simp only [List.flatten_cons, List.cons_append, List.length_cons, List.append_assoc, List.length_append]
            omega
          have here : parts.flatten ++ rest ∈ body s :=
            (spec _ _).mpr ⟨c :: part,by simp [text],all _ List.mem_cons_self⟩
          refine List.mem_append_left _ (List.mem_flatMap.mpr ⟨parts.flatten ++ rest,?_,?_⟩)
          · exact List.mem_filter.mpr ⟨here,by simpa using shorter⟩
          · exact ih depth _ (by omega) rfl later

/-- A local expression matches by what it consumes, whatever follows. -/
theorem mem_run (r : Regex) (noLook : isLocal r = true) (s rest : JsString) :
    rest ∈ run r s ↔ ∃ m, s = m ++ rest ∧ Matches r m := by
  induction r generalizing s rest with
  | set accepts =>
    cases s with
    | nil => simp [run, Matches]
    | cons c tail =>
      by_cases taken : accepts c = true
      · simp only [run, taken, if_true, List.mem_singleton, Matches]
        constructor
        · rintro rfl
          exact ⟨[c],rfl,c,rfl,taken⟩
        · rintro ⟨m,text,d,rfl,-⟩
          exact (List.cons.inj text).2.symm
      · simp only [run, taken, Matches]
        constructor
        · simp
        · rintro ⟨m,text,d,rfl,accepted⟩
          obtain rfl : c = d := (List.cons.inj text).1
          exact absurd accepted taken
  | literal token =>
    by_cases here : token.isPrefixOf s = true
    · obtain ⟨tail,rfl⟩ := List.isPrefixOf_iff_prefix.mp here
      simp only [run, here, if_true, List.drop_left, List.mem_singleton, Matches]
      constructor
      · rintro rfl
        exact ⟨token,rfl,rfl⟩
      · rintro ⟨m,text,rfl⟩
        exact (List.append_cancel_left text).symm
    · simp only [run, here, Matches]
      constructor
      · simp
      · rintro ⟨m,rfl,rfl⟩
        exact absurd (List.isPrefixOf_iff_prefix.mpr (List.prefix_append _ _)) here
  | seq first second ihFirst ihSecond =>
    obtain ⟨localFirst,localSecond⟩ : isLocal first = true ∧ isLocal second = true := by
      simpa [isLocal] using noLook
    simp only [run, List.mem_flatMap, ihFirst localFirst, ihSecond localSecond, Matches]
    constructor
    · rintro ⟨mid,⟨x,rfl,matchFirst⟩,y,rfl,matchSecond⟩
      exact ⟨x ++ y,by simp,x,y,rfl,matchFirst,matchSecond⟩
    · rintro ⟨m,rfl,x,y,rfl,matchFirst,matchSecond⟩
      exact ⟨y ++ rest,⟨x,by simp,matchFirst⟩,y,rfl,matchSecond⟩
  | alt first second ihFirst ihSecond =>
    obtain ⟨localFirst,localSecond⟩ : isLocal first = true ∧ isLocal second = true := by
      simpa [isLocal] using noLook
    simp only [run, List.mem_append, ihFirst localFirst, ihSecond localSecond, Matches, and_or_left, exists_or]
  | star body ih =>
    rw [run, mem_starRun (fun s rest => ih noLook s rest) s.length s rest (Nat.le_refl _)]
    simp only [Matches]
    constructor
    · rintro ⟨parts,text,all⟩
      exact ⟨parts.flatten,text,parts,rfl,all⟩
    · rintro ⟨m,text,parts,rfl,all⟩
      exact ⟨parts,text,all⟩
  | optional body ih =>
    simp only [run, List.mem_append, ih noLook, List.mem_singleton, Matches, and_or_left, exists_or]
    constructor
    · rintro (found | rfl)
      · exact .inl found
      · exact .inr ⟨[],rfl,rfl⟩
    · rintro (found | ⟨m,rfl,rfl⟩)
      · exact .inl found
      · exact .inr rfl
  | endOfInput => simp [isLocal] at noLook

variable {r : Regex} {s rest m : JsString} {accepts : CodeUnit → Bool} {n : Nat} {c : CodeUnit}

theorem test_iff (noLook : isLocal r = true) (s : JsString) : test r s = true ↔ ∃ m rest, s = m ++ rest ∧ Matches r m := by
  have found : test r s = true ↔ ∃ rest, rest ∈ run r s := by
    rw [test, Bool.not_eq_true', List.isEmpty_eq_false_iff_exists_mem]
  rw [found]
  simp only [mem_run r noLook]
  exact ⟨fun ⟨rest,m,text,taken⟩ => ⟨m,rest,text,taken⟩,
    fun ⟨m,rest,text,taken⟩ => ⟨rest,m,text,taken⟩⟩

/-- The first remainder is the match a greedy engine reports. -/
theorem first_seq {first second : Regex} {s mid rest : JsString} (firstRun : (run first s).head? = some mid)
    (secondRun : (run second mid).head? = some rest) : (run (.seq first second) s).head? = some rest := by
  cases firstRest : run first s with
  | nil => simp [firstRest] at firstRun
  | cons head tail =>
    obtain rfl : head = mid := by simpa [firstRest] using firstRun
    simp [run, firstRest, secondRun]

theorem first_suffix (noLook : isLocal r = true) (found : (run r s).head? = some rest) : rest <:+ s := by
  obtain ⟨m,text,-⟩ := (mem_run r noLook s rest).mp (List.mem_of_mem_head? found)
  exact ⟨m,text.symm⟩

theorem first_exists (noLook : isLocal r = true) (empty : Matches r []) (s : JsString) :
    ∃ rest, (run r s).head? = some rest ∧ rest <:+ s := by
  have here : s ∈ run r s := (mem_run r noLook s s).mpr ⟨[],rfl,empty⟩
  cases found : (run r s).head? with
  | none =>
    rw [List.head?_eq_none_iff.mp found] at here
    exact absurd here List.not_mem_nil
  | some rest => exact ⟨rest,rfl,first_suffix noLook found⟩

theorem local_upTo (body : Regex) (noLook : isLocal body = true) (n : Nat) : isLocal (upTo n body) = true := by
  induction n with
  | zero => rfl
  | succ n ih => simp [upTo, isLocal, noLook, ih]

theorem matches_upTo (taken : Matches (upTo n (.set accepts)) m) : ∀ c ∈ m, accepts c = true := by
  induction n generalizing m with
  | zero =>
    obtain rfl : m = [] := taken
    simp
  | succ n ih =>
    rcases taken with ⟨x,y,rfl,⟨c,rfl,accepted⟩,later⟩ | rfl
    · intro d mem
      rcases List.mem_cons.mp mem with rfl | among
      · exact accepted
      · exact ih later d among
    · simp

theorem upTo_empty (n : Nat) (body : Regex) : Matches (upTo n body) [] := by
  cases n with
  | zero => rfl
  | succ n => exact .inr rfl

theorem star_empty (body : Regex) : Matches (.star body) [] := ⟨[],rfl,by simp⟩

theorem matches_star (taken : Matches (.star (.set accepts)) m) : ∀ c ∈ m, accepts c = true := by
  obtain ⟨parts,rfl,all⟩ := taken
  intro c mem
  obtain ⟨part,among,inside⟩ := List.mem_flatten.mp mem
  obtain ⟨d,rfl,accepted⟩ := all part among
  obtain rfl : c = d := by simpa using inside
  exact accepted

/-- A greedy repetition of a class takes a unit of the class when one stands first. -/
theorem first_star_cons (tail : JsString) (accepted : accepts c = true) :
    (run (.star (.set accepts)) (c :: tail)).head? = (run (.star (.set accepts)) tail).head? := by
  obtain ⟨rest,found,-⟩ := first_exists (r := .star (.set accepts)) rfl (star_empty _) tail
  have inner : (starRun (run (.set accepts)) tail.length tail).head? = some rest := found
  have step : run (.star (.set accepts)) (c :: tail) =
      starRun (run (.set accepts)) tail.length tail ++ [c :: tail] := by
    simp [run, starRun, accepted]
  rw [step, List.head?_append, inner, found]
  rfl

theorem first_star_stop (refused : ∀ c ∈ s.head?, accepts c = false) : (run (.star (.set accepts)) s).head? = some s := by
  cases s with
  | nil => rfl
  | cons c tail => simp [run, starRun, refused c rfl]

theorem run_star_stop (refused : ∀ c ∈ s.head?, accepts c = false) : run (.star (.set accepts)) s = [s] := by
  cases s with
  | nil => rfl
  | cons c tail => simp [run, starRun, refused c rfl]

/-- A greedy repetition of a class takes the whole run of its units. -/
theorem first_star_all (all : ∀ c ∈ m, accepts c = true) (stop : ∀ c ∈ rest.head?, accepts c = false) : (run (.star (.set accepts)) (m ++ rest)).head? = some rest := by
  induction m with
  | nil => exact first_star_stop stop
  | cons c m ih =>
    rw [List.cons_append, first_star_cons (m ++ rest) (all c List.mem_cons_self)]
    exact ih fun d mem => all d (List.mem_cons_of_mem c mem)

theorem literal_refused {c d : CodeUnit} (token rest : JsString) (other : c ≠ d) :
    run (.literal (d :: token)) (c :: rest) = [] := by
  have apart : (d == c) = false := beq_false_of_ne fun same => other same.symm
  simp [run, List.isPrefixOf, apart]

theorem first_upTo_cons (tail : JsString) (accepted : accepts c = true) :
    (run (upTo (n + 1) (.set accepts)) (c :: tail)).head? = (run (upTo n (.set accepts)) tail).head? := by
  obtain ⟨rest,found,-⟩ := first_exists (local_upTo (.set accepts) rfl n) (upTo_empty n _) tail
  simp [upTo, run, accepted, found]

theorem first_upTo_stop (refused : ∀ c ∈ s.head?, accepts c = false) : (run (upTo n (.set accepts)) s).head? = some s := by
  cases n with
  | zero => simp [upTo, run]
  | succ n =>
    cases s with
    | nil => simp [upTo, run]
    | cons c tail => simp [upTo, run, refused c rfl]

end BacktrackingRegex
