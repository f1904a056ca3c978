import Mathlib.Data.List.Basic
import Mathlib.Data.List.TakeWhile
import OpenAgents.Lib.WhileLoop

/- Text in which some symbols may open a marked sequence: it is scanned by sequences and the runs between
   them, or symbol by symbol. -/
namespace RunScanner
open WhileLoop
variable {α S : Type}

/-- Which symbols may open a sequence, and how long the sequence at the front of a text is, if one is. -/
structure Marks (α : Type) where
  opens : α → Bool
  sequence : List α → Option Nat
  begins : ∀ text n, sequence text = some n → 1 < n ∧ n ≤ text.length
  opened : ∀ c rest n, sequence (c :: rest) = some n → opens c = true
  settled : ∀ text n later, sequence text = some n → sequence (text.take n ++ later) = some n

inductive Piece (α : Type) where
  | sequence (symbols : List α)
  | lone (c : α)
  | run (symbols : List α)
  deriving DecidableEq

def Piece.text : Piece α → List α
  | .sequence symbols => symbols
  | .lone c => [c]
  | .run symbols => symbols

structure Scanner (α S : Type) where
  running : S → Bool
  sequence : S → List α → S
  lone : S → α → S
  run : S → List α → S × Bool

/- Symbol by symbol, past the sequences. -/
structure UnitScanner (α S : Type) where
  sequence : S → List α → S
  unit : S → α → S × Bool

variable (m : Marks α)

def beforeMark (text : List α) : List α := text.takeWhile fun c => !m.opens c
def fromMark (text : List α) : List α := text.dropWhile fun c => !m.opens c

def scanStep (scanner : Scanner α S) : S × List α → (S × List α) ⊕ (S × List α)
  | (s, []) => .inr (s, [])
  | (s, c :: rest) =>
      if !scanner.running s then .inr (s, c :: rest)
      else if m.opens c then
        match m.sequence (c :: rest) with
        | some n => .inl (scanner.sequence s ((c :: rest).take n), (c :: rest).drop n)
        | none => .inl (scanner.lone s c, rest)
      else
        let (next, goesOn) := scanner.run s (beforeMark m (c :: rest))
        if goesOn then .inl (next, fromMark m (c :: rest)) else .inr (next, fromMark m (c :: rest))

def unitStep (scanner : UnitScanner α S) : S × List α → (S × List α) ⊕ S
  | (s, []) => .inr s
  | (s, c :: rest) =>
      match m.sequence (c :: rest) with
      | some n => .inl (scanner.sequence s ((c :: rest).take n), (c :: rest).drop n)
      | none =>
          let (next, goesOn) := scanner.unit s c
          if goesOn then .inl (next, rest) else .inr next

theorem fromMark_length (text : List α) : (fromMark m text).length ≤ text.length :=
  (List.dropWhile_sublist _).length_le

theorem fromMark_shorter {c : α} {rest : List α} (plain : m.opens c = false) :
    (fromMark m (c :: rest)).length < (c :: rest).length := by
  rw [fromMark, List.dropWhile_cons_of_pos (by simp [plain])]
  exact Nat.lt_succ_of_le (fromMark_length m rest)

theorem sequence_shorter {text : List α} {n : Nat} (found : m.sequence text = some n) :
    (text.drop n).length < text.length := by
  have long := m.begins text n found
  rw [List.length_drop]
  omega

/-- The text as the scanners cut it. -/
def pieces : List α → List (Piece α)
  | [] => []
  | c :: rest =>
      if _plain : m.opens c = false then .run (beforeMark m (c :: rest)) :: pieces (fromMark m (c :: rest))
      else
        match _found : m.sequence (c :: rest) with
        | some n => .sequence ((c :: rest).take n) :: pieces ((c :: rest).drop n)
        | none => .lone c :: pieces rest
termination_by text => text.length
decreasing_by
  · exact fromMark_shorter m _plain
  · exact sequence_shorter m _found
  · exact Nat.lt_succ_self _

/-- Its sequences and its single symbols. -/
def symbols : List α → List (List α ⊕ α)
  | [] => []
  | c :: rest =>
      match _found : m.sequence (c :: rest) with
      | some n => .inl ((c :: rest).take n) :: symbols ((c :: rest).drop n)
      | none => .inr c :: symbols rest
termination_by text => text.length
decreasing_by
  · exact sequence_shorter m _found
  · exact Nat.lt_succ_self _

def Piece.symbols : Piece α → List (List α ⊕ α)
  | .sequence q => [.inl q]
  | .lone c => [.inr c]
  | .run units => units.map .inr

section equations
variable {m} {c : α} {rest : List α}

@[simp] theorem pieces_nil : pieces m [] = [] := by rw [pieces]

theorem pieces_run (plain : m.opens c = false) :
    pieces m (c :: rest) = .run (beforeMark m (c :: rest)) :: pieces m (fromMark m (c :: rest)) := by
  rw [pieces, dif_pos plain]

theorem pieces_sequence {n : Nat} (found : m.sequence (c :: rest) = some n) :
    pieces m (c :: rest) = .sequence ((c :: rest).take n) :: pieces m ((c :: rest).drop n) := by
  have marked := m.opened c rest n found
  rw [pieces, dif_neg (by simp [marked])]
  split
  · rename_i k found'
    obtain rfl : n = k := Option.some.inj (found.symm.trans found')
    rfl
  · rename_i found'
    cases found.symm.trans found'

theorem pieces_lone (marked : m.opens c = true) (none : m.sequence (c :: rest) = none) :
    pieces m (c :: rest) = .lone c :: pieces m rest := by
  rw [pieces, dif_neg (by simp [marked])]
  split
  · rename_i found
    cases found.symm.trans none
  · rfl

@[simp] theorem symbols_nil : symbols m [] = [] := by rw [symbols]

theorem symbols_sequence {n : Nat} (found : m.sequence (c :: rest) = some n) :
    symbols m (c :: rest) = .inl ((c :: rest).take n) :: symbols m ((c :: rest).drop n) := by
  rw [symbols]
  split
  · rename_i k found'
    obtain rfl : n = k := Option.some.inj (found.symm.trans found')
    rfl
  · rename_i found'
    cases found.symm.trans found'

theorem symbols_unit (none : m.sequence (c :: rest) = none) : symbols m (c :: rest) = .inr c :: symbols m rest := by
  rw [symbols]
  split
  · rename_i found
    cases found.symm.trans none
  · rfl

theorem symbols_plain (plain : m.opens c = false) : symbols m (c :: rest) = .inr c :: symbols m rest := by
  cases found : m.sequence (c :: rest) with
  | none => exact symbols_unit found
  | some n => simp [m.opened c rest n found] at plain

end equations

/- Every text is empty, or begins with a run, a sequence or a lone mark. -/
theorem text_cases {motive : List α → Prop} (nil : motive [])
    (run : ∀ c rest, m.opens c = false → motive (fromMark m (c :: rest)) → motive (c :: rest))
    (sequence : ∀ c rest n, m.sequence (c :: rest) = some n → motive ((c :: rest).drop n) → motive (c :: rest))
    (lone : ∀ c rest, m.opens c = true → m.sequence (c :: rest) = none → motive rest → motive (c :: rest))
    (text : List α) : motive text := by
  induction size : text.length using Nat.strongRecOn generalizing text with
  | ind size ih =>
    subst size
    cases text with
    | nil => exact nil
    | cons c rest =>
      by_cases plain : m.opens c = false
      · exact run c rest plain (ih _ (fromMark_shorter m plain) _ rfl)
      · cases found : m.sequence (c :: rest) with
        | some n => exact sequence c rest n found (ih _ (sequence_shorter m found) _ rfl)
        | none => exact lone c rest (by simpa using plain) found (ih _ (Nat.lt_succ_self _) _ rfl)

theorem before_from (text : List α) : beforeMark m text ++ fromMark m text = text := List.takeWhile_append_dropWhile

theorem beforeMark_plain (text : List α) : ∀ c ∈ beforeMark m text, m.opens c = false := by
  intro c mem
  simpa using List.mem_takeWhile_imp mem

theorem pieces_text (text : List α) : (pieces m text).flatMap Piece.text = text := by
  induction text using text_cases m with
  | nil => rw [pieces_nil]; rfl
  | run c rest plain ih => rw [pieces_run plain, List.flatMap_cons, ih, Piece.text, before_from]
  | sequence c rest n found ih => rw [pieces_sequence found, List.flatMap_cons, ih, Piece.text, List.take_append_drop]
  | lone c rest marked none ih => rw [pieces_lone marked none, List.flatMap_cons, ih]; rfl

theorem symbols_run {run : List α} (plain : ∀ c ∈ run, m.opens c = false) (later : List α) :
    symbols m (run ++ later) = run.map .inr ++ symbols m later := by
  induction run with
  | nil => rfl
  | cons c run ih =>
    rw [List.cons_append, symbols_plain (plain c (by simp)), ih fun d mem => plain d (by simp [mem])]
    rfl

theorem symbols_pieces (text : List α) : symbols m text = (pieces m text).flatMap Piece.symbols := by
  induction text using text_cases m with
  | nil => rw [pieces_nil, symbols_nil]; rfl
  | run c rest plain ih =>
    rw [pieces_run plain, List.flatMap_cons, ← ih, Piece.symbols, ← symbols_run m (beforeMark_plain m _), before_from]
  | sequence c rest n found ih => rw [pieces_sequence found, symbols_sequence found, List.flatMap_cons, ← ih, Piece.symbols, List.singleton_append]
  | lone c rest marked none ih =>
    rw [pieces_lone marked none, symbols_unit none, List.flatMap_cons, ← ih, Piece.symbols, List.singleton_append]

/-- What the scanner does piece by piece: the state it leaves, and the pieces it has not read. -/
def runPieces (scanner : Scanner α S) : S → List (Piece α) → S × List (Piece α)
  | s, [] => (s, [])
  | s, piece :: later =>
      if !scanner.running s then (s, piece :: later)
      else
        match piece with
        | .sequence q => runPieces scanner (scanner.sequence s q) later
        | .lone c => runPieces scanner (scanner.lone s c) later
        | .run run =>
            let (next, goesOn) := scanner.run s run
            if goesOn then runPieces scanner next later else (next, later)

section equations
variable {scanner : Scanner α S} {s : S}

theorem runPieces_stopped (off : scanner.running s = false) (left : List (Piece α)) : runPieces scanner s left = (s, left) := by
  cases left with
  | nil => rfl
  | cons piece later => simp [runPieces, off]

theorem runPieces_sequence (on : scanner.running s = true) (q : List α) (later : List (Piece α)) :
    runPieces scanner s (.sequence q :: later) = runPieces scanner (scanner.sequence s q) later := by
  simp [runPieces, on]

theorem runPieces_lone (on : scanner.running s = true) (c : α) (later : List (Piece α)) :
    runPieces scanner s (.lone c :: later) = runPieces scanner (scanner.lone s c) later := by
  simp [runPieces, on]

theorem runPieces_goes (on : scanner.running s = true) {units : List α} {next : S} (ran : scanner.run s units = (next, true))
    (later : List (Piece α)) : runPieces scanner s (.run units :: later) = runPieces scanner next later := by
  simp [runPieces, on, ran]

theorem runPieces_halts (on : scanner.running s = true) {units : List α} {next : S} (ran : scanner.run s units = (next, false))
    (later : List (Piece α)) : runPieces scanner s (.run units :: later) = (next, later) := by
  simp [runPieces, on, ran]

end equations

def runSymbols (scanner : UnitScanner α S) : S → List (List α ⊕ α) → S
  | s, [] => s
  | s, .inl q :: later => runSymbols scanner (scanner.sequence s q) later
  | s, .inr c :: later =>
      let (next, goesOn) := scanner.unit s c
      if goesOn then runSymbols scanner next later else next

variable {fuel n : Nat} {q : List α}

/-- The scan of a text is the run over its pieces. -/
theorem scan_pieces (scanner : Scanner α S) (s : S) (text : List α) (enough : text.length < fuel) :
    loop (scanStep m scanner) fuel (s, text) =
      some ((runPieces scanner s (pieces m text)).1, (runPieces scanner s (pieces m text)).2.flatMap Piece.text) := by
  induction text using text_cases m generalizing s fuel with
  | nil =>
    obtain ⟨fuel,rfl⟩ : ∃ k, fuel = k + 1 := ⟨fuel - 1,by omega⟩
    rw [pieces_nil]
    rfl
  | run c rest plain ih =>
    obtain ⟨fuel,rfl⟩ : ∃ k, fuel = k + 1 := ⟨fuel - 1,by omega⟩
    have shorter := @fromMark_shorter _ m _ rest plain
    rw [pieces_run plain, runPieces]
    cases on : scanner.running s with
    | false =>
      rw [@loop_leaves _ _ _ _ (s, c :: rest) (by simp [scanStep, on])]
      simp only [Bool.not_false, if_true, List.flatMap_cons, pieces_text, Piece.text, before_from]
    | true =>
      cases ran : scanner.run s (beforeMark m (c :: rest)) with
      | mk next goesOn =>
        cases goesOn with
        | true =>
          rw [@loop_next _ _ _ _ (next, fromMark m (c :: rest)) (by simp [scanStep, on, plain, ran]), ih next (by omega)]
          simp
        | false =>
          rw [@loop_leaves _ _ _ _ (next, fromMark m (c :: rest)) (by simp [scanStep, on, plain, ran])]
          simp [pieces_text]
  | sequence c rest n found ih =>
    obtain ⟨fuel,rfl⟩ : ∃ k, fuel = k + 1 := ⟨fuel - 1,by omega⟩
    have shorter := sequence_shorter m found
    have marked := m.opened c rest n found
    rw [pieces_sequence found, runPieces]
    cases on : scanner.running s with
    | false =>
      rw [@loop_leaves _ _ _ _ (s, c :: rest) (by simp [scanStep, on])]
      simp only [Bool.not_false, if_true, List.flatMap_cons, pieces_text, Piece.text, List.take_append_drop]
    | true =>
      rw [@loop_next _ _ _ _ (scanner.sequence s ((c :: rest).take n), (c :: rest).drop n)
        (by simp [scanStep, on, marked, found]), ih _ (by omega)]
      simp
  | lone c rest marked none ih =>
    obtain ⟨fuel,rfl⟩ : ∃ k, fuel = k + 1 := ⟨fuel - 1,by omega⟩
    rw [pieces_lone marked none, runPieces]
    cases on : scanner.running s with
    | false =>
      rw [@loop_leaves _ _ _ _ (s, c :: rest) (by simp [scanStep, on])]
      simp [pieces_text, Piece.text]
    | true =>
      rw [@loop_next _ _ _ _ (scanner.lone s c, rest) (by simp [scanStep, on, marked, none]),
        ih _ (by rw [List.length_cons] at enough; omega)]
      simp

theorem unitScan_symbols (scanner : UnitScanner α S) (s : S) (text : List α) (enough : text.length < fuel) :
    loop (unitStep m scanner) fuel (s, text) = some (runSymbols scanner s (symbols m text)) := by
  induction fuel generalizing s text with
  | zero => omega
  | succ fuel ih =>
    cases text with
    | nil => rw [symbols_nil]; rfl
    | cons c rest =>
      cases found : m.sequence (c :: rest) with
      | some n =>
        have shorter := sequence_shorter m found
        rw [symbols_sequence found, @loop_next _ _ _ _ (scanner.sequence s ((c :: rest).take n), (c :: rest).drop n)
          (by simp [unitStep, found]), ih _ _ (by omega)]
        rfl
      | none =>
        rw [symbols_unit found, runSymbols]
        cases goes : scanner.unit s c with
        | mk next goesOn =>
          cases goesOn with
          | true =>
            rw [@loop_next _ _ _ _ (next, rest) (by simp [unitStep, found, goes]), ih _ _ (by rw [List.length_cons] at enough; omega)]
            rfl
          | false =>
            rw [@loop_leaves _ _ _ _ next (by simp [unitStep, found, goes])]
            rfl

/- A text that later text cannot change: each mark in it opens a sequence that it holds whole. -/
def Settled (text : List α) : Prop := ∀ c, .inr c ∈ symbols m text → m.opens c = false

theorem symbols_append {text : List α} (settled : Settled m text) (later : List α) :
    symbols m (text ++ later) = symbols m text ++ symbols m later := by
  induction size : text.length using Nat.strongRecOn generalizing text with
  | ind size ih =>
    subst size
    cases text with
    | nil => rw [symbols_nil]; rfl
    | cons c rest =>
      cases found : m.sequence (c :: rest) with
      | some n =>
        have shorter := sequence_shorter m found
        have long := m.begins _ n found
        have still := m.settled _ n ((c :: rest).drop n ++ later) found
        rw [← List.append_assoc, List.take_append_drop] at still
        have here : Settled m ((c :: rest).drop n) := by
          intro d mem
          exact settled d (by rw [symbols_sequence found]; exact List.mem_cons_of_mem _ mem)
        rw [symbols_sequence found, List.cons_append, symbols_sequence (by rw [← List.cons_append]; exact still), ← List.cons_append,
          List.take_append_of_le_length long.2, List.drop_append_of_le_length long.2, ih _ shorter here rfl]
        rfl
      | none =>
        have plain : m.opens c = false := settled c (by rw [symbols_unit found]; exact List.mem_cons_self)
        have here : Settled m rest := by
          intro d mem
          exact settled d (by rw [symbols_unit found]; exact List.mem_cons_of_mem _ mem)
        rw [symbols_plain plain, List.cons_append, symbols_plain plain, ih rest.length (Nat.lt_succ_self _) here rfl]
        rfl

theorem symbols_whole (whole : m.sequence q = some q.length) : symbols m q = [.inl q] := by
  cases q with
  | nil => exact absurd (m.begins _ _ whole).1 (by simp)
  | cons c rest =>
    rw [symbols_sequence whole, List.take_length, List.drop_length, symbols_nil]

theorem settled_whole (whole : m.sequence q = some q.length) : Settled m q := by
  intro c mem
  rw [symbols_whole m whole] at mem
  simp at mem

theorem whole_before (whole : m.sequence q = some q.length) (later : List α) : m.sequence (q ++ later) = some q.length := by
  have alone := m.settled q q.length later whole
  rwa [List.take_length] at alone

theorem pieces_whole_append (whole : m.sequence q = some q.length) (later : List α) :
    pieces m (q ++ later) = .sequence q :: pieces m later := by
  have found := whole_before m whole later
  cases q with
  | nil => exact absurd (m.begins _ _ whole).1 (by simp)
  | cons c rest =>
    rw [List.cons_append] at found ⊢
    rw [pieces_sequence found, ← List.cons_append, List.take_left, List.drop_left]

theorem symbols_whole_append (whole : m.sequence q = some q.length) (later : List α) :
    symbols m (q ++ later) = .inl q :: symbols m later := by
  rw [symbols_append m (settled_whole m whole), symbols_whole m whole]
  rfl

theorem settled_whole_append (whole : m.sequence q = some q.length) (later : List α) :
    Settled m (q ++ later) ↔ Settled m later := by
  rw [Settled, symbols_whole_append m whole]
  simp [Settled]

theorem settled_sequence {c : α} {rest : List α} (found : m.sequence (c :: rest) = some n) :
    Settled m (c :: rest) ↔ Settled m ((c :: rest).drop n) := by
  rw [Settled, symbols_sequence found]
  simp [Settled]

theorem settled_run {run : List α} (plain : ∀ c ∈ run, m.opens c = false) (later : List α) :
    Settled m (run ++ later) ↔ Settled m later := by
  rw [Settled, symbols_run m plain]
  constructor
  · intro all c mem
    exact all c (List.mem_append.mpr (.inr mem))
  · intro all c mem
    rcases List.mem_append.mp mem with here | there
    · obtain ⟨d,here,same⟩ := List.mem_map.mp here
      cases same
      exact plain c here
    · exact all c there

theorem settled_fromMark (text : List α) : Settled m (fromMark m text) ↔ Settled m text := by
  rw [← settled_run m (beforeMark_plain m text), before_from]

theorem settled_append {text later : List α} (settled : Settled m text) (alike : Settled m later) : Settled m (text ++ later) := by
  intro c mem
  rw [symbols_append m settled, List.mem_append] at mem
  exact mem.elim (settled c) (alike c)

theorem settled_plain {run : List α} (plain : ∀ c ∈ run, m.opens c = false) : Settled m run := by
  intro c mem
  rw [← List.append_nil run, symbols_run m plain, symbols_nil, List.append_nil] at mem
  obtain ⟨d,here,same⟩ := List.mem_map.mp mem
  cases same
  exact plain c here

/-- A sequence of a text, taken out, is a sequence by itself. -/
theorem piece_whole {text : List α} (found : m.sequence text = some n) :
    m.sequence (text.take n) = some (text.take n).length := by
  have alone := m.settled text n [] found
  have long := m.begins text n found
  rw [List.append_nil] at alone
  rw [alone, List.length_take, Nat.min_eq_left long.2]

end RunScanner
