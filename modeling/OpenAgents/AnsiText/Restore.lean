import Mathlib.Tactic.IntervalCases
import OpenAgents.AnsiText.Wrap

/- The sequences the library writes itself: each is one SGR sequence, and the restoring one brings a fresh
   terminal to the state it was written for. -/
namespace AnsiText
open JsText WhileLoop RunScanner

def joinCodes (codes : List JsString) : JsString := [semicolon].intercalate codes

def Digits (code : JsString) : Prop := ∀ c ∈ code, isDigit c = true

theorem joinCodes_cons (code other : JsString) (codes : List JsString) :
    joinCodes (code :: other :: codes) = code ++ semicolon :: joinCodes (other :: codes) := by
  simp [joinCodes, List.intercalate]

variable {codes : List JsString} {n : Nat}

theorem joinCodes_units (digits : ∀ code ∈ codes, Digits code) :
    ∀ c ∈ joinCodes codes, isDigit c = true ∨ c = semicolon := by
  induction codes with
  | nil =>
    intro c mem
    cases mem
  | cons code codes ih =>
    intro c mem
    have later := ih fun other among => digits other (List.mem_cons_of_mem _ among)
    cases codes with
    | nil => exact .inl (digits code List.mem_cons_self c (by simpa [joinCodes, List.intercalate] using mem))
    | cons other codes =>
      rw [joinCodes_cons, List.mem_append, List.mem_cons] at mem
      rcases mem with here | rfl | there
      · exact .inl (digits code List.mem_cons_self c here)
      · exact .inr rfl
      · exact later c there

theorem seqEnd_body {stops : CodeUnit → Bool} {body : JsString} (plain : ∀ c ∈ body, stops c = false) {last : CodeUnit}
    (stop : stops last = true) : seqEnd stops false (body ++ [last]) = some (body.length + 1) := by
  induction body with
  | nil => simp [seqEnd, stop]
  | cons b body ih =>
    rw [List.cons_append, seqEnd, if_neg (by simp [plain b]), if_neg (by simp), ih fun c mem => plain c (List.mem_cons_of_mem _ mem)]
    rfl

/-- What is written with digits and semicolons is one sequence. -/
theorem sgrSequence_whole (digits : ∀ code ∈ codes, Digits code) :
    ansiSeqLen (sgrSequence codes) = some (sgrSequence codes).length := by
  have plain : ∀ c ∈ joinCodes codes, (decide (0x40 ≤ c) && decide (c ≤ 0x7e)) = false := by
    intro c mem
    rcases joinCodes_units digits c mem with digit | rfl
    · simp only [isDigit, Bool.and_eq_true, decide_eq_true_eq, UInt16.le_iff_toNat_le] at digit
      simp only [Bool.and_eq_false_iff, decide_eq_false_iff_not, UInt16.le_iff_toNat_le]
      have bound : c.toNat ≤ 57 := digit.2
      exact .inl (fun large => absurd (show 0x40 ≤ c.toNat from large) (by omega))
    · rfl
  have shape : sgrSequence codes = esc :: 91 :: (joinCodes codes ++ [109]) := rfl
  rw [shape, ansiSeqLen, if_neg (by simp), if_pos rfl, seqEnd_body plain (by decide)]
  simp

theorem decimal_code (n : Nat) : Digits (decimal n) := decimal_digits n

theorem attrCode_digits (on : Bool) (n : Nat) : ∀ code ∈ attrCode on n, Digits code := by
  intro code mem
  rw [attrCode] at mem
  split at mem
  · obtain rfl : code = decimal n := by simpa using mem
    exact decimal_code n
  · cases mem

theorem colorCodes_digits (color : ColorVal) (base : Nat) : ∀ code ∈ colorCodes color base, Digits code := by
  intro code mem
  rw [colorCodes] at mem
  split at mem
  · cases mem
  · split at mem
    · obtain rfl : code = _ := by simpa using mem
      exact decimal_code _
    · split at mem
      · simp only [List.mem_cons, List.not_mem_nil, or_false] at mem
        rcases mem with rfl | rfl | rfl <;> exact decimal_code _
      · simp only [List.mem_cons, List.not_mem_nil, or_false] at mem
        rcases mem with rfl | rfl | rfl | rfl | rfl <;> exact decimal_code _

theorem restoreCodes_digits (state : AnsiState) : ∀ code ∈ restoreCodes state, Digits code := by
  intro code mem
  simp only [restoreCodes, List.mem_append] at mem
  rcases mem with ((((((((( b | d) | i) | u) | k) | v) | h) | s) | f) | g)
  · exact attrCode_digits _ _ code b
  · exact attrCode_digits _ _ code d
  · exact attrCode_digits _ _ code i
  · exact attrCode_digits _ _ code u
  · exact attrCode_digits _ _ code k
  · exact attrCode_digits _ _ code v
  · exact attrCode_digits _ _ code h
  · exact attrCode_digits _ _ code s
  · exact colorCodes_digits _ _ code f
  · exact colorCodes_digits _ _ code g

/-- The codes that restore a state are nothing or one sequence. -/
theorem restore_cases (state : AnsiState) :
    writeRestore state = [] ∧ state = fresh ∨ ansiSeqLen (writeRestore state) = some (writeRestore state).length := by
  rw [writeRestore]
  by_cases empty : isEmpty state
  · rw [if_pos empty]
    exact .inl ⟨rfl,by simpa [isEmpty] using empty⟩
  · rw [if_neg empty]
    exact .inr (sgrSequence_whole (restoreCodes_digits state))

theorem restore_settled (state : AnsiState) : Settled escapes (writeRestore state) := by
  rcases restore_cases state with ⟨none,_⟩ | whole
  · rw [none]
    intro c mem
    rw [symbols_nil] at mem
    cases mem
  · exact settled_whole escapes whole

def readDigit (val : Nat) (c : CodeUnit) : Nat := min (min (val * 10) u32Max + (c.toNat - 48)) u32Max

theorem readNum_digits {digits : JsString} (all : Digits digits) (val : Nat) (rest : JsString) :
    readNum val (digits ++ rest) = readNum (digits.foldl readDigit val) rest := by
  induction digits generalizing val with
  | nil => rfl
  | cons c digits ih =>
    have digit := all c List.mem_cons_self
    have other : c ≠ semicolon := by
      rintro rfl
      cases digit
    rw [List.cons_append, readNum, if_neg other, if_pos digit]
    exact ih (fun d mem => all d (List.mem_cons_of_mem _ mem)) _

theorem decimal_value (fuel n : Nat) (enough : n < fuel) (bounded : n ≤ u32Max) : (decimalFuel fuel n).foldl readDigit 0 = n := by
  induction fuel generalizing n with
  | zero => omega
  | succ fuel ih =>
    rw [decimalFuel]
    split
    · rename_i small
      have value := (digit_unit n small).2
      rw [List.foldl_cons, List.foldl_nil, readDigit, value]
      omega
    · have value := (digit_unit (n % 10) (Nat.mod_lt n (by omega))).2
      rw [List.foldl_append, ih (n / 10) (by omega) (by omega), List.foldl_cons, List.foldl_nil, readDigit, value]
      omega

theorem decimal_begins (n : Nat) : ∃ c rest, decimal n = c :: rest ∧ c ≠ semicolon := by
  cases digits : decimal n with
  | nil =>
    have value := decimal_value (n + 1) n (by omega)
    rw [decimal] at digits
    rw [digits] at value
    by_cases bounded : n ≤ u32Max
    · have zero := value bounded
      subst zero
      cases digits
    · rw [decimalFuel, if_neg (by unfold u32Max at bounded; omega)] at digits
      simp at digits
  | cons c rest =>
    refine ⟨c,rest,rfl,?_⟩
    rintro rfl
    have digit := decimal_digits n semicolon (by rw [digits]; exact List.mem_cons_self)
    cases digit

/-- A list of codes is read code by code. -/
theorem parse_join (bounded : n ≤ u32Max) (codes : List JsString) :
    parseSgrNum (joinCodes (decimal n :: codes)) = (n, joinCodes codes) := by
  obtain ⟨c,rest,begins,other⟩ := decimal_begins n
  have drops : ∀ later : JsString, (decimal n ++ later).dropWhile (· == semicolon) = decimal n ++ later := by
    intro later
    rw [begins, List.cons_append, List.dropWhile_cons_of_neg (by simpa using other)]
  have value := decimal_value (n + 1) n (by omega) bounded
  cases codes with
  | nil =>
    have alone : joinCodes [decimal n] = decimal n ++ [] := by simp [joinCodes, List.intercalate]
    rw [alone, parseSgrNum, drops, readNum_digits (decimal_code n), decimal, value]
    rfl
  | cons other codes =>
    rw [joinCodes_cons, parseSgrNum, drops, readNum_digits (decimal_code n), decimal, value, readNum, if_pos rfl]

theorem joinCodes_begins (n : Nat) (codes : List JsString) : ∃ c rest, joinCodes (decimal n :: codes) = c :: rest := by
  obtain ⟨c,rest,begins,_⟩ := decimal_begins n
  cases codes with
  | nil => exact ⟨c,rest,by simp [joinCodes, List.intercalate, begins]⟩
  | cons other codes => exact ⟨c,_,by rw [joinCodes_cons, begins, List.cons_append]⟩

theorem applyCodes_join (bounded : n ≤ u32Max) (state : AnsiState) (codes : List JsString) :
    applyCodes state (joinCodes (decimal n :: codes)) =
      applyCodes (applyCode n state (joinCodes codes)).1 (applyCode n state (joinCodes codes)).2 := by
  obtain ⟨c,rest,begins⟩ := joinCodes_begins n codes
  have read := parse_join bounded codes
  rw [begins] at read ⊢
  rw [applyCodes]
  simp only [read]

theorem applyCodes_attr (bounded : n ≤ 29) (on : Bool) (state : AnsiState) (codes : List JsString) :
    applyCodes state (joinCodes (attrCode on n ++ codes)) =
      applyCodes (if on then plainCode n state else state) (joinCodes codes) := by
  cases on with
  | false => rfl
  | true =>
    have small : n ≤ u32Max := by unfold u32Max; omega
    rw [attrCode, if_pos rfl, List.singleton_append, applyCodes_join small, applyCode, if_neg (by omega)]
    rfl

theorem named_code {base value : Nat} (ground : base = 38 ∨ base = 48) (some : value ≠ 0) (named : value ≤ 16) {state : AnsiState}
    {rest : JsString} :
    applyCode (if base = 48 then (if value ≤ 8 then value + 29 else value + 81) + 10 else if value ≤ 8 then value + 29 else value + 81)
      state rest = (setColor base state ⟨value,.inl named⟩, rest) := by
  rcases ground with rfl | rfl
  · interval_cases value
    · exact absurd rfl some
    all_goals rfl
  · interval_cases value
    · exact absurd rfl some
    all_goals rfl

/-- The codes of a colour set it, on either ground. -/
theorem applyCodes_color (color : ColorVal) {base : Nat} (ground : base = 38 ∨ base = 48) (state : AnsiState) (codes : List JsString) :
    applyCodes state (joinCodes (colorCodes color base ++ codes)) =
      applyCodes (if color.value = 0 then state else setColor base state color) (joinCodes codes) := by
  obtain ⟨value,isColor⟩ := color
  have small : base ≤ u32Max := by unfold u32Max; omega
  have five : 5 ≤ u32Max := by unfold u32Max; omega
  have byte : ∀ k, k % 0x100 ≤ u32Max := by intro k; unfold u32Max; omega
  rw [colorCodes]
  dsimp only
  by_cases none : value = 0
  · rw [if_pos none, if_pos none]
    rfl
  · rw [if_neg none, if_neg none]
    by_cases named : value < 0x100
    · have bound : value ≤ 16 := by unfold IsColor at isColor; omega
      rw [if_pos named, List.singleton_append, applyCodes_join (by unfold u32Max; split <;> split <;> omega)]
      rw [named_code ground (by omega) bound]
    · rw [if_neg named]
      by_cases indexed : value < 0x1000000
      · have same : indexedColor (value % 0x100) = ⟨value,isColor⟩ := by
          rw [indexedColor, ColorVal.mk.injEq]
          unfold IsColor at isColor
          omega
        rw [if_pos indexed, List.cons_append, List.cons_append, List.singleton_append, applyCodes_join small, applyCode, if_pos ground,
          extendedColor, parse_join five]
        dsimp only
        rw [if_pos rfl, parse_join (byte _)]
        dsimp only
        rw [same]
      · have same : rgbColor (value / 0x10000 % 0x100) (value / 0x100 % 0x100) (value % 0x100) = ⟨value,isColor⟩ := by
          rw [rgbColor, ColorVal.mk.injEq]
          unfold IsColor at isColor
          omega
        rw [if_neg indexed]
        simp only [List.cons_append, List.nil_append]
        rw [applyCodes_join small, applyCode, if_pos ground, extendedColor, parse_join (by unfold u32Max; omega)]
        dsimp only
        rw [if_neg (by omega), if_pos rfl, parse_join (byte _)]
        dsimp only
        rw [parse_join (byte _)]
        dsimp only
        rw [parse_join (byte _)]
        dsimp only
        rw [same]

theorem applyCodes_attrs (s : AnsiState) (codes : List JsString) :
    applyCodes fresh (joinCodes (attrCode s.bold 1 ++ (attrCode s.dim 2 ++ (attrCode s.italic 3 ++ (attrCode s.underline 4 ++
      (attrCode s.blink 5 ++ (attrCode s.inverse 7 ++ (attrCode s.hidden 8 ++ (attrCode s.strike 9 ++ codes))))))))) =
      applyCodes { s with fg := colorNone, bg := colorNone } (joinCodes codes) := by
  have bold : ∀ on, (if on = true then plainCode 1 fresh else fresh) = { fresh with bold := on } := by
    intro on; cases on <;> rfl
  have dim : ∀ b on, (if on = true then plainCode 2 { fresh with bold := b } else { fresh with bold := b }) =
      { fresh with bold := b, dim := on } := by
    intro b on; cases on <;> rfl
  have italic : ∀ (s : AnsiState) on, s.italic = false →
      (if on = true then plainCode 3 s else s) = { s with italic := on } := by
    intro s on off; cases on <;> simp [plainCode, ← off]
  have underline : ∀ (s : AnsiState) on, s.underline = false →
      (if on = true then plainCode 4 s else s) = { s with underline := on } := by
    intro s on off; cases on <;> simp [plainCode, ← off]
  have blink : ∀ (s : AnsiState) on, s.blink = false → (if on = true then plainCode 5 s else s) = { s with blink := on } := by
    intro s on off; cases on <;> simp [plainCode, ← off]
  have inverse : ∀ (s : AnsiState) on, s.inverse = false → (if on = true then plainCode 7 s else s) = { s with inverse := on } := by
    intro s on off; cases on <;> simp [plainCode, ← off]
  have hidden : ∀ (s : AnsiState) on, s.hidden = false → (if on = true then plainCode 8 s else s) = { s with hidden := on } := by
    intro s on off; cases on <;> simp [plainCode, ← off]
  have strike : ∀ (s : AnsiState) on, s.strike = false → (if on = true then plainCode 9 s else s) = { s with strike := on } := by
    intro s on off; cases on <;> simp [plainCode, ← off]
  rw [applyCodes_attr (by omega), bold, applyCodes_attr (by omega), dim, applyCodes_attr (by omega), italic _ _ rfl,
    applyCodes_attr (by omega), underline _ _ rfl, applyCodes_attr (by omega), blink _ _ rfl, applyCodes_attr (by omega),
    inverse _ _ rfl, applyCodes_attr (by omega), hidden _ _ rfl, applyCodes_attr (by omega), strike _ _ rfl]
  rfl

/-- The restoring codes bring a fresh terminal to the state. -/
theorem restore_codes (s : AnsiState) : applyCodes fresh (joinCodes (restoreCodes s)) = s := by
  have unset : ∀ color : ColorVal, color.value = 0 → color = colorNone := by
    rintro ⟨value,isColor⟩ rfl
    rfl
  have shape : restoreCodes s = attrCode s.bold 1 ++ (attrCode s.dim 2 ++ (attrCode s.italic 3 ++ (attrCode s.underline 4 ++
      (attrCode s.blink 5 ++ (attrCode s.inverse 7 ++ (attrCode s.hidden 8 ++ (attrCode s.strike 9 ++
        (colorCodes s.fg 38 ++ (colorCodes s.bg 48 ++ []))))))))) := by
    simp only [restoreCodes, List.append_assoc, List.append_nil]
  rw [shape, applyCodes_attrs, applyCodes_color _ (.inl rfl), applyCodes_color _ (.inr rfl)]
  have done : ∀ state, applyCodes state (joinCodes []) = state := by
    intro state
    rw [joinCodes, List.intercalate, List.intersperse_nil, List.flatten_nil, applyCodes]
  rw [done]
  obtain ⟨bold,dim,italic,underline,blink,inverse,hidden,strike,fg,bg⟩ := s
  by_cases front : fg.value = 0
  · obtain rfl := unset fg front
    by_cases back : bg.value = 0
    · obtain rfl := unset bg back
      rfl
    · simp [back, setColor, colorNone]
  · by_cases back : bg.value = 0
    · obtain rfl := unset bg back
      simp [front, setColor, colorNone]
    · simp [front, back, setColor]

theorem sgr_params (visible : joinCodes codes ≠ []) (state : AnsiState) :
    readEscape state (sgrSequence codes) = applyCodes state (joinCodes codes) := by
  have shape : sgrSequence codes = esc :: 91 :: (joinCodes codes ++ [109]) := rfl
  have sgr : isSgr (sgrSequence codes) = true := by
    have last : (esc :: 91 :: (joinCodes codes ++ [109])).getLast? = some 109 :=
      List.getLast?_append_of_ne_nil (esc :: 91 :: joinCodes codes) (List.cons_ne_nil 109 [])
    rw [shape, isSgr, last]
    simp
  have inner : ((sgrSequence codes).drop 2).dropLast = joinCodes codes := by
    rw [shape]
    simp
  rw [readEscape, if_pos sgr, inner, applySgr, if_neg (by simpa using visible)]

theorem stateAfter_whole {q : JsString} (whole : ansiSeqLen q = some q.length) (state : AnsiState) :
    runSymbols updateScanner state (symbols escapes q) = readEscape state q := by
  rw [symbols_whole escapes whole]
  rfl

theorem restore_sequence {s : AnsiState} (visible : s ≠ fresh) :
    writeRestore s = sgrSequence (restoreCodes s) ∧ joinCodes (restoreCodes s) ≠ [] := by
  have shown : ¬ isEmpty s = true := by simpa [isEmpty] using visible
  refine ⟨by rw [writeRestore, if_neg shown],fun none => visible ?_⟩
  have back := restore_codes s
  rw [none, applyCodes] at back
  exact back.symm

/-- Read from a fresh terminal, the restoring sequence gives the state. -/
theorem restore_state (s : AnsiState) : runSymbols updateScanner fresh (symbols escapes (writeRestore s)) = s := by
  by_cases visible : s = fresh
  · rw [visible, writeRestore, if_pos (by decide), symbols_nil]
    rfl
  · obtain ⟨shape,codes⟩ := restore_sequence visible
    rw [shape, stateAfter_whole (sgrSequence_whole (restoreCodes_digits s)), sgr_params codes, restore_codes]

/-- Whatever sequences a state comes from, nothing is written for the fresh one, and for any other one sequence
    whose parameters bring it back. -/
theorem restore_reproduces (sequences : List JsString) :
    let state := sequences.foldl applySgr fresh
    writeRestore state = [] ∧ state = fresh ∨
      ∃ params, writeRestore state = esc :: 91 :: (params ++ [109]) ∧ applySgr fresh params = state := by
  intro state
  by_cases visible : state = fresh
  · exact .inl ⟨by rw [visible, writeRestore, if_pos (by decide)],visible⟩
  · obtain ⟨shape,codes⟩ := restore_sequence visible
    refine .inr ⟨joinCodes (restoreCodes state),shape,?_⟩
    rw [applySgr, if_neg (by simpa using codes), restore_codes]

end AnsiText
