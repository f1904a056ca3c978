import OpenAgents.Lib.JsText

/- Line endings and the byte order mark: what is taken off a text before it is edited, and
   put back before it is written. -/
namespace Hashline
open JsText

inductive LineEnding where
  | crlf
  | lf
  deriving DecidableEq, Repr

def indexOf (token : JsString) : JsString → Option Nat
  | [] => if token.isEmpty then some 0 else none
  | c :: rest => if token.isPrefixOf (c :: rest) then some 0 else (indexOf token rest).map (· + 1)

/- The first line ending decides; LF when there is none. -/
def detectLineEnding (content : JsString) : LineEnding :=
  match indexOf [carriageReturn, lineFeed] content, indexOf [lineFeed] content with
  | _, none => .lf
  | none, some _ => .lf
  | some crlfIdx, some lfIdx => if crlfIdx < lfIdx then .crlf else .lf

def normalizeToLF : JsString → JsString
  | [] => []
  | [c] => if c = carriageReturn then [lineFeed] else [c]
  | c :: d :: rest =>
      if c = carriageReturn then
        if d = lineFeed then lineFeed :: normalizeToLF rest else lineFeed :: normalizeToLF (d :: rest)
      else c :: normalizeToLF (d :: rest)

def restoreLineEndings (text : JsString) : LineEnding → JsString
  | .crlf => text.flatMap fun c => if c = lineFeed then [carriageReturn, lineFeed] else [c]
  | .lf => text

def byteOrderMark : CodeUnit := 0xFEFF

structure BomResult where
  bom : JsString
  text : JsString
  deriving DecidableEq, Repr

def stripBom (content : JsString) : BomResult :=
  match content with
  | [] => ⟨[],[]⟩
  | c :: rest => if c = byteOrderMark then ⟨[c],rest⟩ else ⟨[],c :: rest⟩

theorem normalizeToLF_cons_other {c : CodeUnit} (rest : JsString) (other : c ≠ carriageReturn) :
    normalizeToLF (c :: rest) = c :: normalizeToLF rest := by
  cases rest with
  | nil => simp [normalizeToLF, other]
  | cons d rest => simp [normalizeToLF, other]

theorem normalizeToLF_crlf (rest : JsString) :
    normalizeToLF (carriageReturn :: lineFeed :: rest) = lineFeed :: normalizeToLF rest := by
  simp [normalizeToLF]

theorem normalizeToLF_clean (text : JsString) : carriageReturn ∉ normalizeToLF text := by
  have differs : carriageReturn ≠ lineFeed := by decide
  fun_induction normalizeToLF text with
  | case1 => simp
  | case2 => simp [differs]
  | case3 c other => simpa using Ne.symm other
  | case4 rest ih => simp [differs, ih]
  | case5 d rest other ih => simp [differs, ih]
  | case6 c d rest other ih => simp [Ne.symm other, ih]

theorem normalizeToLF_of_clean {text : JsString} (clean : carriageReturn ∉ text) : normalizeToLF text = text := by
  induction text with
  | nil => rfl
  | cons c rest ih =>
    rw [List.mem_cons, not_or] at clean
    rw [normalizeToLF_cons_other rest (Ne.symm clean.1), ih clean.2]

theorem restore_cons (c : CodeUnit) (rest : JsString) :
    restoreLineEndings (c :: rest) .crlf =
      (if c = lineFeed then [carriageReturn, lineFeed] else [c]) ++ restoreLineEndings rest .crlf := rfl

/-- Restoring the line endings of a text without carriage returns is undone by normalizing. -/
theorem normalize_restore {text : JsString} (clean : carriageReturn ∉ text) (ending : LineEnding) :
    normalizeToLF (restoreLineEndings text ending) = text := by
  cases ending with
  | lf => exact normalizeToLF_of_clean clean
  | crlf =>
    induction text with
    | nil => rfl
    | cons c rest ih =>
      rw [List.mem_cons, not_or] at clean
      rw [restore_cons]
      by_cases feed : c = lineFeed
      · rw [if_pos feed, feed, List.cons_append, List.cons_append, List.nil_append, normalizeToLF_crlf, ih clean.2]
      · rw [if_neg feed, List.cons_append, List.nil_append, normalizeToLF_cons_other _ (Ne.symm clean.1),
          ih clean.2]

theorem normalize_restore_iff (text : JsString) (ending : LineEnding) :
    normalizeToLF (restoreLineEndings text ending) = text ↔ carriageReturn ∉ text := by
  constructor
  · intro same
    rw [← same]
    exact normalizeToLF_clean _
  · intro clean
    exact normalize_restore clean ending

theorem stripBom_cases (content : JsString) :
    (stripBom content).bom = [byteOrderMark] ∨
      (stripBom content).bom = [] ∧ (stripBom content).text = content ∧ content.head? ≠ some byteOrderMark := by
  unfold stripBom
  split
  · simp
  · split
    · rename_i mark
      rw [mark]
      exact .inl rfl
    · rename_i other
      exact .inr ⟨rfl,rfl,by simpa using other⟩

theorem stripBom_marked (text : JsString) : (stripBom (byteOrderMark :: text)).text = text := by
  simp [stripBom]

theorem stripBom_unmarked {text : JsString} (unmarked : text.head? ≠ some byteOrderMark) :
    (stripBom text).text = text := by
  cases text with
  | nil => rfl
  | cons c rest =>
    have other : c ≠ byteOrderMark := by simpa using unmarked
    simp [stripBom, other]

/-- Restoring line endings keeps the first code unit, unless that is a line feed. -/
theorem restore_head (text : JsString) (ending : LineEnding) :
    (restoreLineEndings text ending).head? = some byteOrderMark ↔ text.head? = some byteOrderMark := by
  cases ending with
  | lf => rfl
  | crlf =>
    cases text with
    | nil => rfl
    | cons c rest =>
      rw [restore_cons]
      by_cases feed : c = lineFeed
      · rw [if_pos feed, feed]
        simp [carriageReturn, lineFeed, byteOrderMark]
      · rw [if_neg feed]
        rfl

end Hashline
