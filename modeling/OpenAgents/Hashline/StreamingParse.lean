import OpenAgents.Hashline.Rendering
import OpenAgents.Lib.TextLines

/- Parsing a patch that is still being written. A prefix of a valid patch is its whole
   lines, which the parser takes as the full parse does, and the start of one more line. -/
namespace Hashline
open JsText ExceptRun TextLines

def BlockTarget.range? : BlockTarget → Option ParsedRange
  | .replace range => some range
  | .delete range => some range
  | _ => none

def BlockTarget.lines (target : BlockTarget) : List Nat :=
  match target.range? with
  | some range => spanLines range.start.line range.stop.line
  | none => []

/- The hunk being read, if any, has what it needs to be lowered. -/
def Executor.complete (x : Executor) : Bool := x.pending.all fun pending => flushes pending.target pending.payloads

/- A hunk opened on line `lineNum` of the patch, flushed or not, deletes `line` of the file. -/
def Targets (x : Executor) (line lineNum : Nat) : Prop :=
  Deletes x.edits line lineNum ∨ ∃ pending, x.pending = some pending ∧ pending.lineNum = lineNum ∧ line ∈ pending.target.lines

/- Comments are held while no hunk is open; a body or the end of the patch would refuse them. -/
def HoldsComments (x : Executor) : Prop :=
  (∀ comment ∈ x.skippableComments, isSkippableCommentLine comment.text = true) ∧
    (x.skippableComments ≠ [] → x.pending = none)

/-- What the start of a line must be for a parse that stops behind it not to fail. -/
def LineFine (x : Executor) (line : JsString) : Prop :=
  match classifyKind (stripCarriageReturn line) with
  | .opBlock target =>
      (∀ range, target.range? = some range → range.start.line ≤ range.stop.line) ∧ x.complete = true ∧
        ∀ range, target = .delete range → ∀ n ∈ target.lines, ∀ opened, ¬ Targets x n opened
  | .header _ _ => x.skippableComments = [] ∧ x.complete = true
  | .payloadLiteral _ => True
  | .raw text =>
      x.skippableComments = [] ∧ detectApplyPatchContamination text = none ∧
        ((trim text).isEmpty = true ∨ ∃ pending, x.pending = some pending ∧ pending.target.refusesBody = none ∧
          (trimStart text).head? ≠ some 45)
  | _ => x.skippableComments = []

def feedLines (lines : List JsString) : Except JsString Executor :=
  (classifyFrom 1 lines).foldlM Executor.feed Executor.new

/-- The whole lines have ended the patch, or the line begun after them can stand as it is. -/
def CutFine (p : JsString) : Prop :=
  ∃ x, feedLines (splitLines p).dropLast = .ok x ∧ (x.terminated = true ∨ LineFine x (lastLine p))

section comments

theorem comment_visible {text : JsString} (comment : isSkippableCommentLine text = true) : (trim text).isEmpty = false := by
  have hash : js "#" = [35] := by decide
  have first : (35 : CodeUnit) ∈ trimStart text := by
    unfold isSkippableCommentLine startsWith at comment
    rw [hash] at comment
    exact (List.isPrefixOf_iff_prefix.mp comment).subset List.mem_cons_self
  have some' : trim text ≠ [] := by
    intro none'
    have blank := List.rdropWhile_eq_nil_iff.mp none' 35 first
    exact absurd blank (by decide)
  simpa using some'

/-- A held comment that is not discarded is refused. -/
theorem comment_refused {x : Executor} {text : JsString} (comment : isSkippableCommentLine text = true)
    (closed : x.pending = none) (lineNum : Nat) (y : Executor) : x.handleRaw text lineNum ≠ .ok y := by
  intro ok
  unfold Executor.handleRaw at ok
  rw [closed, comment_visible comment] at ok
  cases contaminated : detectApplyPatchContamination text with
  | some contamination => simp [contaminated] at ok
  | none => simp [contaminated] at ok

theorem consume_ok_iff {x y : Executor} (holds : HoldsComments x) :
    x.consumePendingSkippableComments = .ok y ↔ x.skippableComments = [] ∧ x = y := by
  unfold Executor.consumePendingSkippableComments
  cases held : x.skippableComments with
  | nil =>
    have same : ({ x with skippableComments := [] } : Executor) = x := by rw [← held]
    simp [pure, Except.pure, bind, Except.bind, same]
  | cons comment rest =>
    have hash := holds.1 comment (by rw [held]; exact List.mem_cons_self)
    have closed := holds.2 (by rw [held]; exact List.cons_ne_nil _ _)
    constructor
    · intro ok
      obtain ⟨last,ran,_⟩ := bind_ok.mp ok
      rw [List.foldlM_cons] at ran
      obtain ⟨next,handled,_⟩ := bind_ok.mp ran
      exact absurd handled (comment_refused hash closed comment.lineNum next)
    · intro ⟨none',_⟩
      contradiction

end comments

section hunks

theorem deletes_append (edits more : List Edit) (line lineNum : Nat) :
    Deletes (edits ++ more) line lineNum ↔ Deletes edits line lineNum ∨ Deletes more line lineNum := by
  simp only [Deletes, List.filterMap_append, List.mem_append]
  constructor
  · rintro ⟨d,early | late,hit⟩
    · exact .inl ⟨d,early,hit⟩
    · exact .inr ⟨d,late,hit⟩
  · rintro (⟨d,early,hit⟩ | ⟨d,late,hit⟩)
    · exact ⟨d,.inl early,hit⟩
    · exact ⟨d,.inr late,hit⟩

theorem deletes_rows (cursor : Cursor) (mode : InsertMode) (opened : Nat) (rows : List PayloadRow) (line lineNum : Nat) :
    ¬ Deletes (rows.map fun row => .applied (.insert ⟨cursor,row.text,opened,0,mode⟩)) line lineNum := by
  rintro ⟨d,mem,_⟩
  simp [List.filterMap_map, deleteEdit?] at mem

theorem deletes_range (range : ParsedRange) (opened line lineNum : Nat) :
    Deletes ((expandRange range).map fun anchor => .applied (.delete ⟨anchor,opened,0⟩)) line lineNum ↔
      line ∈ spanLines range.start.line range.stop.line ∧ lineNum = opened := by
  simp only [Deletes, expandRange, List.map_map, List.mem_filterMap, List.mem_map, Function.comp_apply]
  constructor
  · rintro ⟨d,⟨edit,⟨n,mem,rfl⟩,read⟩,rfl,rfl⟩
    cases read
    exact ⟨mem,rfl⟩
  · rintro ⟨mem,rfl⟩
    exact ⟨_,⟨_,⟨line,mem,rfl⟩,rfl⟩,rfl,rfl⟩

theorem deletes_hunk (target : BlockTarget) (opened : Nat) (payloads : List PayloadRow) (line lineNum : Nat) :
    Deletes (hunkEdits target opened payloads) line lineNum ↔ line ∈ target.lines ∧ lineNum = opened := by
  have noBlock (b : BlockEdit) : ¬ Deletes [.block b] line lineNum := by
    rintro ⟨d,mem,_⟩
    simp [deleteEdit?] at mem
  cases target with
  | replace range =>
    simp [hunkEdits, deletes_append, deletes_rows, deletes_range, BlockTarget.lines, BlockTarget.range?]
  | delete range => simp [hunkEdits, deletes_range, BlockTarget.lines, BlockTarget.range?]
  | _ => simp [hunkEdits, deletes_rows, noBlock, BlockTarget.lines, BlockTarget.range?]

/-- Flushing the open hunk lowers what it targets, and nothing else changes. -/
theorem flushPending_ok {x y : Executor} (ok : x.flushPending = .ok y) :
    x.complete = true ∧ y.pending = none ∧ y.terminated = x.terminated ∧ y.skippableComments = x.skippableComments ∧
      ∀ line lineNum, Deletes y.edits line lineNum ↔ Targets x line lineNum := by
  unfold Executor.flushPending at ok
  cases held : x.pending with
  | none =>
    rw [held] at ok
    cases ok
    simp [Executor.complete, held, Targets]
  | some pending =>
    rw [held] at ok
    dsimp only at ok
    obtain ⟨full,bare⟩ := flushTarget_ok ok
    have fields := congrArg (fun e : Executor => (e.pending, e.terminated, e.skippableComments, e.edits)) bare
    simp only [Executor.bare, Prod.mk.injEq] at fields
    obtain ⟨closed,terminated,comments,edits⟩ := fields
    refine ⟨by simp [Executor.complete, held, full],closed,terminated,comments,?_⟩
    intro line lineNum
    rw [← deletes_bare, edits, deletes_append, deletes_bare, deletes_hunk, Targets, held]
    simp only [Option.some.injEq, exists_eq_left']
    rw [and_comm, eq_comm]

variable {x : Executor} {r : ParseResult}

theorem flushPending_total (complete : x.complete = true) : ∃ y, x.flushPending = .ok y := by
  unfold Executor.flushPending
  cases held : x.pending with
  | none => exact ⟨x,rfl⟩
  | some pending =>
    have full : flushes pending.target pending.payloads = true := by simpa [Executor.complete, held] using complete
    exact flushTarget_total full _ _

theorem flushComplete_eq (x : Executor) :
    x.flushComplete = if x.complete then x.flushPending else .ok { x with pending := none } := by
  unfold Executor.flushComplete Executor.complete
  cases held : x.pending with
  | none =>
    have same : ({ x with pending := none } : Executor) = x := by rw [← held]
    simp [Executor.flushPending, held, same]
  | some pending =>
    cases target : pending.target <;> cases rows : pending.payloads <;>
      simp [flushes, BlockTarget.refusesBody, target, rows]

/- What a parse that stops here keeps of the targets: an unfinished hunk is dropped. -/
def Settles (x : Executor) (line lineNum : Nat) : Prop :=
  Deletes x.edits line lineNum ∨ x.complete = true ∧ Targets x line lineNum

theorem flushComplete_total (x : Executor) :
    ∃ y, x.flushComplete = .ok y ∧ ∀ line lineNum, Deletes y.edits line lineNum ↔ Settles x line lineNum := by
  rw [flushComplete_eq]
  cases complete : x.complete with
  | true =>
    obtain ⟨y,ok⟩ := flushPending_total complete
    refine ⟨y,ok,?_⟩
    intro line lineNum
    rw [(flushPending_ok ok).2.2.2.2, Settles, complete]
    constructor
    · exact fun hit => .inr ⟨rfl,hit⟩
    · rintro (early | ⟨_,hit⟩)
      · exact .inl early
      · exact hit
  | false => exact ⟨{ x with pending := none },rfl,fun line lineNum => by simp [Settles, complete]⟩

def SingleTarget (targets : Nat → Nat → Prop) : Prop := ∀ line n m, targets line n → targets line m → n = m

theorem endStreaming_ok_iff (holds : HoldsComments x) :
    (∃ r, x.endStreaming = .ok r) ↔ x.skippableComments = [] ∧ SingleTarget (Settles x) := by
  obtain ⟨y,flushed,settled⟩ := flushComplete_total x
  have valid : validateNoOverlappingDeletes y.edits = .ok () ↔ SingleTarget (Settles x) := by
    rw [validate_ok_iff]
    simp only [settled, SingleTarget]
  unfold Executor.endStreaming
  constructor
  · rintro ⟨r,ok⟩
    obtain ⟨x',consumed,rest⟩ := bind_ok.mp ok
    obtain ⟨none',rfl⟩ := (consume_ok_iff holds).mp consumed
    obtain ⟨y',flushed',rest⟩ := bind_ok.mp rest
    obtain rfl : y = y' := Except.ok.inj (flushed.symm.trans flushed')
    obtain ⟨_,checked,_⟩ := bind_ok.mp rest
    exact ⟨none',valid.mp checked⟩
  · rintro ⟨none',single⟩
    have consumed := (consume_ok_iff holds).mpr ⟨none',rfl⟩
    exact ⟨⟨y.edits,y.warnings⟩,bind_ok.mpr ⟨x,consumed,bind_ok.mpr ⟨y,flushed,
      bind_ok.mpr ⟨(),valid.mpr single,rfl⟩⟩⟩⟩

theorem finish_single (holds : HoldsComments x) (ok : x.finish = .ok r) :
    x.skippableComments = [] ∧ x.complete = true ∧ SingleTarget (Targets x) := by
  obtain ⟨x',consumed,rest⟩ := bind_ok.mp ok
  obtain ⟨none',rfl⟩ := (consume_ok_iff holds).mp consumed
  obtain ⟨y,flushed,rest⟩ := bind_ok.mp rest
  obtain ⟨_,checked,_⟩ := bind_ok.mp rest
  obtain ⟨complete,_,_,_,lowered⟩ := flushPending_ok flushed
  have single := (validate_ok_iff y.edits).mp checked
  simp only [lowered] at single
  exact ⟨none',complete,single⟩

/-- A complete parse ends as the parser's own end does. -/
theorem endStreaming_of_finish (holds : HoldsComments x) (ok : x.finish = .ok r) : x.endStreaming = .ok r := by
  have complete := (finish_single holds ok).2.1
  obtain ⟨x',consumed,rest⟩ := bind_ok.mp ok
  obtain ⟨none',rfl⟩ := (consume_ok_iff holds).mp consumed
  unfold Executor.endStreaming
  rw [consumed]
  show (do let y ← x.flushComplete
           validateNoOverlappingDeletes y.edits
           .ok ⟨y.edits,y.warnings⟩) = Except.ok r
  rw [flushComplete_eq, complete, if_pos rfl]
  exact rest

end hunks

section tokens

/-- The same hunk is open, perhaps with more rows. -/
structure SameHunk (x y : Executor) : Prop where
  edits : y.edits = x.edits
  terminated : y.terminated = x.terminated
  comments : y.skippableComments = x.skippableComments
  pending : y.pending.map (fun pending => (pending.target, pending.lineNum)) =
    x.pending.map fun pending => (pending.target, pending.lineNum)

theorem sameHunk_refl (x : Executor) : SameHunk x x := ⟨rfl,rfl,rfl,rfl⟩

variable {x y : Executor} {token : Token}

theorem sameHunk_targets (same : SameHunk x y) (line lineNum : Nat) : Targets y line lineNum ↔ Targets x line lineNum := by
  have hunk := same.pending
  unfold Targets
  rw [same.edits]
  cases first : x.pending with
  | none =>
    rw [first] at hunk
    rw [Option.map_eq_none_iff.mp hunk]
  | some pending =>
    rw [first] at hunk
    obtain ⟨later,second,fields⟩ := Option.map_eq_some_iff.mp hunk
    simp only [Prod.mk.injEq] at fields
    simp only [second, Option.some.injEq, exists_eq_left', fields.1, fields.2]

theorem sameHunk_holds (same : SameHunk x y) (holds : HoldsComments x) : HoldsComments y := by
  refine ⟨fun comment mem => holds.1 comment (by rwa [← same.comments]),?_⟩
  intro some'
  have closed := holds.2 (by rwa [← same.comments])
  have hunk := same.pending
  rw [closed] at hunk
  exact Option.map_eq_none_iff.mp hunk

theorem handleLiteralPayload_same {text : JsString} {lineNum : Nat} (ok : x.handleLiteralPayload text lineNum = .ok y) : SameHunk x y := by
  unfold Executor.handleLiteralPayload at ok
  cases held : x.pending with
  | none => simp [held] at ok
  | some pending =>
    cases refused : pending.target.refusesBody with
    | some message => simp [held, refused] at ok
    | none =>
      simp only [held, refused, Except.ok.injEq] at ok
      subst ok
      exact ⟨rfl,rfl,rfl,by rw [held]; rfl⟩

theorem handleRaw_ok_iff {text : JsString} {lineNum : Nat} :
    (∃ y, x.handleRaw text lineNum = .ok y) ↔
      detectApplyPatchContamination text = none ∧ ((trim text).isEmpty = true ∨
        ∃ pending, x.pending = some pending ∧ pending.target.refusesBody = none ∧ (trimStart text).head? ≠ some 45) := by
  unfold Executor.handleRaw
  cases contaminated : detectApplyPatchContamination text with
  | some contamination => simp
  | none =>
    cases held : x.pending with
    | none => by_cases blank : (trim text).isEmpty = true <;> simp [blank]
    | some pending =>
      by_cases blank : (trim text).isEmpty = true
      · simp [blank]
      · cases refused : pending.target.refusesBody with
        | some message => simp [blank, refused]
        | none => by_cases minus : (trimStart text).head? = some 45 <;> simp [blank, refused, minus]

theorem handleRaw_same {text : JsString} {lineNum : Nat} (ok : x.handleRaw text lineNum = .ok y) : SameHunk x y := by
  unfold Executor.handleRaw at ok
  cases contaminated : detectApplyPatchContamination text with
  | some contamination => simp [contaminated] at ok
  | none =>
    by_cases blank : (trim text).isEmpty = true
    · have unchanged : x = y := by
        cases held : x.pending <;> simpa [contaminated, held, blank] using ok
      exact unchanged ▸ sameHunk_refl x
    · cases held : x.pending with
      | none => simp [contaminated, held, blank] at ok
      | some pending =>
        cases refused : pending.target.refusesBody with
        | some message => simp [contaminated, held, blank, refused] at ok
        | none =>
          by_cases minus : (trimStart text).head? = some 45
          · simp [contaminated, held, blank, refused, minus] at ok
          · simp only [contaminated, held, blank, refused, minus, Bool.false_eq_true, if_false, Except.ok.injEq] at ok
            subst ok
            exact ⟨rfl,rfl,rfl,by rw [held]; rfl⟩

theorem validateTarget_ok_iff {target : BlockTarget} {lineNum : Nat} :
    validateTarget target lineNum = .ok () ↔ ∀ range, target.range? = some range → range.start.line ≤ range.stop.line := by
  have order (range : ParsedRange) : validateRangeOrder range lineNum = .ok () ↔ range.start.line ≤ range.stop.line := by
    unfold validateRangeOrder
    by_cases reversed : range.stop.line < range.start.line
    · simp [reversed]
    · simp [reversed, Nat.le_of_not_lt reversed]
  cases target <;> simp [validateTarget, BlockTarget.range?, order]

/-- What one token does to the open hunk and the targets: only a hunk header adds any. -/
structure Fed (x y : Executor) (token : Token) : Prop where
  holds : HoldsComments y
  targets : ∀ line lineNum, Targets y line lineNum ↔ Targets x line lineNum ∨
    x.terminated = false ∧ ∃ target, token.kind = .opBlock target ∧ line ∈ target.lines ∧ lineNum = token.lineNum

theorem fed_of_same (holds : HoldsComments y) (same : ∀ line lineNum, Targets y line lineNum ↔ Targets x line lineNum)
    (other : ∀ target, token.kind ≠ .opBlock target) : Fed x y token := by
  refine ⟨holds,?_⟩
  intro line lineNum
  rw [same]
  constructor
  · exact .inl
  · rintro (early | ⟨_,target,header,_⟩)
    · exact early
    · exact absurd header (other target)

theorem fed_flushed (ok : x.flushPending = .ok y) (none' : x.skippableComments = [])
    (other : ∀ target, token.kind ≠ .opBlock target) : Fed x y token := by
  obtain ⟨_,closed,_,comments,lowered⟩ := flushPending_ok ok
  refine fed_of_same ?_ ?_ other
  · rw [HoldsComments, comments, none']
    exact ⟨fun comment mem => absurd mem List.not_mem_nil,fun some' => absurd rfl some'⟩
  · intro line lineNum
    simp [Targets, lowered, closed]

theorem feed_fed (holds : HoldsComments x) (ok : x.feed token = .ok y) : Fed x y token := by
  unfold Executor.feed at ok
  cases ended : x.terminated with
  | true =>
    rw [ended, if_pos rfl] at ok
    cases ok
    exact ⟨holds,fun line lineNum => by simp [ended]⟩
  | false =>
    rw [ended, if_neg (by decide)] at ok
    have unchanged : ∀ line lineNum, Targets x line lineNum ↔ Targets x line lineNum := fun _ _ => Iff.rfl
    cases kind : token.kind with
    | blank =>
      rw [kind] at ok
      obtain ⟨_,rfl⟩ := (consume_ok_iff holds).mp ok
      exact fed_of_same holds unchanged (by simp [kind])
    | envelopeBegin =>
      rw [kind] at ok
      obtain ⟨_,rfl⟩ := (consume_ok_iff holds).mp ok
      exact fed_of_same holds unchanged (by simp [kind])
    | envelopeEnd =>
      rw [kind] at ok
      obtain ⟨x',consumed,rest⟩ := bind_ok.mp ok
      obtain ⟨_,rfl⟩ := (consume_ok_iff holds).mp consumed
      cases rest
      exact fed_of_same holds unchanged (by simp [kind])
    | abort =>
      rw [kind] at ok
      cases ok
      exact fed_of_same holds unchanged (by simp [kind])
    | header path fileHash =>
      rw [kind] at ok
      obtain ⟨x',consumed,flushed⟩ := bind_ok.mp ok
      obtain ⟨none',rfl⟩ := (consume_ok_iff holds).mp consumed
      exact fed_flushed flushed none' (by simp [kind])
    | payloadLiteral text =>
      rw [kind] at ok
      obtain ⟨x',consumed,handled⟩ := bind_ok.mp ok
      obtain ⟨_,rfl⟩ := (consume_ok_iff holds).mp consumed
      have same := handleLiteralPayload_same handled
      exact fed_of_same (sameHunk_holds same holds) (sameHunk_targets same) (by simp [kind])
    | raw text =>
      rw [kind] at ok
      dsimp only at ok
      by_cases comment : (x.pending.isNone && isSkippableCommentLine text) = true
      · rw [if_pos comment] at ok
        cases ok
        obtain ⟨closed,hash⟩ := Bool.and_eq_true_iff.mp comment
        refine fed_of_same ⟨?_,fun _ => Option.isNone_iff_eq_none.mp closed⟩ unchanged (by simp [kind])
        intro held mem
        rcases List.mem_append.mp mem with early | last
        · exact holds.1 held early
        · rw [List.mem_singleton.mp last]
          exact hash
      · rw [if_neg comment] at ok
        obtain ⟨x',consumed,handled⟩ := bind_ok.mp ok
        obtain ⟨_,rfl⟩ := (consume_ok_iff holds).mp consumed
        have same := handleRaw_same handled
        exact fed_of_same (sameHunk_holds same holds) (sameHunk_targets same) (by simp [kind])
    | opBlock target =>
      rw [kind] at ok
      obtain ⟨_,_,rest⟩ := bind_ok.mp ok
      obtain ⟨z,flushed,last⟩ := bind_ok.mp rest
      cases last
      obtain ⟨_,_,_,comments,lowered⟩ := flushPending_ok flushed
      refine ⟨⟨fun comment mem => ?_,fun some' => absurd comments some'⟩,?_⟩
      · rw [show z.skippableComments = [] from comments] at mem
        exact absurd mem List.not_mem_nil
      · intro line lineNum
        have before : Deletes z.edits line lineNum ↔ Targets x line lineNum := lowered line lineNum
        simp only [Targets, before, Option.some.injEq, exists_eq_left', ended, true_and, kind, TokenKind.opBlock.injEq]
        rw [@eq_comm _ lineNum, and_comm]

theorem feeds_targets {tokens : List Token} (holds : HoldsComments x) (ran : tokens.foldlM Executor.feed x = .ok y) :
    HoldsComments y ∧ (∀ line n, Targets x line n → Targets y line n) ∧
      ∀ line n, Targets y line n → Targets x line n ∨ ∃ token ∈ tokens, n = token.lineNum := by
  induction tokens generalizing x with
  | nil =>
    cases ran
    exact ⟨holds,fun _ _ early => early,fun _ _ early => .inl early⟩
  | cons token tokens ih =>
    rw [List.foldlM_cons] at ran
    obtain ⟨next,fed,rest⟩ := bind_ok.mp ran
    obtain ⟨kept,targets⟩ := feed_fed holds fed
    obtain ⟨last,grows,news⟩ := ih kept rest
    refine ⟨last,?_,?_⟩
    · intro line n early
      exact grows line n ((targets line n).mpr (.inl early))
    · intro line n hit
      rcases news line n hit with here | ⟨other,mem,number⟩
      · rcases (targets line n).mp here with early | ⟨_,_,_,_,number⟩
        · exact .inl early
        · exact .inr ⟨token,List.mem_cons_self,number⟩
      · exact .inr ⟨other,List.mem_cons_of_mem token mem,number⟩

end tokens

section lastLine

variable {x : Executor} {token : Token}

theorem settles_single (single : SingleTarget (Targets x)) : SingleTarget (Settles x) := by
  have target : ∀ line n, Settles x line n → Targets x line n := by
    rintro line n (early | ⟨_,hit⟩)
    · exact .inl early
    · exact hit
  intro line n m first second
  exact single line n m (target line n first) (target line m second)

/-- A token that opens no hunk leaves the parse fit to stop when it leaves no comment held. -/
theorem stops_after {x y : Executor} (holds : HoldsComments x) (single : SingleTarget (Targets x))
    (fed : x.feed token = .ok y) (other : ∀ target, token.kind ≠ .opBlock target) :
    (∃ r, (x.feed token >>= Executor.endStreaming) = .ok r) ↔ y.skippableComments = [] := by
  obtain ⟨kept,targets⟩ := feed_fed holds fed
  have same : ∀ line n, Targets y line n ↔ Targets x line n := by
    intro line n
    rw [targets]
    constructor
    · rintro (early | ⟨_,target,header,_⟩)
      · exact early
      · exact absurd header (other target)
    · exact .inl
  have singleAfter : SingleTarget (Targets y) := by
    intro line n m first second
    exact single line n m ((same line n).mp first) ((same line m).mp second)
  have run : (x.feed token >>= Executor.endStreaming) = y.endStreaming := by rw [fed]; rfl
  rw [run, endStreaming_ok_iff kept]
  exact and_iff_left (settles_single singleAfter)

/-- The tokens that are not part of a hunk refuse the comments held, and do no more. -/
theorem stops_after_consuming (after : Executor → Executor) (holds : HoldsComments x) (single : SingleTarget (Targets x))
    (fed : x.feed token = (do
      let x ← x.consumePendingSkippableComments
      .ok (after x))) (comments : (after x).skippableComments = x.skippableComments)
    (other : ∀ target, token.kind ≠ .opBlock target) :
    (∃ r, (x.feed token >>= Executor.endStreaming) = .ok r) ↔ x.skippableComments = [] := by
  constructor
  · rintro ⟨r,ok⟩
    obtain ⟨y,stepped,_⟩ := bind_ok.mp ok
    rw [fed] at stepped
    obtain ⟨x',consumed,_⟩ := bind_ok.mp stepped
    exact ((consume_ok_iff holds).mp consumed).1
  · intro none'
    have stepped : x.feed token = .ok (after x) := by
      rw [fed]
      exact bind_ok.mpr ⟨x,(consume_ok_iff holds).mpr ⟨none',rfl⟩,rfl⟩
    rw [stops_after holds single stepped other, comments]
    exact none'

theorem delete_of_refuses {target : BlockTarget} {line : Nat} (refuses : target.refusesBody.isSome = true)
    (mem : line ∈ target.lines) : ∃ range, target = .delete range := by
  cases target with
  | delete range => exact ⟨range,rfl⟩
  | deleteBlock anchor => exact absurd mem List.not_mem_nil
  | _ => contradiction

/-- The last line opens a hunk: a delete needs its lines to be free, any other hunk still waits for its body. -/
theorem stops_after_header {target : BlockTarget} {lineNum : Nat} (single : SingleTarget (Targets x))
    (older : ∀ line n, Targets x line n → n < lineNum) (running : x.terminated = false) :
    (∃ r, (x.feed ⟨lineNum,.opBlock target⟩ >>= Executor.endStreaming) = .ok r) ↔
      (∀ range, target.range? = some range → range.start.line ≤ range.stop.line) ∧ x.complete = true ∧
        ∀ range, target = .delete range → ∀ n ∈ target.lines, ∀ opened, ¬ Targets x n opened := by
  have fed : x.feed ⟨lineNum,.opBlock target⟩ = (do
      validateTarget target lineNum
      let z ← { x with skippableComments := [] }.flushPending
      .ok { z with pending := some ⟨target,lineNum,[]⟩ }) := by
    rw [Executor.feed, running]
    rfl
  have opened (z : Executor) (comments : z.skippableComments = [])
      (lowered : ∀ line n, Deletes z.edits line n ↔ Targets x line n) :
      (∃ r, ({ z with pending := some ⟨target,lineNum,[]⟩ } : Executor).endStreaming = .ok r) ↔
        ∀ range, target = .delete range → ∀ n ∈ target.lines, ∀ opened, ¬ Targets x n opened := by
    have holds : HoldsComments { z with pending := some ⟨target,lineNum,[]⟩ } := by
      refine ⟨fun comment mem => ?_,fun some' => absurd comments some'⟩
      rw [show z.skippableComments = [] from comments] at mem
      exact absurd mem List.not_mem_nil
    have settles : ∀ line n, Settles { z with pending := some ⟨target,lineNum,[]⟩ } line n ↔
        Targets x line n ∨ target.refusesBody.isSome = true ∧ line ∈ target.lines ∧ n = lineNum := by
      intro line n
      have before : Deletes z.edits line n ↔ Targets x line n := lowered line n
      have filled : ({ z with pending := some ⟨target,lineNum,[]⟩ } : Executor).complete = target.refusesBody.isSome := by
        simp [Executor.complete, flushes]
      have hits : Targets { z with pending := some ⟨target,lineNum,[]⟩ } line n ↔
          Targets x line n ∨ line ∈ target.lines ∧ n = lineNum := by
        rw [Targets, before]
        simp only [Option.some.injEq, exists_eq_left', @eq_comm _ lineNum]
        rw [and_comm]
      rw [Settles, hits, filled, before]
      tauto
    rw [endStreaming_ok_iff holds, and_iff_right (show z.skippableComments = [] from comments)]
    constructor
    · intro alone range isDelete n mem opener hit
      have same := alone n opener lineNum ((settles n opener).mpr (.inl hit))
        ((settles n lineNum).mpr (.inr ⟨by rw [isDelete]; rfl,mem,rfl⟩))
      have before := older n opener hit
      omega
    · intro free line n m first second
      have isFree : target.refusesBody.isSome = true → line ∈ target.lines → ∀ opener, ¬ Targets x line opener := by
        intro refuses mem
        obtain ⟨range,isDelete⟩ := delete_of_refuses refuses mem
        exact free range isDelete line mem
      rcases (settles line n).mp first with early | ⟨refuses,mem,rfl⟩
      · rcases (settles line m).mp second with early' | ⟨refuses,mem,rfl⟩
        · exact single line n m early early'
        · exact absurd early (isFree refuses mem n)
      · rcases (settles line m).mp second with early' | ⟨_,_,rfl⟩
        · exact absurd early' (isFree refuses mem m)
        · rfl
  constructor
  · rintro ⟨r,ok⟩
    obtain ⟨y,stepped,stop⟩ := bind_ok.mp ok
    rw [fed] at stepped
    obtain ⟨_,valid,rest⟩ := bind_ok.mp stepped
    obtain ⟨z,flushed,last⟩ := bind_ok.mp rest
    cases last
    obtain ⟨complete,_,_,comments,lowered⟩ := flushPending_ok flushed
    exact ⟨validateTarget_ok_iff.mp valid,complete,(opened z comments lowered).mp ⟨r,stop⟩⟩
  · rintro ⟨order,complete,free⟩
    have filled : ({ x with skippableComments := [] } : Executor).complete = true := complete
    obtain ⟨z,flushed⟩ := flushPending_total filled
    obtain ⟨_,_,_,comments,lowered⟩ := flushPending_ok flushed
    obtain ⟨r,stop⟩ := (opened z comments lowered).mpr free
    refine ⟨r,bind_ok.mpr ⟨_,?_,stop⟩⟩
    rw [fed]
    exact bind_ok.mpr ⟨(),validateTarget_ok_iff.mpr order,bind_ok.mpr ⟨z,flushed,rfl⟩⟩

theorem lineFine_iff {line : JsString} {lineNum : Nat} (holds : HoldsComments x) (single : SingleTarget (Targets x))
    (older : ∀ line n, Targets x line n → n < lineNum) (running : x.terminated = false)
    (body : ∀ text, classifyKind (stripCarriageReturn line) = .payloadLiteral text →
      ∃ y, x.feed ⟨lineNum,.payloadLiteral text⟩ = .ok y) :
    (∃ r, (x.feed (classifyLine (stripCarriageReturn line) lineNum) >>= Executor.endStreaming) = .ok r) ↔ LineFine x line := by
  unfold LineFine classifyLine
  cases kind : classifyKind (stripCarriageReturn line) with
  | opBlock target => exact stops_after_header single older running
  | payloadLiteral text =>
    obtain ⟨y,fed⟩ := body text kind
    have consumed := fed
    rw [Executor.feed, running, if_neg (by decide)] at consumed
    obtain ⟨x',consumed,handled⟩ := bind_ok.mp consumed
    obtain ⟨none',rfl⟩ := (consume_ok_iff holds).mp consumed
    rw [stops_after holds single fed (by simp), (handleLiteralPayload_same handled).comments]
    simpa using none'
  | raw text =>
    by_cases comment : (x.pending.isNone && isSkippableCommentLine text) = true
    · have fed : x.feed ⟨lineNum,.raw text⟩ =
          .ok { x with skippableComments := x.skippableComments ++ [⟨lineNum,text⟩] } := by
        rw [Executor.feed, running]
        dsimp only
        rw [if_neg (by decide), if_pos comment]
      obtain ⟨closed,hash⟩ := Bool.and_eq_true_iff.mp comment
      rw [stops_after holds single fed (by simp)]
      simp [Option.isNone_iff_eq_none.mp closed, comment_visible hash]
    · have fed : x.feed ⟨lineNum,.raw text⟩ = (do
          let x ← x.consumePendingSkippableComments
          x.handleRaw text lineNum) := by
        rw [Executor.feed, running]
        dsimp only
        rw [if_neg (by decide), if_neg comment]
      constructor
      · rintro ⟨r,ok⟩
        obtain ⟨y,stepped,_⟩ := bind_ok.mp ok
        rw [fed] at stepped
        obtain ⟨x',consumed,handled⟩ := bind_ok.mp stepped
        obtain ⟨none',rfl⟩ := (consume_ok_iff holds).mp consumed
        exact ⟨none',handleRaw_ok_iff.mp ⟨y,handled⟩⟩
      · rintro ⟨none',accepted⟩
        obtain ⟨y,handled⟩ := handleRaw_ok_iff.mpr accepted
        have stepped : x.feed ⟨lineNum,.raw text⟩ = .ok y := by
          rw [fed]
          exact bind_ok.mpr ⟨x,(consume_ok_iff holds).mpr ⟨none',rfl⟩,handled⟩
        rw [stops_after holds single stepped (by simp), (handleRaw_same handled).comments]
        exact none'
  | header path fileHash =>
    have fed : x.feed ⟨lineNum,.header path fileHash⟩ = (do
        let x ← x.consumePendingSkippableComments
        x.flushPending) := by
      rw [Executor.feed, running]
      rfl
    constructor
    · rintro ⟨r,ok⟩
      obtain ⟨y,stepped,_⟩ := bind_ok.mp ok
      rw [fed] at stepped
      obtain ⟨x',consumed,flushed⟩ := bind_ok.mp stepped
      obtain ⟨none',rfl⟩ := (consume_ok_iff holds).mp consumed
      exact ⟨none',(flushPending_ok flushed).1⟩
    · rintro ⟨none',complete⟩
      obtain ⟨y,flushed⟩ := flushPending_total complete
      have stepped : x.feed ⟨lineNum,.header path fileHash⟩ = .ok y := by
        rw [fed]
        exact bind_ok.mpr ⟨x,(consume_ok_iff holds).mpr ⟨none',rfl⟩,flushed⟩
      rw [stops_after holds single stepped (by simp), (flushPending_ok flushed).2.2.2.1]
      exact none'
  | abort =>
    have fed : x.feed ⟨lineNum,.abort⟩ = .ok { x with terminated := true } := by
      rw [Executor.feed, running]
      rfl
    rw [stops_after holds single fed (by simp)]
  | envelopeEnd =>
    refine stops_after_consuming (fun x => { x with terminated := true }) holds single ?_ rfl (by simp)
    rw [Executor.feed, running]
    rfl
  | envelopeBegin =>
    refine stops_after_consuming id holds single ?_ rfl (by simp)
    rw [Executor.feed, running]
    exact (bind_pure _).symm
  | blank =>
    refine stops_after_consuming id holds single ?_ rfl (by simp)
    rw [Executor.feed, running]
    exact (bind_pure _).symm

end lastLine

section prefixes

theorem payload_starts {line text : JsString} (kind : classifyKind line = .payloadLiteral text) :
    line = payloadReplace :: text := by
  have plain : classifyPlain line = .payloadLiteral text → line = payloadReplace :: text := by
    intro read
    cases line with
    | nil => contradiction
    | cons c rest =>
      rw [classifyPlain] at read
      split at read
      · rename_i plus
        cases read
        rw [beq_iff_eq.mp plus]
      · contradiction
  unfold classifyKind at kind
  split at kind
  · contradiction
  · split at kind
    · contradiction
    · split at kind
      · contradiction
      · split at kind
        · contradiction
        · split at kind
          · contradiction
          · unfold classifyBody at kind
            split at kind
            · split at kind
              · contradiction
              · exact plain kind
            · exact plain kind

theorem strip_plus (rest : JsString) : ∃ kept, stripCarriageReturn (payloadReplace :: rest) = payloadReplace :: kept := by
  unfold stripCarriageReturn
  split
  · rename_i ends
    cases rest with
    | nil => exact absurd ends (by decide)
    | cons c rest => exact ⟨_,rfl⟩
  · exact ⟨rest,rfl⟩

theorem strip_starts {line rest : JsString} (start : stripCarriageReturn line = payloadReplace :: rest) :
    ∃ tail, line = payloadReplace :: tail := by
  unfold stripCarriageReturn at start
  split at start
  · have front := List.dropLast_prefix line
    rw [start] at front
    obtain ⟨tail,rfl⟩ := front
    exact ⟨_,rfl⟩
  · exact ⟨rest,start⟩

/- The tokens of the lines from line `lineNum` of the patch on. -/
def tokensOf (lineNum : Nat) (lines : List JsString) : List Token :=
  let last := lines.getLastD []
  classifyFrom lineNum lines.dropLast ++
    if last.isEmpty then [] else [classifyLine (stripCarriageReturn last) (lineNum + lines.dropLast.length)]

theorem tokensOf_append (lineNum : Nat) (front : List JsString) {rest : List JsString} (some' : rest ≠ []) :
    tokensOf lineNum (front ++ rest) = classifyFrom lineNum front ++ tokensOf (lineNum + front.length) rest := by
  have last : (front ++ rest).getLastD [] = rest.getLastD [] := by
    rw [List.getLastD_eq_getLast?, List.getLast?_append_of_ne_nil _ some', ← List.getLastD_eq_getLast?]
  simp only [tokensOf, last, List.dropLast_append_of_ne_nil some', classifyFrom_append, List.length_append,
    List.append_assoc, Nat.add_assoc]

theorem tokenize_before (p q : JsString) : tokenizeAll (p ++ q) = classifyFrom 1 (splitLines p).dropLast ++
    tokensOf (1 + (splitLines p).dropLast.length) (splitLines (lastLine p ++ q)) := by
  rw [tokenizeAll_lines, splitLines_append]
  exact tokensOf_append 1 _ (splitLines_ne_nil _)

theorem tokenize_stop (p : JsString) : tokenizeAll p = classifyFrom 1 (splitLines p).dropLast ++
    tokensOf (1 + (splitLines p).dropLast.length) [lastLine p] := by
  have same := tokenize_before p []
  have one : splitLines (lastLine p) = [lastLine p] := List.splitOn_eq_singleton (lastLine_clean p)
  rwa [List.append_nil, List.append_nil, one] at same

/-- The line that a patch goes on with begins as its prefix left it. -/
theorem first_token_plus (lineNum : Nat) (rest more : JsString) : ∃ text later,
    tokensOf lineNum (splitLines (payloadReplace :: rest ++ more)) = ⟨lineNum,.payloadLiteral text⟩ :: later := by
  obtain ⟨first,others,pieces⟩ : ∃ first others, splitLines (payloadReplace :: rest ++ more) =
      (payloadReplace :: first) :: others := by
    have step : splitLines (payloadReplace :: (rest ++ more)) = (splitLines (rest ++ more)).modifyHead (payloadReplace :: ·) :=
      List.splitOn_cons_eq_if_modifyHead payloadReplace (rest ++ more)
    obtain ⟨first,others,split⟩ := List.exists_cons_of_ne_nil (splitLines_ne_nil (rest ++ more))
    exact ⟨first,others,by rw [List.cons_append, step, split]; rfl⟩
  obtain ⟨kept,stripped⟩ := strip_plus first
  have token : classifyLine (stripCarriageReturn (payloadReplace :: first)) lineNum = ⟨lineNum,.payloadLiteral kept⟩ := by
    rw [stripped, classifyLine, classify_row]
  rw [pieces]
  cases others with
  | nil => exact ⟨kept,[],by simp [tokensOf, classifyFrom, token]⟩
  | cons next others => exact ⟨kept,_,by rw [tokensOf, List.dropLast_cons_cons, classifyFrom, token]; rfl⟩

theorem feed_terminated {x : Executor} (tokens : List Token) (ended : x.terminated = true) :
    tokens.foldlM Executor.feed x = .ok x := by
  induction tokens with
  | nil => rfl
  | cons token tokens ih =>
    have stays : x.feed token = .ok x := by rw [Executor.feed, ended]; rfl
    rw [List.foldlM_cons, stays]
    exact ih

/-- Whether a body row is accepted does not depend on its text. -/
theorem payload_accepted {x y : Executor} {text : JsString} {lineNum : Nat}
    (ok : x.feed ⟨lineNum,.payloadLiteral text⟩ = .ok y) (other : JsString) :
    ∃ z, x.feed ⟨lineNum,.payloadLiteral other⟩ = .ok z := by
  unfold Executor.feed at ok ⊢
  cases ended : x.terminated with
  | true => exact ⟨x,rfl⟩
  | false =>
    rw [ended] at ok
    obtain ⟨x',consumed,handled⟩ := bind_ok.mp ok
    unfold Executor.handleLiteralPayload at handled
    cases held : x'.pending with
    | none => simp [held] at handled
    | some pending =>
      cases refused : pending.target.refusesBody with
      | some message => simp [held, refused] at handled
      | none => exact ⟨_,bind_ok.mpr ⟨x',consumed,by simp [Executor.handleLiteralPayload, held, refused]; rfl⟩⟩

theorem classifyFrom_lineNum {token : Token} {lines : List JsString} {lineNum : Nat}
    (mem : token ∈ classifyFrom lineNum lines) : token.lineNum < lineNum + lines.length := by
  induction lines generalizing lineNum with
  | nil => exact absurd mem List.not_mem_nil
  | cons line lines ih =>
    rw [List.length_cons]
    rcases List.mem_cons.mp mem with rfl | later
    · simp only [classifyLine]
      omega
    · have bound := ih later
      omega

end prefixes

theorem new_holds : HoldsComments Executor.new :=
  ⟨fun _ mem => absurd mem List.not_mem_nil,fun some' => absurd rfl some'⟩

theorem new_targets (line n : Nat) : ¬ Targets Executor.new line n := by
  rintro (⟨d,mem,_⟩ | ⟨pending,held,_⟩)
  · exact absurd mem List.not_mem_nil
  · contradiction

/-- Stopping behind the line begun last, from where the whole lines before it left the parser. -/
theorem stop_iff {x z : Executor} {lineNum : Nat} {line q : JsString} {r : ParseResult} (holds : HoldsComments x)
    (older : ∀ line n, Targets x line n → n < lineNum)
    (rest : (tokensOf lineNum (splitLines (line ++ q))).foldlM Executor.feed x = .ok z) (finished : z.finish = .ok r) :
    (∃ s, ((tokensOf lineNum [line]).foldlM Executor.feed x >>= Executor.endStreaming) = .ok s) ↔
      x.terminated = true ∨ LineFine x line := by
  obtain ⟨lastHolds,grows,_⟩ := feeds_targets holds rest
  obtain ⟨noComments,_,singleLast⟩ := finish_single lastHolds finished
  have single : SingleTarget (Targets x) := by
    intro n a b first second
    exact singleLast n a b (grows n a first) (grows n b second)
  cases ended : x.terminated with
  | true =>
    have stays : z = x := by
      rw [feed_terminated _ ended] at rest
      exact (Except.ok.inj rest).symm
    rw [feed_terminated _ ended]
    refine iff_of_true ?_ (.inl rfl)
    exact (endStreaming_ok_iff holds).mpr ⟨stays ▸ noComments,settles_single single⟩
  | false =>
    rw [or_iff_right (by decide)]
    cases line with
    | nil =>
      have nothing : tokensOf lineNum [[]] = [] := rfl
      rw [nothing]
      refine (endStreaming_ok_iff holds).trans ?_
      exact and_iff_left (settles_single single)
    | cons c tail =>
      have one : tokensOf lineNum [c :: tail] = [classifyLine (stripCarriageReturn (c :: tail)) lineNum] := rfl
      have run : ([classifyLine (stripCarriageReturn (c :: tail)) lineNum].foldlM Executor.feed x >>= Executor.endStreaming) =
          (x.feed (classifyLine (stripCarriageReturn (c :: tail)) lineNum) >>= Executor.endStreaming) := by
        rw [List.foldlM_cons, show (fun y => [].foldlM Executor.feed y) = (pure : Executor → Except JsString Executor) from rfl,
          bind_pure]
      rw [one, run]
      refine lineFine_iff holds single older ended ?_
      intro text kind
      obtain ⟨front,start⟩ := strip_starts (payload_starts kind)
      obtain ⟨other,later,tokens⟩ := first_token_plus lineNum front q
      rw [start, tokens, List.foldlM_cons] at rest
      obtain ⟨y,fed,_⟩ := bind_ok.mp rest
      exact payload_accepted fed text

theorem cut_ok_iff {d : JsString} {r : ParseResult} (parsed : parsePatch d = .ok r) :
    parsePatchStreaming d = .ok r ∧ ∀ p, p <+: d → ((∃ s, parsePatchStreaming p = .ok s) ↔ CutFine p) := by
  obtain ⟨z,ran,finished⟩ := bind_ok.mp parsed
  constructor
  · obtain ⟨holds,_⟩ := feeds_targets new_holds ran
    exact bind_ok.mpr ⟨z,ran,endStreaming_of_finish holds finished⟩
  · rintro p ⟨q,rfl⟩
    rw [tokenize_before, List.foldlM_append] at ran
    obtain ⟨x,whole,rest⟩ := bind_ok.mp ran
    obtain ⟨holds,_,news⟩ := feeds_targets new_holds whole
    have older : ∀ line n, Targets x line n → n < 1 + (splitLines p).dropLast.length := by
      intro line n hit
      rcases news line n hit with early | ⟨token,mem,rfl⟩
      · exact absurd early (new_targets line n)
      · exact classifyFrom_lineNum mem
    have cut : CutFine p ↔ x.terminated = true ∨ LineFine x (lastLine p) := by
      constructor
      · rintro ⟨other,fed,fine⟩
        obtain rfl : x = other := Except.ok.inj (whole.symm.trans fed)
        exact fine
      · intro fine
        exact ⟨x,whole,fine⟩
    rw [cut, ← stop_iff holds older rest finished, parsePatchStreaming, tokenize_stop, List.foldlM_append, whole]
    rfl

section firstVisible

def Blank (text : JsString) : Prop := ∀ c ∈ text, isWhitespace c = true

/- Nothing but, perhaps, the last character of the text is visible. -/
def BarelyBegun (text : JsString) : Prop := Blank text.dropLast

theorem blank_of_subset {part text : JsString} (blank : Blank text) (inside : part ⊆ text) : Blank part :=
  fun c mem => blank c (inside mem)

theorem begun_of_blank {text : JsString} (blank : Blank text) : BarelyBegun text :=
  blank_of_subset blank (List.dropLast_subset text)

theorem begun_suffix {text part : JsString} (begun : BarelyBegun text) (ends : part <:+ text) : BarelyBegun part := by
  obtain ⟨front,rfl⟩ := ends
  by_cases none' : part = []
  · subst none'
    exact fun c mem => absurd mem List.not_mem_nil
  · refine blank_of_subset begun ?_
    rw [List.dropLast_append_of_ne_nil none']
    exact List.subset_append_right front _

/-- A word that starts with a visible character begins no such text. -/
theorem begun_no_word {text : JsString} (begun : BarelyBegun text) {a b : CodeUnit} (visible : isWhitespace a = false)
    (rest : JsString) : ¬ (a :: b :: rest) <+: text := by
  rintro ⟨more,rfl⟩
  have blank := begun a (by rw [List.cons_append, List.cons_append, List.dropLast_cons_cons]; exact List.mem_cons_self)
  rw [blank] at visible
  contradiction

variable {line : JsString} {r : ParseResult}

theorem classify_begun (begun : BarelyBegun line) (some' : line ≠ []) : classifyKind line = classifyPlain line := by
  have noMarker (marker : JsString) (a b : CodeUnit) (rest : JsString) (word : marker = a :: b :: rest)
      (visible : isWhitespace a = false) : markerLineEquals line marker = false := by
    rw [markerLineEquals, beq_eq_false_iff_ne]
    intro same
    have front := List.rdropWhile_prefix isWhitespaceCode line
    rw [← untilTrimEnd, same, word] at front
    exact begun_no_word begun visible rest front
  have noHeader : tryParseHeader line = none := by
    have pilcrow : filePrefix = [182] := by decide
    unfold tryParseHeader
    cases starts : startsWith line filePrefix with
    | false => rfl
    | true =>
      obtain ⟨rest,rfl⟩ := List.isPrefixOf_iff_prefix.mp starts
      rw [pilcrow] at begun ⊢
      cases rest with
      | nil => decide
      | cons b rest => exact absurd (List.prefix_refl _) (begun_no_word begun (by decide) rest)
  have noLead : isHunkLead line = false := by
    have lead : BarelyBegun (skipWhitespace line) := begun_suffix begun (List.dropWhile_suffix _)
    have noWord (keyword : JsString) (a b : CodeUnit) (rest : JsString) (word : keyword = a :: b :: rest)
        (visible : isWhitespace a = false) : startsWith (skipWhitespace line) keyword = false := by
      rw [startsWith, word, Bool.eq_false_iff]
      intro starts
      exact begun_no_word lead visible rest (List.isPrefixOf_iff_prefix.mp starts)
    unfold isHunkLead
    dsimp only
    rw [noWord replaceKeyword 114 101 (js "place") (by decide) (by decide),
      noWord deleteKeyword 100 101 (js "lete") (by decide) (by decide),
      noWord insertKeyword 105 110 (js "sert") (by decide) (by decide)]
    rfl
  have visibleLine : line.isEmpty = false := by simpa using some'
  unfold classifyKind classifyBody
  rw [visibleLine, noMarker beginPatchMarker 42 42 (js "* Begin Patch") (by decide) (by decide),
    noMarker endPatchMarker 42 42 (js "* End Patch") (by decide) (by decide),
    noMarker abortMarker 42 42 (js "* Abort") (by decide) (by decide), noHeader, noLead]
  rfl

theorem trimStart_blank {text : JsString} (blank : Blank text) : trimStart text = [] := by
  rw [trimStart, List.dropWhile_eq_nil_iff]
  exact blank

/-- A blank line is no token but a blank or a raw one, and changes nothing. -/
theorem blank_kind (blank : Blank line) : classifyKind line = .blank ∨ classifyKind line = .raw line := by
  cases line with
  | nil => exact .inl rfl
  | cons c rest =>
    have other : (c == payloadReplace) = false := by
      rw [beq_eq_false_iff_ne]
      rintro rfl
      exact absurd (blank payloadReplace List.mem_cons_self) (by decide)
    rw [classify_begun (begun_of_blank blank) (List.cons_ne_nil _ _), classifyPlain, other]
    exact .inr rfl

theorem blank_raw (blank : Blank line) :
    detectApplyPatchContamination line = none ∧ (trim line).isEmpty = true ∧ isSkippableCommentLine line = false := by
  have start := trimStart_blank blank
  refine ⟨?_,?_,?_⟩
  · simp [detectApplyPatchContamination, start]
  · rw [trim, start]
    rfl
  · rw [isSkippableCommentLine, start]
    decide

theorem feed_blank (blank : Blank line) (lineNum : Nat) :
    Executor.new.feed (classifyLine line lineNum) = .ok Executor.new := by
  rw [classifyLine]
  rcases blank_kind blank with kind | kind
  · rw [kind]
    rfl
  · obtain ⟨clean,empty,noComment⟩ := blank_raw blank
    have handled : Executor.new.handleRaw line lineNum = .ok Executor.new := by
      simp [Executor.handleRaw, clean, empty, Executor.new]
    rw [kind, Executor.feed, if_neg (by decide)]
    dsimp only
    rw [noComment, Bool.and_false, if_neg (by decide)]
    exact handled

theorem strip_subset (line : JsString) : stripCarriageReturn line ⊆ line := by
  unfold stripCarriageReturn
  split
  · exact List.dropLast_subset line
  · exact List.Subset.refl line

theorem feed_blank_lines {lines : List JsString} (blank : ∀ line ∈ lines, Blank line) (lineNum : Nat) :
    (classifyFrom lineNum lines).foldlM Executor.feed Executor.new = .ok Executor.new := by
  induction lines generalizing lineNum with
  | nil => rfl
  | cons line lines ih =>
    have here := blank_of_subset (blank line List.mem_cons_self) (strip_subset line)
    rw [classifyFrom, List.foldlM_cons, feed_blank here]
    exact ih (fun other mem => blank other (List.mem_cons_of_mem line mem)) (lineNum + 1)

theorem cutFine_of_blank {p : JsString} (blank : Blank p) : CutFine p := by
  have pieces : ∀ line ∈ splitLines p, Blank line := fun line mem => blank_of_subset blank (line_subset mem)
  have last : Blank (stripCarriageReturn (lastLine p)) := by
    refine blank_of_subset (pieces (lastLine p) ?_) (strip_subset _)
    rw [split_whole_last]
    exact List.mem_append_right _ List.mem_cons_self
  refine ⟨Executor.new,feed_blank_lines (fun line mem => pieces line (List.dropLast_subset _ mem)) 1,.inr ?_⟩
  unfold LineFine
  rcases blank_kind last with kind | kind
  · rw [kind]
    rfl
  · obtain ⟨clean,empty,_⟩ := blank_raw last
    rw [kind]
    exact ⟨rfl,clean,.inl empty⟩

theorem payload_unopened (lineNum : Nat) (text : JsString) (y : Executor) :
    Executor.new.feed ⟨lineNum,.payloadLiteral text⟩ ≠ .ok y := by
  intro ok
  contradiction

/-- The parse that stops behind the first visible character fails. -/
theorem first_visible_fails {front q : JsString} {c : CodeUnit} (blank : Blank front) (visible : isWhitespace c = false)
    (parsed : parsePatch (front ++ [c] ++ q) = .ok r) : ¬ ∃ s, parsePatchStreaming (front ++ [c]) = .ok s := by
  have noFeed : lineFeed ∉ lastLine front ++ [c] := by
    intro mem
    rcases List.mem_append.mp mem with early | last
    · exact lastLine_clean front early
    · rw [← List.mem_singleton.mp last] at visible
      contradiction
  have pieces : splitLines (front ++ [c]) = (splitLines front).dropLast ++ [lastLine front ++ [c]] := by
    rw [splitLines_append]
    congr 1
    exact List.splitOn_eq_singleton noFeed
  have whole : (splitLines (front ++ [c])).dropLast = (splitLines front).dropLast := by rw [pieces, List.dropLast_concat]
  have line : lastLine (front ++ [c]) = lastLine front ++ [c] := by
    rw [lastLine, pieces]
    simp
  have blankLine : Blank (lastLine front) := by
    refine blank_of_subset blank (line_subset ?_)
    rw [split_whole_last]
    exact List.mem_append_right _ List.mem_cons_self
  have kept : stripCarriageReturn (lastLine front ++ [c]) = lastLine front ++ [c] := by
    have other : (lastLine front ++ [c]).getLast? ≠ some carriageReturn := by
      rw [List.getLast?_concat]
      rintro ⟨⟩
      contradiction
    rw [stripCarriageReturn, if_neg other]
  have begun : BarelyBegun (lastLine front ++ [c]) := by
    rw [BarelyBegun, List.dropLast_concat]
    exact blankLine
  have kind := classify_begun begun (by simp)
  have blankLines : ∀ piece ∈ (splitLines front).dropLast, Blank piece := fun piece mem =>
    blank_of_subset blank (line_subset (List.dropLast_subset _ mem))
  rw [(cut_ok_iff parsed).2 _ (List.prefix_append _ q)]
  rintro ⟨x,fed,fine⟩
  rw [feedLines, whole, feed_blank_lines blankLines] at fed
  obtain rfl := Except.ok.inj fed
  rcases fine with ended | fine
  · contradiction
  · rw [LineFine, line, kept, kind] at fine
    cases text : lastLine front ++ [c] with
    | nil => simp at text
    | cons first tail =>
      rw [text, classifyPlain] at fine
      by_cases plus : (first == payloadReplace) = true
      · -- a body row without a hunk: the full parse refuses it too
        obtain ⟨z,ran,_⟩ := bind_ok.mp parsed
        rw [tokenize_before, whole, List.foldlM_append, feed_blank_lines blankLines, line, text, beq_iff_eq.mp plus] at ran
        obtain ⟨other,later,tokens⟩ := first_token_plus (1 + (splitLines front).dropLast.length) tail q
        obtain ⟨y,handled,rest⟩ := bind_ok.mp ran
        cases handled
        rw [tokens, List.foldlM_cons] at rest
        obtain ⟨y,handled,_⟩ := bind_ok.mp rest
        exact payload_unopened _ _ _ handled
      · rw [if_neg plus] at fine
        rcases fine.2.2 with empty | ⟨pending,held,_⟩
        · rw [← text] at empty
          have nothing : trim (lastLine front ++ [c]) = [] := by simpa using empty
          have seen : c ∈ trimStart (lastLine front ++ [c]) := by
            rw [trimStart, List.dropWhile_append_of_pos (fun d mem => blankLine d mem)]
            simp [visible]
          have blankUnit := List.rdropWhile_eq_nil_iff.mp nothing c seen
          rw [visible] at blankUnit
          contradiction
        · contradiction

theorem safe_iff_blank {d : JsString} (parsed : parsePatch d = .ok r) :
    (∀ p, p <+: d → ∃ s, parsePatchStreaming p = .ok s) ↔ Blank d := by
  constructor
  · intro safe c mem
    by_contra visible
    obtain ⟨front,first,rest,text,blank,seen⟩ : ∃ front first rest, d = front ++ [first] ++ rest ∧ Blank front ∧
        isWhitespace first = false := by
      cases later : d.dropWhile isWhitespace with
      | nil => exact absurd (List.dropWhile_eq_nil_iff.mp later c mem) visible
      | cons first rest =>
        have seen := List.head?_dropWhile_not isWhitespace d
        rw [later] at seen
        refine ⟨d.takeWhile isWhitespace,first,rest,?_,fun unit mem => List.mem_takeWhile_imp mem,by simpa using seen⟩
        rw [List.append_assoc, List.singleton_append, ← later, List.takeWhile_append_dropWhile]
    subst text
    exact first_visible_fails blank seen parsed (safe _ (List.prefix_append _ rest))
  · intro blank p front
    exact ((cut_ok_iff parsed).2 p front).mpr (cutFine_of_blank (blank_of_subset blank front.subset))

end firstVisible

/-- On a valid patch the streaming parse gives what the full parse gives. Cut anywhere, it fails just
when the line cut through cannot stand as it is, and only a blank patch has no such cut. -/
theorem streaming_parse_iff {d : JsString} {r : ParseResult} (parsed : parsePatch d = .ok r) :
    parsePatchStreaming d = .ok r ∧
      (∀ p, p <+: d → ((∃ s, parsePatchStreaming p = .ok s) ↔ CutFine p)) ∧
      ((∀ p, p <+: d → ∃ s, parsePatchStreaming p = .ok s) ↔ Blank d) :=
  ⟨(cut_ok_iff parsed).1,(cut_ok_iff parsed).2,safe_iff_blank parsed⟩

def replacePatch : JsString := js "replace 1..1:\n+x"

def replacePatchEdits : List Edit :=
  [.applied (.insert ⟨.beforeAnchor ⟨1⟩,js "x",1,0,.replacement⟩), .applied (.delete ⟨⟨1⟩,1,1⟩)]

theorem streaming_parse_iff_replace :
    parsePatch replacePatch = .ok ⟨replacePatchEdits,[]⟩ ∧ parsePatchStreaming replacePatch = .ok ⟨replacePatchEdits,[]⟩ := by
  have parsed : parsePatch replacePatch = .ok ⟨replacePatchEdits,[]⟩ := by decide
  exact ⟨parsed,(streaming_parse_iff parsed).1⟩

/-- The keyword is not finished, and the streaming parse refuses it as a stray body row. -/
theorem unfinished_keyword_fails :
    parsePatch replacePatch = .ok ⟨replacePatchEdits,[]⟩ ∧ js "re" <+: replacePatch ∧
      ∃ message, parsePatchStreaming (js "re") = .error message :=
  ⟨by decide,by decide,_,rfl⟩

end Hashline
