import OpenAgents.Hashline.Rendering

/- Parsing rendered hunks gives their edits back. The executor is followed through its states
   between two lines: the edits so far and the hunk that is open. -/
namespace Hashline
open JsText ExceptRun

def payloadTokens : Nat → List JsString → List Token
  | _, [] => []
  | lineNum, row :: rows => ⟨lineNum,.payloadLiteral row⟩ :: payloadTokens (lineNum + 1) rows

def payloadRows : Nat → List JsString → List PayloadRow
  | _, [] => []
  | lineNum, row :: rows => ⟨row,lineNum⟩ :: payloadRows (lineNum + 1) rows

def hunkTokens (lineNum : Nat) (hunk : Hunk) : List Token :=
  ⟨lineNum,.opBlock hunk.target⟩ :: payloadTokens (lineNum + 1) hunk.body

def tokensFrom : Nat → List Hunk → List Token
  | _, [] => []
  | lineNum, hunk :: rest => hunkTokens lineNum hunk ++ tokensFrom (lineNum + hunk.lines.length) rest

/-- A last line that is not empty is a token like the others. -/
theorem lineTokens_full {lines : List JsString} {last : JsString} (ends : lines.getLast? = some last) (full : last ≠ []) :
    lineTokens lines = classifyFrom 1 lines := by
  obtain ⟨early,rfl⟩ := List.getLast?_eq_some_iff.mp ends
  simp [lineTokens, classifyFrom_append, classifyFrom, full]

theorem classify_body (lineNum : Nat) {rows : List JsString} (noReturn : ∀ row ∈ rows, row.getLast? ≠ some carriageReturn) :
    classifyFrom lineNum (rows.map (payloadReplace :: ·)) = payloadTokens lineNum rows := by
  induction rows generalizing lineNum with
  | nil => rfl
  | cons row rows ih =>
    have kept : stripCarriageReturn (payloadReplace :: row) = payloadReplace :: row := by
      have other : (payloadReplace :: row).getLast? ≠ some carriageReturn := by
        cases row with
        | nil => decide
        | cons c rest =>
          rw [List.getLast?_cons_cons]
          exact noReturn _ List.mem_cons_self
      rw [stripCarriageReturn, if_neg other]
    have later := ih (lineNum + 1) fun other mem => noReturn other (List.mem_cons_of_mem row mem)
    simp [classifyFrom, payloadTokens, classifyLine, kept, classify_row, later]

theorem header_unbroken (hunk : Hunk) : lineFeed ∉ hunk.header ∧ carriageReturn ∉ hunk.header := by
  have words : ∀ word ∈ [js "replace ", js "delete ", js "insert before ", js "insert after ", js "insert head:",
      js "insert tail:", js "..", js ":"], lineFeed ∉ word ∧ carriageReturn ∉ word := by decide
  simp only [List.forall_mem_cons] at words
  obtain ⟨replace,delete,before,after,head,tail,dots,colon,-⟩ := words
  have digits := decimal_unbroken
  cases hunk with
  | replace start stop body => simp [Hunk.header, formatReplaceHeader, replace, dots, colon, digits]
  | delete start stop =>
    rw [Hunk.header, formatDeleteHeader]
    split
    · simp [delete, digits]
    · simp [delete, dots, digits]
  | insert cursor body =>
    cases cursor with
    | beforeAnchor anchor => simp [Hunk.header, formatInsertHeader, before, colon, digits]
    | afterAnchor anchor => simp [Hunk.header, formatInsertHeader, after, colon, digits]
    | bof => exact head
    | eof => exact tail

variable {hunk : Hunk} {hunks : List Hunk} {d : DeleteEdit}

theorem header_nonempty (wf : hunk.WellFormed) : hunk.header ≠ [] := by
  intro empty
  have kind := classify_header wf
  rw [empty] at kind
  cases kind

theorem hunk_lines_clean (wf : hunk.WellFormed) : ∀ line ∈ hunk.lines, lineFeed ∉ line ∧ line ≠ [] := by
  intro line mem
  rcases List.mem_cons.mp mem with rfl | row
  · exact ⟨(header_unbroken hunk).1,header_nonempty wf⟩
  · obtain ⟨text,among,rfl⟩ := List.mem_map.mp row
    refine ⟨?_,by simp⟩
    intro broken
    rcases List.mem_cons.mp broken with same | inside
    · exact absurd same (by decide)
    · exact wf.oneLine text among inside

theorem classify_hunk_lines (wf : hunk.WellFormed) (lineNum : Nat) :
    classifyFrom lineNum hunk.lines = hunkTokens lineNum hunk := by
  have kept : stripCarriageReturn hunk.header = hunk.header := by
    rw [stripCarriageReturn, if_neg]
    intro last
    exact (header_unbroken hunk).2 (List.mem_of_getLast? last)
  rw [Hunk.lines, classifyFrom, kept, classifyLine, classify_header wf, classify_body _ wf.noReturn, hunkTokens]

theorem classify_hunks (wf : ∀ hunk ∈ hunks, hunk.WellFormed) (lineNum : Nat) :
    classifyFrom lineNum (hunks.flatMap Hunk.lines) = tokensFrom lineNum hunks := by
  induction hunks generalizing lineNum with
  | nil => rfl
  | cons hunk rest ih =>
    have later := ih (fun other mem => wf other (List.mem_cons_of_mem hunk mem)) (lineNum + hunk.lines.length)
    rw [List.flatMap_cons, classifyFrom_append, classify_hunk_lines (wf hunk List.mem_cons_self), later, tokensFrom]

theorem render_tokens (wf : ∀ hunk ∈ hunks, hunk.WellFormed) : tokenizeAll (renderHunks hunks) = tokensFrom 1 hunks := by
  cases hunks with
  | nil => rfl
  | cons hunk rest =>
    have clean : ∀ line ∈ (hunk :: rest).flatMap Hunk.lines, lineFeed ∉ line ∧ line ≠ [] := by
      intro line mem
      obtain ⟨owner,among,inside⟩ := List.mem_flatMap.mp mem
      exact hunk_lines_clean (wf owner among) line inside
    have nonempty : (hunk :: rest).flatMap Hunk.lines ≠ [] := by simp [Hunk.lines]
    have ends := List.getLast?_eq_some_getLast nonempty
    have full := (clean _ (List.getLast_mem nonempty)).2
    rw [tokenizeAll_lines, renderHunks, split_join _ (fun line mem => (clean line mem).1) nonempty,
      lineTokens_full ends full, classify_hunks wf]

/- The executor between two lines. -/
def stateOf (bare : List AppliedEdit) (pending : Option Pending) : Executor :=
  ⟨(cloneAppliedEdits bare).map .applied,[],bare.length,pending,false,[]⟩

theorem clone_append (bare : List AppliedEdit) (edit : AppliedEdit) :
    cloneAppliedEdits (bare ++ [edit]) = cloneAppliedEdits bare ++ [cloneAppliedEdit edit bare.length] := by
  simp [cloneAppliedEdits, List.zipIdx_append]

theorem emit_rows (bare : List AppliedEdit) (cursor : Cursor) (rows : List PayloadRow) (lineNum : Nat) (mode : InsertMode) :
    (stateOf bare none).emitPayloadRows cursor rows lineNum mode =
      stateOf (bare ++ rows.map fun row => .insert ⟨cursor,row.text,lineNum,0,mode⟩) none := by
  induction rows generalizing bare with
  | nil => simp [Executor.emitPayloadRows]
  | cons row rows ih =>
    have pushed : (stateOf bare none).pushInsert cursor row.text lineNum mode =
        stateOf (bare ++ [.insert ⟨cursor,row.text,lineNum,0,mode⟩]) none := by
      simp [Executor.pushInsert, stateOf, clone_append, cloneAppliedEdit]
    have later := ih (bare ++ [.insert ⟨cursor,row.text,lineNum,0,mode⟩])
    simp only [Executor.emitPayloadRows, List.foldl_cons] at later ⊢
    rw [pushed, later]
    simp

theorem emit_deletes (bare : List AppliedEdit) (anchors : List Anchor) (lineNum : Nat) :
    (stateOf bare none).emitDeletes anchors lineNum =
      stateOf (bare ++ anchors.map fun anchor => .delete ⟨anchor,lineNum,0⟩) none := by
  induction anchors generalizing bare with
  | nil => simp [Executor.emitDeletes]
  | cons anchor anchors ih =>
    have pushed : (stateOf bare none).pushDelete anchor lineNum =
        stateOf (bare ++ [.delete ⟨anchor,lineNum,0⟩]) none := by
      simp [Executor.pushDelete, stateOf, clone_append, cloneAppliedEdit]
    have later := ih (bare ++ [.delete ⟨anchor,lineNum,0⟩])
    simp only [Executor.emitDeletes, List.foldl_cons] at later ⊢
    rw [pushed, later]
    simp

/- Only an insert may be written without rows, and it is refused. -/
def Hunk.hasBody : Hunk → Prop
  | .insert _ body => body ≠ []
  | _ => True

theorem payloadRows_text (lineNum : Nat) (rows : List JsString) : (payloadRows lineNum rows).map PayloadRow.text = rows := by
  induction rows generalizing lineNum with
  | nil => rfl
  | cons row rows ih => simp [payloadRows, ih]

def hunkPending (lineNum : Nat) (hunk : Hunk) : Pending := ⟨hunk.target,lineNum,payloadRows (lineNum + 1) hunk.body⟩

theorem rows_map (lineNum : Nat) (rows : List JsString) (edit : JsString → AppliedEdit) :
    ((payloadRows lineNum rows).map fun row => edit row.text) = rows.map edit := by
  rw [← payloadRows_text lineNum rows, List.map_map, payloadRows_text]
  rfl

theorem payloadRows_empty (lineNum : Nat) (rows : List JsString) : (payloadRows lineNum rows).isEmpty = rows.isEmpty := by
  cases rows with
  | nil => rfl
  | cons row rows => rfl

theorem deletes_map (start stop lineNum : Nat) :
    ((expandRange ⟨⟨start⟩,⟨stop⟩⟩).map fun anchor => AppliedEdit.delete ⟨anchor,lineNum,0⟩) =
      (spanLines start stop).map fun line => .delete ⟨⟨line⟩,lineNum,0⟩ := by
  simp [expandRange]

theorem insert_flush (bare : List AppliedEdit) (lineNum : Nat) (cursor : Cursor) {body : List JsString} (full : body ≠ []) :
    Executor.flushTarget.insertAt (stateOf bare none) lineNum (payloadRows (lineNum + 1) body) cursor =
      .ok (stateOf (bare ++ (Hunk.insert cursor body).lowered lineNum) none) := by
  have some_row : (payloadRows (lineNum + 1) body).isEmpty = false := by
    rw [payloadRows_empty, List.isEmpty_eq_false_iff]
    exact full
  rw [Executor.flushTarget.insertAt, some_row, emit_rows, rows_map (lineNum + 1) body fun row =>
    .insert ⟨cursor,row,lineNum,0,.literal⟩]
  rfl

theorem flush_hunk_pending (bare : List AppliedEdit) (lineNum : Nat) (wf : hunk.WellFormed) (full : hunk.hasBody) :
    (stateOf bare (some (hunkPending lineNum hunk))).flushPending = .ok (stateOf (bare ++ hunk.lowered lineNum) none) := by
  have step : (stateOf bare (some (hunkPending lineNum hunk))).flushPending =
      (stateOf bare none).flushTarget hunk.target lineNum (payloadRows (lineNum + 1) hunk.body) := rfl
  rw [step]
  cases hunk with
  | replace start stop body =>
    have some_row : (payloadRows (lineNum + 1) body).isEmpty = false := by
      rw [payloadRows_empty, List.isEmpty_eq_false_iff]
      exact wf.inOrder.2.2
    simp only [Hunk.target, Hunk.body, Executor.flushTarget, some_row, Bool.false_eq_true, if_false]
    rw [emit_rows, emit_deletes, deletes_map, rows_map (lineNum + 1) body fun row =>
      .insert ⟨.beforeAnchor ⟨start⟩,row,lineNum,0,.replacement⟩, List.append_assoc]
    rfl
  | delete start stop =>
    simp only [Hunk.target, Executor.flushTarget]
    rw [emit_deletes, deletes_map]
    rfl
  | insert cursor body =>
    cases cursor with
    | beforeAnchor anchor => exact insert_flush bare lineNum (.beforeAnchor anchor) full
    | afterAnchor anchor => exact insert_flush bare lineNum (.afterAnchor anchor) full
    | bof => exact insert_flush bare lineNum .bof full
    | eof => exact insert_flush bare lineNum .eof full

theorem flush_empty_insert (bare : List AppliedEdit) (lineNum : Nat) (empty : ¬hunk.hasBody) :
    (stateOf bare (some (hunkPending lineNum hunk))).flushPending = .error (atLine lineNum emptyInsert) := by
  cases hunk with
  | replace start stop body => exact absurd trivial empty
  | delete start stop => exact absurd trivial empty
  | insert cursor body =>
    obtain rfl : body = [] := by simpa [Hunk.hasBody] using empty
    cases cursor with
    | beforeAnchor anchor => rfl
    | afterAnchor anchor => rfl
    | bof => rfl
    | eof => rfl

/-- The rows of a hunk are taken up one by one. -/
theorem feed_rows (bare : List AppliedEdit) {target : BlockTarget} (accepts : target.refusesBody = none)
    (opened next : Nat) (taken : List PayloadRow) (rows : List JsString) :
    (payloadTokens next rows).foldlM Executor.feed (stateOf bare (some ⟨target,opened,taken⟩)) =
      .ok (stateOf bare (some ⟨target,opened,taken ++ payloadRows next rows⟩)) := by
  induction rows generalizing next taken with
  | nil => simp [payloadTokens, payloadRows, pure, Except.pure]
  | cons row rows ih =>
    have step : (stateOf bare (some ⟨target,opened,taken⟩)).feed ⟨next,.payloadLiteral row⟩ =
        .ok (stateOf bare (some ⟨target,opened,taken ++ [⟨row,next⟩]⟩)) := by
      simp only [Executor.feed, stateOf, Bool.false_eq_true, if_false, Executor.consumePendingSkippableComments,
        List.foldlM_nil, pure, Except.pure, bind, Except.bind, Executor.handleLiteralPayload, accepts]
    rw [payloadTokens, List.foldlM_cons, step]
    simp only [bind, Except.bind, ih, payloadRows, List.append_assoc, List.singleton_append]

theorem target_valid (wf : hunk.WellFormed) (lineNum : Nat) : validateTarget hunk.target lineNum = .ok () := by
  cases hunk with
  | replace start stop body =>
    have ordered : ¬stop < start := Nat.not_lt.mpr wf.inOrder.2.1
    simp [Hunk.target, validateTarget, validateRangeOrder, ordered]
  | delete start stop =>
    have ordered : ¬stop < start := Nat.not_lt.mpr wf.inOrder.2
    simp [Hunk.target, validateTarget, validateRangeOrder, ordered]
  | insert cursor body =>
    cases cursor with
    | beforeAnchor anchor => rfl
    | afterAnchor anchor => rfl
    | bof => rfl
    | eof => rfl

/-- A header closes the open hunk and opens its own. -/
theorem feed_header (bare : List AppliedEdit) (pending : Option Pending) (wf : hunk.WellFormed) (lineNum : Nat) :
    (stateOf bare pending).feed ⟨lineNum,.opBlock hunk.target⟩ =
      (stateOf bare pending).flushPending.map fun x => { x with pending := some ⟨hunk.target,lineNum,[]⟩ } := by
  have kept : { stateOf bare pending with skippableComments := [] } = stateOf bare pending := rfl
  simp only [Executor.feed, target_valid wf, bind, Except.bind, stateOf, Bool.false_eq_true, if_false]
  cases Executor.flushPending _ with
  | error e => rfl
  | ok x => rfl

theorem feed_hunk {bare after : List AppliedEdit} {pending : Option Pending}
    (flushed : (stateOf bare pending).flushPending = .ok (stateOf after none)) (wf : hunk.WellFormed) (lineNum : Nat) :
    (hunkTokens lineNum hunk).foldlM Executor.feed (stateOf bare pending) =
      .ok (stateOf after (some (hunkPending lineNum hunk))) := by
  have opened := feed_header bare pending wf lineNum
  rw [flushed] at opened
  rw [hunkTokens, List.foldlM_cons, opened]
  cases hunk with
  | replace start stop body => exact feed_rows after rfl lineNum (lineNum + 1) [] body
  | delete start stop => rfl
  | insert cursor body =>
    have accepts : (Hunk.insert cursor body).target.refusesBody = none := by cases cursor <;> rfl
    exact feed_rows after accepts lineNum (lineNum + 1) [] body

/- What the parser does with the rest of the tokens from a state. -/
def runFrom (x : Executor) (tokens : List Token) : Except JsString ParseResult := do
  let x ← tokens.foldlM Executor.feed x
  x.finish

theorem run_append {x y : Executor} {tokens more : List Token} (ran : tokens.foldlM Executor.feed x = .ok y) :
    runFrom x (tokens ++ more) = runFrom y more := by
  rw [runFrom, List.foldlM_append, ran]
  rfl

theorem finish_state (bare : List AppliedEdit) (pending : Option Pending) :
    (stateOf bare pending).finish = (stateOf bare pending).flushPending.bind fun x =>
      (validateNoOverlappingDeletes x.edits).map fun _ => ⟨x.edits,x.warnings⟩ := by
  simp only [Executor.finish, Executor.consumePendingSkippableComments, stateOf, List.foldlM_nil, pure, Except.pure,
    bind, Except.bind]
  cases Executor.flushPending _ with
  | error e => rfl
  | ok x =>
    simp only
    cases validateNoOverlappingDeletes x.edits with
    | error e => rfl
    | ok done => rfl

/-- An open hunk that is refused fails the parse, whatever follows. -/
theorem refused_open {bare : List AppliedEdit} {pending : Option Pending} {e : JsString}
    (refused : (stateOf bare pending).flushPending = .error e) (lineNum : Nat) (wf : ∀ hunk ∈ hunks, hunk.WellFormed) : runFrom (stateOf bare pending) (tokensFrom lineNum hunks) = .error e := by
  cases hunks with
  | nil =>
    have done := finish_state bare pending
    rw [refused] at done
    exact done
  | cons hunk rest =>
    have step := feed_header bare pending (wf hunk List.mem_cons_self) lineNum
    rw [refused] at step
    rw [runFrom, tokensFrom, hunkTokens, List.cons_append, List.foldlM_cons, step]
    rfl

def parsedAs (bare : List AppliedEdit) : Except JsString ParseResult :=
  (validateNoOverlappingDeletes ((cloneAppliedEdits bare).map .applied)).map fun _ =>
    ⟨(cloneAppliedEdits bare).map .applied,[]⟩

theorem run_hunks (wf : ∀ hunk ∈ hunks, hunk.WellFormed) (full : ∀ hunk ∈ hunks, hunk.hasBody) (lineNum : Nat)
    {bare after : List AppliedEdit} {pending : Option Pending}
    (flushed : (stateOf bare pending).flushPending = .ok (stateOf after none)) :
    runFrom (stateOf bare pending) (tokensFrom lineNum hunks) = parsedAs (after ++ loweredFrom lineNum hunks) := by
  induction hunks generalizing lineNum bare after pending with
  | nil =>
    have done := finish_state bare pending
    rw [flushed] at done
    rw [loweredFrom, List.append_nil]
    exact done
  | cons hunk rest ih =>
    have here := wf hunk List.mem_cons_self
    rw [tokensFrom, run_append (feed_hunk flushed here lineNum), loweredFrom, ← List.append_assoc]
    exact ih (fun other mem => wf other (List.mem_cons_of_mem hunk mem))
      (fun other mem => full other (List.mem_cons_of_mem hunk mem)) _
      (flush_hunk_pending after lineNum here (full hunk List.mem_cons_self))

theorem run_refused (wf : ∀ hunk ∈ hunks, hunk.WellFormed) (mem : hunk ∈ hunks) (empty : ¬hunk.hasBody) (lineNum : Nat)
    {bare after : List AppliedEdit} {pending : Option Pending}
    (flushed : (stateOf bare pending).flushPending = .ok (stateOf after none)) :
    ∃ e, runFrom (stateOf bare pending) (tokensFrom lineNum hunks) = .error e := by
  induction hunks generalizing lineNum bare after pending with
  | nil => exact absurd mem List.not_mem_nil
  | cons first rest ih =>
    have here := wf first List.mem_cons_self
    have later : ∀ other ∈ rest, other.WellFormed := fun other mem => wf other (List.mem_cons_of_mem first mem)
    rw [tokensFrom, run_append (feed_hunk flushed here lineNum)]
    by_cases full : first.hasBody
    · rcases List.mem_cons.mp mem with rfl | among
      · exact absurd full empty
      · exact ih later among _ (flush_hunk_pending after lineNum here full)
    · exact ⟨_,refused_open (flush_empty_insert after lineNum full) _ later⟩

/- Line `line` is deleted by the hunk whose header is on line `opened`. -/
def DeletedBy (line opened : Nat) : Nat → List Hunk → Prop
  | _, [] => False
  | lineNum, hunk :: rest =>
      (opened = lineNum ∧ line ∈ hunk.deletedLines) ∨ DeletedBy line opened (lineNum + hunk.lines.length) rest

theorem lowered_delete {lineNum : Nat} (mem : .delete d ∈ hunk.lowered lineNum) :
    d.lineNum = lineNum ∧ d.anchor.line ∈ hunk.deletedLines := by
  cases hunk with
  | replace start stop body =>
    rcases List.mem_append.mp mem with rows | deletes
    · obtain ⟨row,-,same⟩ := List.mem_map.mp rows
      cases same
    · obtain ⟨line,inside,same⟩ := List.mem_map.mp deletes
      cases same
      exact ⟨rfl,inside⟩
  | delete start stop =>
    obtain ⟨line,inside,same⟩ := List.mem_map.mp mem
    cases same
    exact ⟨rfl,inside⟩
  | insert cursor body =>
    obtain ⟨row,-,same⟩ := List.mem_map.mp mem
    cases same

theorem loweredFrom_delete {lineNum : Nat} (mem : .delete d ∈ loweredFrom lineNum hunks) : DeletedBy d.anchor.line d.lineNum lineNum hunks := by
  induction hunks generalizing lineNum with
  | nil => exact absurd mem List.not_mem_nil
  | cons hunk rest ih =>
    rcases List.mem_append.mp mem with here | later
    · exact .inl (lowered_delete here)
    · exact .inr (ih later)

theorem deleted_somewhere {line opened lineNum : Nat} (by_hunk : DeletedBy line opened lineNum hunks) :
    ∃ hunk ∈ hunks, line ∈ hunk.deletedLines := by
  induction hunks generalizing lineNum with
  | nil => exact absurd by_hunk id
  | cons hunk rest ih =>
    rcases by_hunk with ⟨-,inside⟩ | later
    · exact ⟨hunk,List.mem_cons_self,inside⟩
    · obtain ⟨other,mem,inside⟩ := ih later
      exact ⟨other,List.mem_cons_of_mem hunk mem,inside⟩

def Apart (hunks : List Hunk) : Prop :=
  hunks.Pairwise fun a b => ∀ line ∈ a.deletedLines, line ∉ b.deletedLines

theorem deleted_once (apart : Apart hunks) {line n m lineNum : Nat} (first : DeletedBy line n lineNum hunks)
    (second : DeletedBy line m lineNum hunks) : n = m := by
  induction hunks generalizing lineNum with
  | nil => exact absurd first id
  | cons hunk rest ih =>
    obtain ⟨others,apart⟩ := List.pairwise_cons.mp apart
    have crossed : ∀ opened, line ∈ hunk.deletedLines → ¬DeletedBy line opened (lineNum + hunk.lines.length) rest := by
      intro opened inside later
      obtain ⟨other,mem,also⟩ := deleted_somewhere later
      exact others other mem line inside also
    rcases first with ⟨rfl,inside⟩ | later
    · rcases second with ⟨rfl,-⟩ | later'
      · rfl
      · exact absurd later' (crossed m inside)
    · rcases second with ⟨rfl,inside⟩ | later'
      · exact absurd later (crossed n inside)
      · exact ih apart later later'

theorem clone_delete {bare : List AppliedEdit} (mem : .delete d ∈ cloneAppliedEdits bare) :
    ∃ d0, AppliedEdit.delete d0 ∈ bare ∧ d0.anchor = d.anchor ∧ d0.lineNum = d.lineNum := by
  obtain ⟨⟨edit,index⟩,among,same⟩ := List.mem_map.mp mem
  cases edit with
  | insert e => cases same
  | delete d0 =>
    cases same
    exact ⟨d0,(List.mem_zipIdx' among).2 ▸ List.getElem_mem _,rfl,rfl⟩

theorem lowered_valid (apart : Apart hunks) : validateNoOverlappingDeletes (lowerHunks hunks) = .ok () := by
  have deleted : ∀ line n, Deletes (lowerHunks hunks) line n → DeletedBy line n 1 hunks := by
    intro line n deletes
    obtain ⟨d,mem,rfl,rfl⟩ := deletes
    obtain ⟨edit,among,same⟩ := List.mem_filterMap.mp mem
    obtain ⟨applied,inside,rfl⟩ := List.mem_map.mp among
    cases applied with
    | insert e => cases same
    | delete d' =>
      cases same
      obtain ⟨d0,original,anchor,lineNum⟩ := clone_delete inside
      have by_hunk := loweredFrom_delete original
      rwa [anchor, lineNum] at by_hunk
  exact (validate_ok_iff _).mpr fun line n m first second =>
    deleted_once apart (deleted line n first) (deleted line m second)

/-- Parsing undoes rendering, for hunks whose inserts have rows. -/
theorem render_round_trip_iff {hunks : List Hunk} (wf : ∀ hunk ∈ hunks, hunk.WellFormed) (apart : Apart hunks) :
    parsePatch (renderHunks hunks) = .ok ⟨lowerHunks hunks,[]⟩ ↔ ∀ hunk ∈ hunks, hunk.hasBody := by
  have start : (stateOf [] none).flushPending = .ok (stateOf [] none) := rfl
  have parse : parsePatch (renderHunks hunks) = runFrom (stateOf [] none) (tokensFrom 1 hunks) := by
    rw [parsePatch, render_tokens wf]
    rfl
  rw [parse]
  constructor
  · intro parsed hunk mem
    by_contra empty
    obtain ⟨e,refused⟩ := run_refused wf mem empty 1 start
    rw [refused] at parsed
    cases parsed
  · intro full
    rw [run_hunks wf full 1 start, List.nil_append, parsedAs]
    have valid := lowered_valid apart
    rw [lowerHunks] at valid ⊢
    rw [valid]
    rfl

/- Rows that look like a marker, a header and a hunk header, under every kind of hunk. -/
def mixedHunks : List Hunk :=
  [.insert .bof [js "*** End Patch"], .replace 2 3 [js "", js "¶a.ts#1A2B"], .delete 5 5,
    .insert (.afterAnchor ⟨12⟩) [js "delete 7"]]

theorem mixedHunks_wellFormed : ∀ hunk ∈ mixedHunks, hunk.WellFormed := by
  intro hunk mem
  simp only [mixedHunks, List.mem_cons, List.not_mem_nil, or_false] at mem
  rcases mem with rfl | rfl | rfl | rfl
  · exact ⟨trivial,by decide,by decide⟩
  · exact ⟨⟨by decide,by decide,by decide⟩,by decide,by decide⟩
  · exact ⟨⟨by decide,by decide⟩,by decide,by decide⟩
  · exact ⟨Nat.le_of_ble_eq_true rfl,by decide,by decide⟩

theorem mixedHunks_apart : Apart mixedHunks := by
  unfold Apart
  decide

theorem mixedHunks_hasBody : ∀ hunk ∈ mixedHunks, hunk.hasBody := by
  intro hunk mem
  simp only [mixedHunks, List.mem_cons, List.not_mem_nil, or_false] at mem
  rcases mem with rfl | rfl | rfl | rfl
  · exact List.cons_ne_nil _ _
  · trivial
  · trivial
  · exact List.cons_ne_nil _ _

theorem render_round_trip_mixed : parsePatch (renderHunks mixedHunks) = .ok ⟨lowerHunks mixedHunks,[]⟩ :=
  (render_round_trip_iff mixedHunks_wellFormed mixedHunks_apart).mpr mixedHunks_hasBody

/-- An insert without rows is written as its header alone, which the parser refuses. -/
theorem empty_insert_refused :
    (∀ hunk ∈ [Hunk.insert .bof []], hunk.WellFormed) ∧ Apart [.insert .bof []] ∧
      lowerHunks [.insert .bof []] = [] ∧
      parsePatch (renderHunks [.insert .bof []]) = .error (atLine 1 emptyInsert) := by
  refine ⟨?_,List.pairwise_singleton _ _,rfl,by decide +kernel⟩
  intro hunk mem
  obtain rfl : hunk = .insert .bof [] := by simpa using mem
  exact ⟨trivial,by decide,by decide⟩

end Hashline
