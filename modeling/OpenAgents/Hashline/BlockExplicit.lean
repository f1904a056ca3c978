import OpenAgents.Hashline.Patcher

/- Block hunks against explicit ranges. Parsing a patch whose block headers are
   rewritten to explicit ranges follows the parse of the patch itself. -/
namespace Hashline
open JsText ExceptRun

/- The resolver's span, when it is a range. -/
def rangeAt (resolver : BlockResolver) (path text : JsString) (line : Nat) : Option BlockSpan :=
  (resolver ⟨path,text,line⟩).filter fun span => 1 ≤ span.start && span.start ≤ span.stop

section Rewriting
variable (spanAt : Nat → Option BlockSpan)

def explicitTarget : BlockTarget → BlockTarget
  | .block anchor =>
      match spanAt anchor.line with
      | some span => .replace ⟨⟨span.start⟩,⟨span.stop⟩⟩
      | none => .block anchor
  | .deleteBlock anchor =>
      match spanAt anchor.line with
      | some span => .delete ⟨⟨span.start⟩,⟨span.stop⟩⟩
      | none => .deleteBlock anchor
  | target => target

def explicitKind : TokenKind → TokenKind
  | .opBlock target => .opBlock (explicitTarget spanAt target)
  | kind => kind

def explicitToken (token : Token) : Token := ⟨token.lineNum,explicitKind spanAt token.kind⟩

/- Edits up to their index, which the applier derives anew. -/
def bareEdit : Edit → Edit
  | .applied edit => .applied (cloneAppliedEdit edit 0)
  | .block b => .block { b with index := 0 }

def rangeEdits (payloads : List JsString) (lineNum : Nat) (span : BlockSpan) : List AppliedEdit :=
  payloads.map (fun payload => .insert ⟨.beforeAnchor ⟨span.start⟩,payload,lineNum,0,.replacement⟩) ++
    (spanLines span.start span.stop).map fun line => .delete ⟨⟨line⟩,lineNum,0⟩

def explicitEdits (edit : Edit) : List Edit :=
  match edit with
  | .applied _ => [bareEdit edit]
  | .block b =>
      match spanAt b.anchor.line with
      | some span => (rangeEdits b.payloads b.lineNum span).map .applied
      | none => [bareEdit edit]

def explicitPending (pending : Pending) : Pending :=
  { pending with target := explicitTarget spanAt pending.target }

def Executor.bare (x : Executor) : Executor :=
  { x with edits := x.edits.map bareEdit, editIndex := 0 }

def Executor.explicit (x : Executor) : Executor :=
  { x with
    edits := x.edits.flatMap (explicitEdits spanAt)
    editIndex := 0
    pending := x.pending.map (explicitPending spanAt) }

/- `x'` is where the rewritten patch is when the patch itself is at `x`. -/
def Follows (x x' : Executor) : Prop := x'.bare = x.explicit spanAt

end Rewriting

theorem emitPayloadRows_bare (x : Executor) (cursor : Cursor) (rows : List PayloadRow)
    (lineNum : Nat) (mode : InsertMode) :
    (x.emitPayloadRows cursor rows lineNum mode).bare =
      { x.bare with
        edits := x.bare.edits ++
          rows.map fun row => .applied (.insert ⟨cursor,row.text,lineNum,0,mode⟩) } := by
  induction rows generalizing x with
  | nil => simp [Executor.emitPayloadRows, Executor.bare]
  | cons row rows ih =>
    have step := ih (x.pushInsert cursor row.text lineNum mode)
    simp only [Executor.emitPayloadRows, List.foldl_cons] at step ⊢
    rw [step]
    simp [Executor.pushInsert, Executor.bare, bareEdit, cloneAppliedEdit]

theorem emitDeletes_bare (x : Executor) (anchors : List Anchor) (lineNum : Nat) :
    (x.emitDeletes anchors lineNum).bare =
      { x.bare with
        edits := x.bare.edits ++ anchors.map fun anchor => .applied (.delete ⟨anchor,lineNum,0⟩) } := by
  induction anchors generalizing x with
  | nil => simp [Executor.emitDeletes, Executor.bare]
  | cons anchor anchors ih =>
    have step := ih (x.pushDelete anchor lineNum)
    simp only [Executor.emitDeletes, List.foldl_cons] at step ⊢
    rw [step]
    simp [Executor.pushDelete, Executor.bare, bareEdit, cloneAppliedEdit]

/- Edits one flushed hunk adds, up to their index. -/
def hunkEdits (target : BlockTarget) (lineNum : Nat) (payloads : List PayloadRow) : List Edit :=
  let rows (cursor : Cursor) (mode : InsertMode) : List Edit :=
    payloads.map fun row => .applied (.insert ⟨cursor,row.text,lineNum,0,mode⟩)
  let deletes (range : ParsedRange) : List Edit :=
    (expandRange range).map fun anchor => .applied (.delete ⟨anchor,lineNum,0⟩)
  match target with
  | .delete range => deletes range
  | .deleteBlock anchor => [.block ⟨anchor,[],lineNum,0⟩]
  | .block anchor => [.block ⟨anchor,payloads.map PayloadRow.text,lineNum,0⟩]
  | .replace range => rows (.beforeAnchor range.start) .replacement ++ deletes range
  | .insertBefore anchor => rows (.beforeAnchor anchor) .literal
  | .insertAfter anchor => rows (.afterAnchor anchor) .literal
  | .bof => rows .bof .literal
  | .eof => rows .eof .literal

/- The two delete forms are the hunks that need no payload row. -/
def flushes (target : BlockTarget) (payloads : List PayloadRow) : Bool :=
  target.refusesBody.isSome || !payloads.isEmpty

theorem flushTarget_ok {x y : Executor} {target : BlockTarget} {lineNum : Nat}
    {payloads : List PayloadRow} (ok : x.flushTarget target lineNum payloads = .ok y) :
    flushes target payloads = true ∧
      y.bare = { x.bare with edits := x.bare.edits ++ hunkEdits target lineNum payloads } := by
  cases target with
  | delete range =>
    obtain rfl : x.emitDeletes (expandRange range) lineNum = y := by
      simpa [Executor.flushTarget] using ok
    exact ⟨rfl,emitDeletes_bare x _ lineNum⟩
  | deleteBlock anchor =>
    obtain rfl : x.pushBlock anchor [] lineNum = y := by simpa [Executor.flushTarget] using ok
    exact ⟨rfl,by simp [Executor.pushBlock, Executor.bare, bareEdit, hunkEdits]⟩
  | block anchor =>
    cases payloads with
    | nil => simp [Executor.flushTarget] at ok
    | cons row rows =>
      obtain rfl : x.pushBlock anchor (row :: rows) lineNum = y := by
        simpa [Executor.flushTarget] using ok
      exact ⟨rfl,by simp [Executor.pushBlock, Executor.bare, bareEdit, hunkEdits]⟩
  | replace range =>
    cases payloads with
    | nil => simp [Executor.flushTarget] at ok
    | cons row rows =>
      simp only [Executor.flushTarget, List.isEmpty_cons, Bool.false_eq_true, if_false,
        Except.ok.injEq] at ok
      subst ok
      refine ⟨rfl,?_⟩
      rw [emitDeletes_bare, emitPayloadRows_bare]
      simp [hunkEdits]
  | _ =>
    cases payloads with
    | nil => simp [Executor.flushTarget, Executor.flushTarget.insertAt] at ok
    | cons row rows =>
      simp only [Executor.flushTarget, Executor.flushTarget.insertAt, List.isEmpty_cons,
        Bool.false_eq_true, if_false, Except.ok.injEq] at ok
      subst ok
      refine ⟨rfl,?_⟩
      rw [emitPayloadRows_bare]
      rfl

theorem flushTarget_total {target : BlockTarget} {payloads : List PayloadRow}
    (full : flushes target payloads = true) (x : Executor) (lineNum : Nat) :
    ∃ y, x.flushTarget target lineNum payloads = .ok y := by
  cases target <;> cases payloads <;>
    simp_all [flushes, BlockTarget.refusesBody, Executor.flushTarget, Executor.flushTarget.insertAt]

section Simulation
variable (spanAt : Nat → Option BlockSpan)

theorem explicit_refusal (target : BlockTarget) :
    (explicitTarget spanAt target).refusesBody.isSome = target.refusesBody.isSome := by
  cases target with
  | block anchor =>
    simp only [explicitTarget]
    cases spanAt anchor.line with
    | none => rfl
    | some span => rfl
  | deleteBlock anchor =>
    simp only [explicitTarget]
    cases spanAt anchor.line with
    | none => rfl
    | some span => simp only [BlockTarget.refusesBody, Option.isSome_some]
  | _ => rfl

theorem explicit_flushes (target : BlockTarget) (payloads : List PayloadRow) :
    flushes (explicitTarget spanAt target) payloads = flushes target payloads := by
  simp only [flushes, explicit_refusal]

theorem explicit_rows (rows : List PayloadRow) (edit : PayloadRow → AppliedEdit)
    (bare : ∀ row, cloneAppliedEdit (edit row) 0 = edit row) :
    (rows.map fun row => Edit.applied (edit row)).flatMap (explicitEdits spanAt) =
      rows.map fun row => Edit.applied (edit row) := by
  simp only [List.flatMap_map, explicitEdits, bareEdit, bare]
  exact List.map_eq_flatMap.symm

theorem explicit_deletes (anchors : List Anchor) (lineNum : Nat) :
    (anchors.map fun anchor => Edit.applied (.delete ⟨anchor,lineNum,0⟩)).flatMap
        (explicitEdits spanAt) =
      anchors.map fun anchor => Edit.applied (.delete ⟨anchor,lineNum,0⟩) := by
  simp only [List.flatMap_map, explicitEdits, bareEdit, cloneAppliedEdit]
  exact List.map_eq_flatMap.symm

theorem explicit_hunk (target : BlockTarget) (lineNum : Nat) (payloads : List PayloadRow) :
    hunkEdits (explicitTarget spanAt target) lineNum payloads =
      (hunkEdits target lineNum payloads).flatMap (explicitEdits spanAt) := by
  cases target with
  | block anchor =>
    simp only [explicitTarget, hunkEdits, List.flatMap_singleton, explicitEdits]
    cases spanAt anchor.line with
    | none => rfl
    | some span =>
      simp only [rangeEdits, expandRange, List.map_append, List.map_map]
      rfl
  | deleteBlock anchor =>
    simp only [explicitTarget, hunkEdits, List.flatMap_singleton, explicitEdits]
    cases spanAt anchor.line with
    | none => rfl
    | some span => simp [rangeEdits, expandRange]
  | replace range =>
    simp only [explicitTarget, hunkEdits, List.flatMap_append, explicit_deletes]
    rw [explicit_rows _ _ _ fun _ => rfl]
  | delete range => simp only [explicitTarget, hunkEdits, explicit_deletes]
  | _ => exact (explicit_rows _ _ _ fun _ => rfl).symm

theorem explicit_bare (edits : List Edit) :
    (edits.map bareEdit).flatMap (explicitEdits spanAt) = edits.flatMap (explicitEdits spanAt) := by
  rw [List.flatMap_map]
  apply List.flatMap_congr
  intro edit _
  rcases edit with (e | d) | b
  · rfl
  · rfl
  · simp only [bareEdit, explicitEdits]

variable {x x' y : Executor}

theorem follows_iff :
    Follows spanAt x x' ↔ x'.edits.map bareEdit = x.edits.flatMap (explicitEdits spanAt) ∧
      x'.warnings = x.warnings ∧ x'.pending = x.pending.map (explicitPending spanAt) ∧
      x'.terminated = x.terminated ∧ x'.skippableComments = x.skippableComments := by
  simp [Follows, Executor.bare, Executor.explicit]

theorem flushPending_follows (related : Follows spanAt x x') (ok : x.flushPending = .ok y) : ∃ y', x'.flushPending = .ok y' ∧ Follows spanAt y y' := by
  obtain ⟨edits,warnings,pending,terminated,comments⟩ := (follows_iff spanAt).mp related
  cases held : x.pending with
  | none =>
    obtain rfl : x = y := by simpa [Executor.flushPending, held] using ok
    exact ⟨x',by simp [Executor.flushPending, pending, held],related⟩
  | some hunk =>
    simp only [Executor.flushPending, held] at ok
    obtain ⟨full,flushed⟩ := flushTarget_ok ok
    obtain ⟨y',ok'⟩ := flushTarget_total
      (by rw [explicit_flushes]; exact full : flushes (explicitTarget spanAt hunk.target) _ = true)
      { x' with pending := none } hunk.lineNum
    obtain ⟨_,flushed'⟩ := flushTarget_ok ok'
    refine ⟨y',by simpa [Executor.flushPending, pending, held, explicitPending] using ok',?_⟩
    simp only [Executor.bare, Executor.mk.injEq] at flushed flushed'
    rw [follows_iff]
    refine ⟨?_,?_,?_,?_,?_⟩
    · rw [flushed'.1, edits, explicit_hunk, ← explicit_bare spanAt y.edits, flushed.1,
        List.flatMap_append, explicit_bare]
    · rw [flushed'.2.1, flushed.2.1, warnings]
    · rw [flushed'.2.2.2.1, flushed.2.2.2.1]
      rfl
    · rw [flushed'.2.2.2.2.1, flushed.2.2.2.2.1, terminated]
    · rw [flushed'.2.2.2.2.2, flushed.2.2.2.2.2, comments]

theorem explicit_accepts {target : BlockTarget} (accepts : target.refusesBody = none) :
    (explicitTarget spanAt target).refusesBody = none := by
  have same := explicit_refusal spanAt target
  rw [accepts] at same
  exact Option.not_isSome_iff_eq_none.mp (by simp [same])

theorem handleLiteralPayload_follows {text : JsString} {lineNum : Nat} (related : Follows spanAt x x')
    (ok : x.handleLiteralPayload text lineNum = .ok y) :
    ∃ y', x'.handleLiteralPayload text lineNum = .ok y' ∧ Follows spanAt y y' := by
  obtain ⟨edits,warnings,pending,terminated,comments⟩ := (follows_iff spanAt).mp related
  cases held : x.pending with
  | none => simp [Executor.handleLiteralPayload, held] at ok
  | some hunk =>
    simp only [Executor.handleLiteralPayload, held] at ok
    cases accepts : hunk.target.refusesBody with
    | some message => simp [accepts] at ok
    | none =>
      simp only [accepts, Except.ok.injEq] at ok
      subst ok
      simp only [Executor.handleLiteralPayload, pending, held, Option.map_some, explicitPending,
        explicit_accepts spanAt accepts]
      exact ⟨_,rfl,(follows_iff spanAt).mpr ⟨edits,warnings,rfl,terminated,comments⟩⟩

theorem handleRaw_follows {text : JsString} {lineNum : Nat} (related : Follows spanAt x x')
    (ok : x.handleRaw text lineNum = .ok y) : ∃ y', x'.handleRaw text lineNum = .ok y' ∧ Follows spanAt y y' := by
  obtain ⟨edits,warnings,pending,terminated,comments⟩ := (follows_iff spanAt).mp related
  simp only [Executor.handleRaw] at ok ⊢
  cases contaminated : detectApplyPatchContamination text with
  | some contamination => simp [contaminated] at ok
  | none =>
    simp only [contaminated] at ok ⊢
    by_cases blank : (trim text).isEmpty = true
    · have unchanged : x = y := by
        cases held : x.pending <;> simpa [held, blank] using ok
      subst unchanged
      refine ⟨x',?_,related⟩
      cases held : x'.pending <;> simp [blank]
    · cases held : x.pending with
      | none => simp [held, blank] at ok
      | some hunk =>
        simp only [held, blank, Bool.false_eq_true, if_false] at ok
        cases accepts : hunk.target.refusesBody with
        | some message => simp [accepts] at ok
        | none =>
          simp only [accepts] at ok
          split at ok
          · contradiction
          · rename_i notMinus
            simp only [Except.ok.injEq] at ok
            subst ok
            simp only [pending, held, Option.map_some, blank, Bool.false_eq_true, if_false,
              explicitPending, explicit_accepts spanAt accepts, notMinus, warnings]
            exact ⟨_,rfl,(follows_iff spanAt).mpr ⟨edits,rfl,rfl,terminated,comments⟩⟩

theorem consume_follows (related : Follows spanAt x x') (ok : x.consumePendingSkippableComments = .ok y) :
    ∃ y', x'.consumePendingSkippableComments = .ok y' ∧ Follows spanAt y y' := by
  obtain ⟨_,_,_,_,comments⟩ := (follows_iff spanAt).mp related
  obtain ⟨z,ran,cleared⟩ := bind_ok.mp ok
  cases cleared
  let raw (x : Executor) (comment : PendingComment) := x.handleRaw comment.text comment.lineNum
  obtain ⟨z',ran',related'⟩ := foldlM_follows raw raw (Follows spanAt) id
    (fun _ _ _ _ here handled => handleRaw_follows spanAt here handled) x.skippableComments related ran
  rw [List.map_id] at ran'
  refine ⟨{ z' with skippableComments := [] },?_,?_⟩
  · rw [Executor.consumePendingSkippableComments, comments]
    exact bind_ok.mpr ⟨z',ran',rfl⟩
  · obtain ⟨edits,warnings,pending,terminated,_⟩ := (follows_iff spanAt).mp related'
    exact (follows_iff spanAt).mpr ⟨edits,warnings,pending,terminated,rfl⟩

theorem validateTarget_follows {target : BlockTarget} {lineNum : Nat}
    (ordered : ∀ n span, spanAt n = some span → span.start ≤ span.stop)
    (ok : validateTarget target lineNum = .ok ()) :
    validateTarget (explicitTarget spanAt target) lineNum = .ok () := by
  have inOrder : ∀ n span, spanAt n = some span →
      validateRangeOrder ⟨⟨span.start⟩,⟨span.stop⟩⟩ lineNum = .ok () := by
    intro n span found
    have := ordered n span found
    simp [validateRangeOrder, this]
  cases target with
  | block anchor =>
    simp only [explicitTarget]
    cases found : spanAt anchor.line with
    | none => rfl
    | some span => exact inOrder _ span found
  | deleteBlock anchor =>
    simp only [explicitTarget]
    cases found : spanAt anchor.line with
    | none => rfl
    | some span => exact inOrder _ span found
  | _ => exact ok

theorem feed_follows (ordered : ∀ n span, spanAt n = some span → span.start ≤ span.stop) {token : Token}
    (related : Follows spanAt x x') (ok : x.feed token = .ok y) :
    ∃ y', x'.feed (explicitToken spanAt token) = .ok y' ∧ Follows spanAt y y' := by
  obtain ⟨edits,warnings,pending,terminated,comments⟩ := (follows_iff spanAt).mp related
  obtain ⟨lineNum,kind⟩ := token
  by_cases done : x.terminated = true
  · simp only [Executor.feed, done, if_true, Except.ok.injEq] at ok
    subst ok
    exact ⟨x',by simp [Executor.feed, terminated, done],related⟩
  have done' : ¬x'.terminated = true := by rwa [terminated]
  rw [Executor.feed, if_neg done] at ok
  rw [Executor.feed, if_neg done']
  have ready : x'.pending.isNone = x.pending.isNone := by rw [pending, Option.isNone_map]
  cases kind with
  | envelopeBegin => exact consume_follows spanAt related ok
  | blank => exact consume_follows spanAt related ok
  | envelopeEnd =>
    obtain ⟨z,consumed,ended⟩ := bind_ok.mp ok
    cases ended
    obtain ⟨z',consumed',here⟩ := consume_follows spanAt related consumed
    refine ⟨_,bind_ok.mpr ⟨z',consumed',rfl⟩,?_⟩
    obtain ⟨edits,warnings,pending,_,comments⟩ := (follows_iff spanAt).mp here
    exact (follows_iff spanAt).mpr ⟨edits,warnings,pending,rfl,comments⟩
  | abort =>
    cases ok
    exact ⟨_,rfl,(follows_iff spanAt).mpr ⟨edits,warnings,pending,rfl,comments⟩⟩
  | header path fileHash =>
    obtain ⟨z,consumed,flushed⟩ := bind_ok.mp ok
    obtain ⟨z',consumed',here⟩ := consume_follows spanAt related consumed
    obtain ⟨y',flushed',final⟩ := flushPending_follows spanAt here flushed
    exact ⟨y',bind_ok.mpr ⟨z',consumed',flushed'⟩,final⟩
  | payloadLiteral text =>
    obtain ⟨z,consumed,handled⟩ := bind_ok.mp ok
    obtain ⟨z',consumed',here⟩ := consume_follows spanAt related consumed
    obtain ⟨y',handled',final⟩ := handleLiteralPayload_follows spanAt here handled
    exact ⟨y',bind_ok.mpr ⟨z',consumed',handled'⟩,final⟩
  | raw text =>
    simp only [explicitToken, explicitKind, ready]
    dsimp only at ok
    split at ok
    · rename_i skipped
      simp only [Except.ok.injEq] at ok
      subst ok
      rw [if_pos skipped]
      exact ⟨_,rfl,(follows_iff spanAt).mpr ⟨edits,warnings,pending,terminated,by rw [comments]⟩⟩
    · rename_i notSkipped
      rw [if_neg notSkipped]
      obtain ⟨z,consumed,handled⟩ := bind_ok.mp ok
      obtain ⟨z',consumed',here⟩ := consume_follows spanAt related consumed
      obtain ⟨y',handled',final⟩ := handleRaw_follows spanAt here handled
      exact ⟨y',bind_ok.mpr ⟨z',consumed',handled'⟩,final⟩
  | opBlock target =>
    obtain ⟨_,valid,rest⟩ := bind_ok.mp ok
    obtain ⟨z,flushed,pushed⟩ := bind_ok.mp rest
    cases pushed
    have discarded : Follows spanAt { x with skippableComments := [] } { x' with skippableComments := [] } :=
      (follows_iff spanAt).mpr ⟨edits,warnings,pending,terminated,rfl⟩
    obtain ⟨z',flushed',here⟩ := flushPending_follows spanAt discarded flushed
    refine ⟨_,bind_ok.mpr ⟨(),validateTarget_follows spanAt ordered valid,
      bind_ok.mpr ⟨z',flushed',rfl⟩⟩,?_⟩
    obtain ⟨edits,warnings,_,terminated,comments⟩ := (follows_iff spanAt).mp here
    exact (follows_iff spanAt).mpr ⟨edits,warnings,rfl,terminated,comments⟩

/-- The rewritten tokens parse to the rewritten edits, up to the check for overlapping deletes. -/
theorem parseTokens_follows (ordered : ∀ n span, spanAt n = some span → span.start ≤ span.stop)
    {tokens : List Token} {parsed : ParseResult} (ok : parseTokens tokens = .ok parsed) :
    ∃ edits : List Edit,
      edits.map bareEdit = parsed.edits.flatMap (explicitEdits spanAt) ∧
      parseTokens (tokens.map (explicitToken spanAt)) =
        validateNoOverlappingDeletes edits >>= fun _ => .ok ⟨edits,parsed.warnings⟩ := by
  obtain ⟨x,ran,finished⟩ := bind_ok.mp ok
  obtain ⟨y,consumed,rest⟩ := bind_ok.mp finished
  obtain ⟨z,flushed,checked⟩ := bind_ok.mp rest
  obtain ⟨_,_,made⟩ := bind_ok.mp checked
  cases made
  have start : Follows spanAt Executor.new Executor.new := (follows_iff spanAt).mpr (by simp [Executor.new])
  obtain ⟨x',ran',related⟩ := foldlM_follows Executor.feed Executor.feed (Follows spanAt)
    (explicitToken spanAt) (fun _ _ _ _ here fed => feed_follows spanAt ordered here fed)
    tokens start ran
  obtain ⟨y',consumed',related⟩ := consume_follows spanAt related consumed
  obtain ⟨z',flushed',related⟩ := flushPending_follows spanAt related flushed
  obtain ⟨edits,warnings,_⟩ := (follows_iff spanAt).mp related
  refine ⟨z'.edits,edits,?_⟩
  rw [parseTokens, ran']
  change x'.finish = _
  rw [Executor.finish, consumed']
  change (y'.flushPending >>= _) = _
  rw [flushed', ← warnings]
  rfl

end Simulation

end Hashline
