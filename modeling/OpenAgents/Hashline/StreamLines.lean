import OpenAgents.Hashline.PrefixRoundTrip
import OpenAgents.Lib.Runs
import OpenAgents.Lib.Utf8

/- Numbering a stream of bytes chunk by chunk. The yields come out as a list, in order. -/
namespace Hashline
open JsText TextLines ChunkedRuns

structure StreamOptions where
  startLine : Option Nat
  maxChunkLines : Option Int
  maxChunkBytes : Option Int

structure ResolvedStreamOptions where
  startLine : Nat
  maxChunkLines : Int
  maxChunkBytes : Int

def resolveStreamOptions (options : StreamOptions) : ResolvedStreamOptions :=
  ⟨options.startLine.getD 1,options.maxChunkLines.getD 200,options.maxChunkBytes.getD (64 * 1024)⟩

structure ChunkEmitter where
  lineNumber : Nat
  outLines : List JsString
  outBytes : Int

def ChunkEmitter.flush (e : ChunkEmitter) : Option JsString × ChunkEmitter :=
  if e.outLines.length = 0 then (none, e)
  else (some (joinLines e.outLines), { e with outLines := [], outBytes := 0 })

/- `if (flushed) chunks.push(flushed)`: an empty text is not yielded. -/
def yielded (flushed : Option JsString) : List JsString :=
  match flushed with
  | none => []
  | some chunk => if chunk.isEmpty then [] else [chunk]

/- What is held goes first when the line would take it past a limit. -/
def ChunkEmitter.makeRoom (options : ResolvedStreamOptions) (e : ChunkEmitter) (lineBytes : Int) : List JsString × ChunkEmitter :=
  let sepBytes : Int := if e.outLines.length = 0 then 0 else 1
  let wouldOverflow : Bool := (e.outLines.length : Int) ≥ options.maxChunkLines ||
    e.outBytes + sepBytes + lineBytes > options.maxChunkBytes
  if e.outLines.length > 0 && wouldOverflow then (yielded e.flush.1, e.flush.2) else ([], e)

def ChunkEmitter.add (options : ResolvedStreamOptions) (e : ChunkEmitter) (formatted : JsString) (lineBytes : Int) :
    List JsString × ChunkEmitter :=
  let outLines := e.outLines ++ [formatted]
  let e := { e with outLines, outBytes := e.outBytes + (if outLines.length = 1 then 0 else 1) + lineBytes }
  if (e.outLines.length : Int) ≥ options.maxChunkLines || e.outBytes ≥ options.maxChunkBytes then
    (yielded e.flush.1, e.flush.2)
  else ([], e)

def ChunkEmitter.pushLine (options : ResolvedStreamOptions) (e : ChunkEmitter) (line : JsString) : List JsString × ChunkEmitter :=
  let formatted := formatNumberedLine e.lineNumber line
  let lineBytes : Int := Utf8.byteLength formatted
  let (before, e) := { e with lineNumber := e.lineNumber + 1 }.makeRoom options lineBytes
  let (after, e) := e.add options formatted lineBytes
  (before ++ after, e)

def pushLines (options : ResolvedStreamOptions) : ChunkEmitter → List JsString → List JsString × ChunkEmitter
  | e, [] => ([], e)
  | e, line :: rest =>
      let (out, e) := e.pushLine options line
      let (later, e) := pushLines options e rest
      (out ++ later, e)

def byteOrder : CodeUnit := 0xFEFF

/- `TextDecoder` with `stream: true`: a first byte order mark is dropped, an open character waits. -/
structure TextDecoder where
  bomSeen : Bool
  open' : Option Utf8.Partial

def TextDecoder.new : TextDecoder := ⟨false,none⟩

def dropMark : JsString → JsString
  | [] => []
  | c :: rest => if c = byteOrder then rest else c :: rest

def TextDecoder.decode (d : TextDecoder) (bytes : List Nat) : JsString × TextDecoder :=
  let (text, open') := Utf8.decodeRun d.open' bytes
  if d.bomSeen then (text, ⟨true,open'⟩) else (dropMark text, ⟨!text.isEmpty,open'⟩)

def TextDecoder.finish (d : TextDecoder) : JsString :=
  if d.bomSeen then Utf8.decodeFlush d.open' else dropMark (Utf8.decodeFlush d.open')

/- The whole bytes at once. -/
def textDecode (bytes : List Nat) : JsString := dropMark (Utf8.decode bytes)

structure StreamState where
  decoder : TextDecoder
  pending : JsString
  sawAnyLine : Bool
  emitter : ChunkEmitter

/- The pieces of `pending` but the last are what the loop over `indexOf("\n")` pushes. -/
def feedChunk (options : ResolvedStreamOptions) (s : StreamState) (chunk : List Nat) : List JsString × StreamState :=
  let (text, decoder) := s.decoder.decode chunk
  let pending := s.pending ++ text
  let lines := (splitLines pending).dropLast
  let (out, emitter) := pushLines options s.emitter (lines.map stripCarriageReturn)
  (out, ⟨decoder,lastLine pending,s.sawAnyLine || !lines.isEmpty,emitter⟩)

def endStream (options : ResolvedStreamOptions) (s : StreamState) : List JsString :=
  let pending := s.pending ++ s.decoder.finish
  let (tail, e) :=
    if pending.length > 0 then s.emitter.pushLine options (stripCarriageReturn pending) else ([], s.emitter)
  let sawAnyLine := s.sawAnyLine || pending.length > 0
  let (blank, e) := if !sawAnyLine then e.pushLine options [] else ([], e)
  tail ++ blank ++ yielded e.flush.1

def streamHashLines (options : StreamOptions) (chunks : List (List Nat)) : List JsString :=
  let resolved := resolveStreamOptions options
  let (out, s) := feedAll (feedChunk resolved) ⟨.new,[],false,⟨resolved.startLine,[],0⟩⟩ chunks
  out ++ endStream resolved s

section emitter
variable {options : ResolvedStreamOptions} {e : ChunkEmitter}

/- More than one row only within both limits. -/
def Fits (options : ResolvedStreamOptions) (rows : List JsString) : Prop :=
  rows.length ≤ 1 ∨ ((rows.length : Int) ≤ options.maxChunkLines ∧ (Utf8.byteLength (joinLines rows) : Int) ≤ options.maxChunkBytes)

def OneLiners (rows : List JsString) : Prop := ∀ row ∈ rows, row ≠ [] ∧ lineFeed ∉ row

structure Holding (options : ResolvedStreamOptions) (e : ChunkEmitter) : Prop where
  bytes : e.outBytes = Utf8.byteLength (joinLines e.outLines)
  fits : Fits options e.outLines
  oneLiners : OneLiners e.outLines

/- The rows that were held and the new ones are those yielded, in groups, and those held now. -/
def Emits (options : ResolvedStreamOptions) (held rows : List JsString) (out held' : List JsString) : Prop :=
  ∃ groups : List (List JsString), out = groups.map joinLines ∧
    (∀ group ∈ groups, group ≠ [] ∧ Fits options group ∧ OneLiners group) ∧ held ++ rows = groups.flatten ++ held'

theorem emits_nothing (held rows : List JsString) : Emits options held rows [] (held ++ rows) :=
  ⟨[],rfl,fun _ mem => absurd mem List.not_mem_nil,rfl⟩

theorem emits_trans {held rows out middle more later held' : List JsString} (first : Emits options held rows out middle)
    (second : Emits options middle more later held') : Emits options held (rows ++ more) (out ++ later) held' := by
  obtain ⟨groups,rfl,good,split⟩ := first
  obtain ⟨groups',rfl,good',split'⟩ := second
  refine ⟨groups ++ groups',by simp,?_,?_⟩
  · intro group mem
    rcases List.mem_append.mp mem with early | late
    · exact good group early
    · exact good' group late
  · rw [← List.append_assoc, split, List.append_assoc, split', List.flatten_append, List.append_assoc]

theorem join_ne_nil {rows : List JsString} (some' : rows ≠ []) (oneLiners : OneLiners rows) : joinLines rows ≠ [] := by
  cases rows with
  | nil => exact absurd rfl some'
  | cons row rows =>
    rw [join_cons]
    have lead := (oneLiners row List.mem_cons_self).1
    simp [lead]

theorem flush_holding (holding : Holding options e) (some' : e.outLines ≠ []) : yielded e.flush.1 = [joinLines e.outLines] ∧
    e.flush.2 = { e with outLines := [], outBytes := 0 } ∧ Emits options e.outLines [] (yielded e.flush.1) [] := by
  have full : e.outLines.length ≠ 0 := fun none' => some' (List.eq_nil_of_length_eq_zero none')
  have text := join_ne_nil some' holding.oneLiners
  have out : yielded e.flush.1 = [joinLines e.outLines] := by
    rw [ChunkEmitter.flush, if_neg full]
    simp [yielded, text]
  refine ⟨out,by rw [ChunkEmitter.flush, if_neg full],?_⟩
  rw [out]
  refine ⟨[e.outLines],rfl,fun group mem => ?_,by simp⟩
  rw [List.mem_singleton.mp mem]
  exact ⟨some',holding.fits,holding.oneLiners⟩

theorem holding_empty (lineNumber : Nat) : Holding options ⟨lineNumber,[],0⟩ :=
  ⟨rfl,.inl (Nat.zero_le 1),fun _ mem => absurd mem List.not_mem_nil⟩

/-- A row is added to none, or to rows that leave room for it. -/
theorem holding_append {row : JsString} (holding : Holding options e) (good : row ≠ [] ∧ lineFeed ∉ row)
    (room : e.outLines = [] ∨ ((e.outLines.length : Int) < options.maxChunkLines ∧
      e.outBytes + 1 + Utf8.byteLength row ≤ options.maxChunkBytes)) (lineNumber : Nat) :
    Holding options ⟨lineNumber,e.outLines ++ [row],
      e.outBytes + (if (e.outLines ++ [row]).length = 1 then 0 else 1) + Utf8.byteLength row⟩ := by
  have oneLiners : OneLiners (e.outLines ++ [row]) := by
    intro other mem
    rcases List.mem_append.mp mem with early | last
    · exact holding.oneLiners other early
    · rw [List.mem_singleton.mp last]
      exact good
  have bytes := holding.bytes
  by_cases empty : e.outLines = []
  · rw [empty] at bytes oneLiners ⊢
    have none' : (Utf8.byteLength (joinLines []) : Int) = 0 := by decide
    rw [none'] at bytes
    refine ⟨?_,.inl (Nat.le_refl 1),oneLiners⟩
    simp [bytes, joinLines, List.intercalate]
  · obtain ⟨fewer,smaller⟩ := room.resolve_left empty
    have more : (e.outLines ++ [row]).length ≠ 1 := by
      have some' := List.length_pos_of_ne_nil empty
      rw [List.length_append, List.length_singleton]
      omega
    have joined : Utf8.byteLength (joinLines (e.outLines ++ [row])) =
        Utf8.byteLength (joinLines e.outLines) + 1 + Utf8.byteLength row := by
      rw [join_append_precede empty]
      simpa [precede] using Utf8.byteLength_lineFeed (joinLines e.outLines) row
    refine ⟨?_,.inr ⟨?_,?_⟩,oneLiners⟩
    · rw [if_neg more]
      dsimp only
      rw [joined]
      omega
    · rw [List.length_append, List.length_singleton]
      omega
    · dsimp only
      rw [joined]
      omega

theorem formatted_oneLiner (n : Nat) {line : JsString} (oneLine : lineFeed ∉ line) :
    formatNumberedLine n line ≠ [] ∧ lineFeed ∉ formatNumberedLine n line := by
  obtain ⟨c,digits,text,-⟩ := numbered_lead n line
  exact ⟨by rw [text]; exact List.cons_ne_nil _ _,numbered_unbroken n oneLine⟩

/-- After it there are no rows, or rows with room for the line. -/
theorem makeRoom_holding (holding : Holding options e) (lineBytes : Int) :
    Holding options (e.makeRoom options lineBytes).2 ∧
      Emits options e.outLines [] (e.makeRoom options lineBytes).1 (e.makeRoom options lineBytes).2.outLines ∧
      (e.makeRoom options lineBytes).2.lineNumber = e.lineNumber ∧
      ((e.makeRoom options lineBytes).2.outLines = [] ∨
        (((e.makeRoom options lineBytes).2.outLines.length : Int) < options.maxChunkLines ∧
          (e.makeRoom options lineBytes).2.outBytes + 1 + lineBytes ≤ options.maxChunkBytes)) := by
  unfold ChunkEmitter.makeRoom
  dsimp only
  by_cases empty : e.outLines = []
  · rw [if_neg (by simp [empty])]
    have nothing := @emits_nothing options e.outLines []
    rw [List.append_nil] at nothing
    exact ⟨holding,nothing,rfl,.inl empty⟩
  · obtain ⟨out,next,emits⟩ := flush_holding holding empty
    have full : e.outLines.length ≠ 0 := fun none' => empty (List.eq_nil_of_length_eq_zero none')
    simp only [if_neg full]
    split
    · rw [next]
      exact ⟨holding_empty _,emits,rfl,.inl rfl⟩
    · rename_i fits
      have nothing := @emits_nothing options e.outLines []
      rw [List.append_nil] at nothing
      refine ⟨holding,nothing,rfl,.inr ?_⟩
      simp [full, Nat.pos_of_ne_zero full] at fits
      omega

theorem add_holding {row : JsString} (holding : Holding options e) (good : row ≠ [] ∧ lineFeed ∉ row)
    (room : e.outLines = [] ∨ ((e.outLines.length : Int) < options.maxChunkLines ∧
      e.outBytes + 1 + Utf8.byteLength row ≤ options.maxChunkBytes)) :
    Holding options (e.add options row (Utf8.byteLength row)).2 ∧
      Emits options e.outLines [row] (e.add options row (Utf8.byteLength row)).1 (e.add options row (Utf8.byteLength row)).2.outLines ∧
      (e.add options row (Utf8.byteLength row)).2.lineNumber = e.lineNumber := by
  have added := holding_append holding good room e.lineNumber
  have nothing := @emits_nothing options e.outLines [row]
  unfold ChunkEmitter.add
  dsimp only
  generalize e.outBytes + (if (e.outLines ++ [row]).length = 1 then 0 else 1) + Utf8.byteLength row = total at added ⊢
  split
  · obtain ⟨out,next,emits⟩ := flush_holding added (by simp)
    have both := emits_trans nothing emits
    rw [next]
    exact ⟨holding_empty _,both,rfl⟩
  · exact ⟨added,nothing,rfl⟩

theorem pushLine_holding {line : JsString} (holding : Holding options e) (oneLine : lineFeed ∉ line) :
    Holding options (e.pushLine options line).2 ∧
      Emits options e.outLines [formatNumberedLine e.lineNumber line] (e.pushLine options line).1 (e.pushLine options line).2.outLines ∧
      (e.pushLine options line).2.lineNumber = e.lineNumber + 1 := by
  have good := formatted_oneLiner e.lineNumber oneLine
  have counted : Holding options { e with lineNumber := e.lineNumber + 1 } := ⟨holding.bytes,holding.fits,holding.oneLiners⟩
  obtain ⟨holding',emits,number,room⟩ := makeRoom_holding counted (Utf8.byteLength (formatNumberedLine e.lineNumber line))
  obtain ⟨added,more,same⟩ := add_holding holding' good room
  exact ⟨added,emits_trans emits more,same.trans number⟩

theorem pushLines_holding {lines : List JsString} (holding : Holding options e) (oneLine : ∀ line ∈ lines, lineFeed ∉ line) :
    Holding options (pushLines options e lines).2 ∧
      Emits options e.outLines (numberedFrom e.lineNumber lines) (pushLines options e lines).1
        (pushLines options e lines).2.outLines := by
  induction lines generalizing e with
  | nil =>
    have nothing := @emits_nothing options e.outLines []
    rw [List.append_nil] at nothing
    exact ⟨holding,nothing⟩
  | cons line lines ih =>
    obtain ⟨pushed,emits,number⟩ := pushLine_holding holding (oneLine line List.mem_cons_self)
    obtain ⟨later,more⟩ := ih pushed fun other mem => oneLine other (List.mem_cons_of_mem line mem)
    rw [number] at more
    exact ⟨later,emits_trans emits more⟩

/- The lines pushed and the rest flushed: all of them, in groups that fit. -/
def emitAll (options : ResolvedStreamOptions) (lines : List JsString) : List JsString :=
  (pushLines options ⟨options.startLine,[],0⟩ lines).1 ++
    yielded (pushLines options ⟨options.startLine,[],0⟩ lines).2.flush.1

theorem emitAll_groups {lines : List JsString} (oneLine : ∀ line ∈ lines, lineFeed ∉ line) :
    ∃ groups : List (List JsString), emitAll options lines = groups.map joinLines ∧
      (∀ group ∈ groups, group ≠ [] ∧ Fits options group ∧ OneLiners group) ∧
      numberedFrom options.startLine lines = groups.flatten := by
  obtain ⟨holding,emits⟩ := pushLines_holding (holding_empty options.startLine) oneLine
  have last : Emits options (pushLines options ⟨options.startLine,[],0⟩ lines).2.outLines []
      (yielded (pushLines options ⟨options.startLine,[],0⟩ lines).2.flush.1) [] := by
    by_cases empty : (pushLines options ⟨options.startLine,[],0⟩ lines).2.outLines = []
    · rw [ChunkEmitter.flush, if_pos (by rw [empty]; rfl), empty]
      exact emits_nothing [] []
    · exact (flush_holding holding empty).2.2
  obtain ⟨groups,out,good,split⟩ := emits_trans emits last
  refine ⟨groups,out,good,?_⟩
  simpa using split

theorem pushLines_append (lines more : List JsString) (e : ChunkEmitter) : pushLines options e (lines ++ more) =
    ((pushLines options e lines).1 ++ (pushLines options (pushLines options e lines).2 more).1,
      (pushLines options (pushLines options e lines).2 more).2) := by
  induction lines generalizing e with
  | nil => rfl
  | cons line lines ih => simp only [List.cons_append, pushLines, ih, List.append_assoc]

end emitter

section decoder

theorem dropMark_append {text : JsString} (some' : text ≠ []) (more : JsString) :
    dropMark (text ++ more) = dropMark text ++ more := by
  cases text with
  | nil => exact absurd rfl some'
  | cons c text =>
    rw [List.cons_append, dropMark, dropMark]
    split <;> rfl

theorem decode_nothing (d : TextDecoder) : d.decode [] = ([], d) := by
  obtain ⟨bomSeen,open'⟩ := d
  cases open' <;> cases bomSeen <;> rfl

theorem decode_append (d : TextDecoder) (front back : List Nat) : d.decode (front ++ back) =
    ((d.decode front).1 ++ ((d.decode front).2.decode back).1, ((d.decode front).2.decode back).2) := by
  obtain ⟨bomSeen,open'⟩ := d
  simp only [TextDecoder.decode, Utf8.decodeRun_append]
  cases bomSeen with
  | true => rfl
  | false =>
    cases first : (Utf8.decodeRun open' front).1 with
    | nil => simp [dropMark]
    | cons c text =>
      have kept := dropMark_append (List.cons_ne_nil c text) (Utf8.decodeRun (Utf8.decodeRun open' front).2 back).1
      rw [List.cons_append] at kept
      simp [kept]

theorem decode_whole (bytes : List Nat) :
    (TextDecoder.new.decode bytes).1 ++ (TextDecoder.new.decode bytes).2.finish = textDecode bytes := by
  unfold textDecode Utf8.decode
  rw [Utf8.decodeFrom_run]
  simp only [TextDecoder.new, TextDecoder.decode, TextDecoder.finish, Bool.false_eq_true, if_false]
  cases text : (Utf8.decodeRun none bytes).1 with
  | nil => simp [dropMark]
  | cons c rest =>
    have kept := dropMark_append (List.cons_ne_nil c rest) (Utf8.decodeFlush (Utf8.decodeRun none bytes).2)
    rw [kept]
    simp

theorem finish_oneLine (d : TextDecoder) : lineFeed ∉ d.finish := by
  obtain ⟨bomSeen,open'⟩ := d
  have replaced : lineFeed ∉ dropMark [UInt16.ofNat Utf8.replacementCharacter] ∧
      lineFeed ∉ [UInt16.ofNat Utf8.replacementCharacter] := by decide
  cases open' with
  | none => cases bomSeen <;> exact List.not_mem_nil
  | some started =>
    cases bomSeen with
    | true => exact replaced.2
    | false => exact replaced.1

end decoder

section chunks
variable {options : ResolvedStreamOptions}

/-- Where a chunk ends inside a line or a character cannot be told from the yields. -/
theorem feedChunk_seamless (options : ResolvedStreamOptions) : Seamless (feedChunk options) fun s => lineFeed ∉ s.pending := by
  constructor
  · intro s oneLine
    have single : splitLines s.pending = [s.pending] := List.splitOn_eq_singleton oneLine
    obtain ⟨decoder,pending,sawAnyLine,emitter⟩ := s
    simp only at single
    simp [feedChunk, decode_nothing, single, pushLines, lastLine]
  · intro s chunk _
    exact lastLine_clean _
  · intro s first second _
    have lines := splitLines_append (s.pending ++ (s.decoder.decode first).1) ((s.decoder.decode first).2.decode second).1
    have last := lastLine_append (s.pending ++ (s.decoder.decode first).1) ((s.decoder.decode first).2.decode second).1
    rw [List.append_assoc] at lines last
    have dropped := congrArg List.dropLast lines
    rw [List.dropLast_append_of_ne_nil (splitLines_ne_nil _)] at dropped
    have both : ∀ xs ys : List JsString, (xs ++ ys).isEmpty = (xs.isEmpty && ys.isEmpty) := fun xs ys => by
      cases xs <;> rfl
    simp only [feedChunk, decode_append, dropped, last, List.map_append, pushLines_append, both, Bool.not_and, Bool.or_assoc]

/-- The three ways the stream can end: inside a line, after a line feed, before any line. -/
theorem textLines_cases (text : JsString) :
    (lastLine text ≠ [] ∧ textLines text = (splitLines text).dropLast ++ [lastLine text]) ∨
    (lastLine text = [] ∧ (splitLines text).dropLast ≠ [] ∧ textLines text = (splitLines text).dropLast) ∨
    (lastLine text = [] ∧ (splitLines text).dropLast = [] ∧ textLines text = [[]]) := by
  by_cases ends : endsWithLineFeed text = true
  · obtain ⟨front,rfl⟩ := (ends_iff text).mp ends
    have pieces : splitLines (front ++ [lineFeed]) = splitLines front ++ [[]] := by
      simp [splitLines, List.splitOn_append_cons_self]
    refine .inr (.inl ⟨?_,?_,?_⟩)
    · simp [lastLine, pieces]
    · rw [pieces, List.dropLast_concat]
      exact splitLines_ne_nil front
    · rw [textLines_terminated, pieces, List.dropLast_concat]
  · have all : textLines text = splitLines text := by rw [textLines, if_neg ends]
    by_cases empty : lastLine text = []
    · have nothing : (splitLines text).dropLast = [] := by
        by_contra some'
        refine ends ((ends_iff text).mpr ?_)
        obtain ⟨before,line,whole⟩ := List.eq_nil_or_concat (splitLines text).dropLast |>.resolve_left some'
        refine ⟨terminate before ++ line,?_⟩
        rw [← text_whole_last text, empty, whole]
        simp [terminate]
      refine .inr (.inr ⟨empty,nothing,?_⟩)
      rw [all, split_whole_last text, nothing, empty]
      rfl
    · exact .inl ⟨empty,by rw [all]; exact split_whole_last text⟩

/-- The yields are those of the whole text's lines, pushed one after the other. -/
theorem stream_whole (options : StreamOptions) (chunks : List (List Nat)) : streamHashLines options chunks =
    emitAll (resolveStreamOptions options) ((textLines (textDecode chunks.flatten)).map stripCarriageReturn) := by
  generalize resolved : resolveStreamOptions options = limits
  have seen : streamHashLines options chunks =
      (feedChunk limits ⟨.new,[],false,⟨limits.startLine,[],0⟩⟩ chunks.flatten).1 ++
        endStream limits (feedChunk limits ⟨.new,[],false,⟨limits.startLine,[],0⟩⟩ chunks.flatten).2 := by
    have whole := feedAll_flatten (feedChunk_seamless limits) chunks
      (show lineFeed ∉ (⟨.new,[],false,⟨limits.startLine,[],0⟩⟩ : StreamState).pending from List.not_mem_nil)
    unfold streamHashLines
    rw [resolved]
    dsimp only
    rw [whole]
  have decoded := decode_whole chunks.flatten
  have oneLine := finish_oneLine (TextDecoder.new.decode chunks.flatten).2
  rw [seen]
  simp only [feedChunk, endStream, List.nil_append, Bool.false_or]
  generalize (TextDecoder.new.decode chunks.flatten).2.finish = rest at decoded oneLine ⊢
  generalize (TextDecoder.new.decode chunks.flatten).1 = text at decoded ⊢
  rw [← decoded]
  have tail : splitLines (lastLine text ++ rest) = [lastLine text ++ rest] :=
    List.splitOn_eq_singleton fun mem => (List.mem_append.mp mem).elim (lastLine_clean text) oneLine
  have last : lastLine (text ++ rest) = lastLine text ++ rest := by
    rw [lastLine_append, lastLine, tail]
    rfl
  have before : (splitLines (text ++ rest)).dropLast = (splitLines text).dropLast := by
    rw [splitLines_append, tail, List.dropLast_concat]
  rw [← last, ← before]
  unfold emitAll
  rcases textLines_cases (text ++ rest) with ⟨some',lines⟩ | ⟨none',some',lines⟩ | ⟨none',none'',lines⟩
  · have more : (lastLine (text ++ rest)).length > 0 := List.length_pos_of_ne_nil some'
    rw [lines, List.map_append, pushLines_append]
    simp [more, pushLines]
  · rw [lines, none']
    simp [some']
  · rw [lines, none', none'']
    simp [pushLines, stripCarriageReturn]

end chunks

theorem strip_oneLine {line : JsString} (oneLine : lineFeed ∉ line) : lineFeed ∉ stripCarriageReturn line := by
  unfold stripCarriageReturn
  split
  · exact fun mem => oneLine (List.dropLast_subset line mem)
  · exact oneLine

theorem textLines_oneLine {text : JsString} : ∀ line ∈ textLines text, lineFeed ∉ line := by
  intro line mem
  unfold textLines at mem
  split at mem
  · exact split_clean text line (List.dropLast_subset _ mem)
  · exact split_clean text line mem

/-- Whatever the chunks, the yields joined are the numbered lines of the whole decoded text, a line ending with a line
feed or a carriage return and a line feed; and a yield of several lines is within both limits. Where the text ends in a
line and has no carriage return, that is what the formatter for whole texts gives. -/
theorem stream_numbers_lines (options : StreamOptions) (chunks : List (List Nat)) :
    joinLines (streamHashLines options chunks) = joinLines (numberedFrom (resolveStreamOptions options).startLine
        ((textLines (textDecode chunks.flatten)).map stripCarriageReturn)) ∧
      (∀ chunk ∈ streamHashLines options chunks, (splitLines chunk).length = 1 ∨
        (((splitLines chunk).length : Int) ≤ (resolveStreamOptions options).maxChunkLines ∧
          (Utf8.byteLength chunk : Int) ≤ (resolveStreamOptions options).maxChunkBytes)) ∧
      (endsWithLineFeed (textDecode chunks.flatten) = false → carriageReturn ∉ textDecode chunks.flatten →
        joinLines (streamHashLines options chunks) =
          formatNumberedLines (textDecode chunks.flatten) (resolveStreamOptions options).startLine) := by
  have oneLine : ∀ line ∈ (textLines (textDecode chunks.flatten)).map stripCarriageReturn, lineFeed ∉ line := by
    intro line mem
    obtain ⟨source,inside,rfl⟩ := List.mem_map.mp mem
    exact strip_oneLine (textLines_oneLine source inside)
  obtain ⟨groups,out,good,rows⟩ := @emitAll_groups (resolveStreamOptions options) _ oneLine
  have joined : joinLines (streamHashLines options chunks) = joinLines (numberedFrom (resolveStreamOptions options).startLine
      ((textLines (textDecode chunks.flatten)).map stripCarriageReturn)) := by
    rw [stream_whole, out, rows, join_groups fun group mem => (good group mem).1]
  refine ⟨joined,?_,?_⟩
  · intro chunk mem
    rw [stream_whole, out] at mem
    obtain ⟨group,inside,rfl⟩ := List.mem_map.mp mem
    obtain ⟨full,fits,oneLiners⟩ := good group inside
    rw [split_join group (fun row among => (oneLiners row among).2) full]
    have some' := List.length_pos_of_ne_nil full
    rcases fits with single | limits
    · exact .inl (by omega)
    · exact .inr limits
  · intro unended noReturns
    have lines : textLines (textDecode chunks.flatten) = splitLines (textDecode chunks.flatten) := by
      rw [textLines, unended]
      rfl
    have unchanged : ∀ line ∈ splitLines (textDecode chunks.flatten), stripCarriageReturn line = id line := by
      intro line mem
      rw [stripCarriageReturn, if_neg]
      · rfl
      · exact fun last => noReturns (line_subset mem (List.mem_of_getLast? last))
    rw [joined, lines, List.map_congr_left unchanged, List.map_id, formatNumberedLines]

/- `é`, cut in its middle. -/
theorem stream_numbers_lines_cut :
    joinLines (streamHashLines ⟨none,some 2,none⟩ [[97, 10, 0xC3], [0xA9, 10, 98]]) = js "1:a\n2:é\n3:b" :=
  ((stream_numbers_lines ⟨none,some 2,none⟩ [[97, 10, 0xC3], [0xA9, 10, 98]]).2.2 (by decide) (by decide)).trans (by decide)

end Hashline
