import OpenAgents.Session.OutputSink

/- When the artifact is the full record. It is opened with the buffer in front, so what the head took
   before, and what the cap changed before, is missing from it. -/
namespace SpilledRecord
open JsText Utf8 ByteWindows OutputSink

/- The artifact is not open yet and this chunk opens it. -/
def opens (o : Options) (sink : Sink) (chunk : JsString) : Bool :=
  byteLength (cap o sink.columns chunk).1 < byteLength chunk || willOverflow o sink (byteLength (cap o sink.columns chunk).1)

/- When the artifact is opened the head is empty and the cap has not changed an earlier chunk. -/
def SeededWhole (o : Options) : Sink → List JsString → Prop
  | _, [] => True
  | sink, chunk :: rest =>
      if opens o sink chunk then sink.head = []
      else (cap o sink.columns chunk).1 = chunk ∧ SeededWhole o (pushSanitized o sink chunk) rest

instance (o : Options) : (sink : Sink) → (chunks : List JsString) → Decidable (SeededWhole o sink chunks)
  | _, [] => .isTrue trivial
  | sink, chunk :: rest =>
      have := instDecidableSeededWhole o (pushSanitized o sink chunk) rest
      inferInstanceAs (Decidable (if opens o sink chunk then sink.head = []
        else (cap o sink.columns chunk).1 = chunk ∧ SeededWhole o (pushSanitized o sink chunk) rest))

theorem newline_text : text ['\n'] = [lineFeed] := rfl

theorem unit_newline {c : Char} (other : c ≠ '\n') : ∀ u ∈ utf16 c, u ≠ lineFeed := by
  intro u mem same
  have range := char_cases c
  rw [utf16_eq, units] at mem
  split at mem
  · rename_i small
    rw [List.mem_singleton.mp mem] at same
    have value := congrArg UInt16.toNat same
    rw [unit_low small] at value
    exact other (Char.toNat_inj.mp value)
  · rename_i large
    have high := unit_low (show 0xD800 + (c.toNat - 0x10000) / 0x400 < 0x10000 by omega)
    have low := unit_low (show 0xDC00 + (c.toNat - 0x10000) % 0x400 < 0x10000 by omega)
    have feed : lineFeed.toNat = 10 := rfl
    rcases List.mem_cons.mp mem with first | later
    · rw [first] at same
      rw [same] at high
      omega
    · rw [List.mem_singleton.mp later] at same
      rw [same] at low
      omega

theorem splitLines_cons (u : CodeUnit) (rest : JsString) : splitLines (u :: rest) =
    if u = lineFeed then [] :: splitLines rest else (splitLines rest).modifyHead (u :: ·) := by
  simp [splitLines, List.splitOn, List.splitOnP_cons]

/-- Lines of characters are made of characters. -/
theorem lines_text (chars : List Char) : ∃ first, ∃ rest : List (List Char), splitLines (text chars) = text first :: rest.map text := by
  induction chars with
  | nil => exact ⟨[],[],rfl⟩
  | cons c chars ih =>
    obtain ⟨first,rest,is⟩ := ih
    by_cases feed : c = '\n'
    · refine ⟨[],first :: rest,?_⟩
      rw [feed, text_cons]
      change splitLines (lineFeed :: text chars) = _
      rw [splitLines_cons, if_pos rfl, is]
      rfl
    · refine ⟨c :: first,rest,?_⟩
      have clean := unit_newline feed
      have added : ∀ front : JsString, (∀ u ∈ front, u ≠ lineFeed) →
          splitLines (front ++ text chars) = (front ++ text first) :: rest.map text := by
        intro front
        induction front with
        | nil => exact fun _ => is
        | cons u front ih' =>
          intro none'
          obtain ⟨here,later⟩ := List.forall_mem_cons.mp none'
          rw [List.cons_append, splitLines_cons, if_neg here, ih' later]
          rfl
      rw [text_cons, added _ clean, text_cons]

/- What the cap leaves of a text: characters again, and no more units than before. -/
def Shortened (original capped : JsString) : Prop := WellFormed capped ∧ capped.length ≤ original.length

theorem ellipsis_text : ellipsis = text ['…'] := rfl

theorem segment_shortened (max : Nat) (columns : Columns) (chars : List Char) :
    Shortened (text chars) (capSegment max columns (text chars)).1 := by
  rw [capSegment]
  split
  · exact ⟨⟨[],rfl⟩,Nat.zero_le _⟩
  · rename_i some'
    split
    · exact ⟨⟨[],rfl⟩,Nat.zero_le _⟩
    · dsimp only
      split
      · exact ⟨⟨chars,rfl⟩,Nat.le_refl _⟩
      · rename_i large
        have nonempty : 0 < (text chars).length := by
          rw [List.length_pos_iff]
          simpa using some'
        split
        · rename_i room
          obtain ⟨front,⟨rest,is⟩,fits',result⟩ := truncate_head chars (max - columns.currentLineBytes - 3)
          rw [result, ellipsis_text]
          dsimp only
          rw [← text_append]
          refine ⟨⟨_,rfl⟩,?_⟩
          rw [byteLength_text, ← is, bytes_append, List.length_append] at large
          have more : 0 < (text rest).length := by
            cases rest with
            | nil =>
              have zero : (bytes []).length = 0 := rfl
              omega
            | cons c more =>
              have two := (units_length c).2
              rw [text_cons, List.length_append]
              omega
          have one : (text ['…']).length = 1 := rfl
          rw [← is, text_append, text_append, List.length_append, List.length_append]
          omega
        · refine ⟨⟨['…'],rfl⟩,?_⟩
          exact nonempty

theorem segments_shortened (max : Nat) (columns : Columns) (first : List Char) (rest : List (List Char)) :
    Shortened (joinLines (text first :: rest.map text)) (capSegments max columns (text first :: rest.map text)).1 := by
  induction rest generalizing columns first with
  | nil =>
    have single : joinLines [text first] = text first := by simp [joinLines]
    rw [List.map_nil, single]
    exact segment_shortened max columns first
  | cons second rest ih =>
    obtain ⟨wellFormed,short⟩ := segment_shortened max columns first
    obtain ⟨wellFormed',short'⟩ := ih (nextLine (capSegment max columns (text first)).2) second
    rw [List.map_cons, capSegments]
    constructor
    · exact wellFormed.append (WellFormed.append ⟨['\n'],newline_text.symm⟩ wellFormed')
    · have joined : joinLines (text first :: text second :: rest.map text) =
          text first ++ lineFeed :: joinLines (text second :: rest.map text) := by
        simp [joinLines, List.intercalate_cons_cons]
      rw [joined, List.length_append, List.length_append, List.length_cons, List.length_cons]
      omega
    exact fun none' => List.cons_ne_nil _ _ none'

theorem cap_shortened (o : Options) (columns : Columns) {chunk : JsString} (wellFormed : WellFormed chunk) :
    Shortened chunk (cap o columns chunk).1 := by
  rw [cap]
  split
  · obtain ⟨chars,is⟩ := wellFormed
    obtain ⟨first,rest,lines⟩ := lines_text chars
    have whole := join_split chunk
    rw [applyColumnCap]
    rw [is] at whole ⊢
    rw [lines] at whole ⊢
    have short := segments_shortened o.maxColumns columns first rest
    rw [whole] at short
    exact short
  · exact ⟨wellFormed,Nat.le_refl _⟩

/-- Before the artifact is opened: the head and the buffer share what the cap has left of the stream. -/
structure Before (sink : Sink) (done kept : JsString) : Prop where
  closed : sink.file = none
  untruncated : sink.truncated = false
  short : kept.length ≤ done.length
  shares : sink.head.length + sink.buffer.length = kept.length
  alone : sink.head = [] → sink.buffer = kept
  bytes : sink.totalBytes ≤ sink.headBytes + sink.bufferBytes

theorem empty_before : Before empty [] [] := ⟨rfl,rfl,Nat.le_refl 0,rfl,fun _ => rfl,Nat.le_refl 0⟩

section retain
variable {o : Options} {sink : Sink}

theorem pushTail_file (chunk : JsString) (dataBytes : Nat) : (pushTail o sink chunk dataBytes).file = sink.file := by
  rw [pushTail]
  split
  · rfl
  · split <;> rfl

theorem retain_file (capped : JsString) (cappedBytes : Nat) : (retain o sink capped cappedBytes).file = sink.file := by
  rw [retain]
  split
  · dsimp only
    split
    · rfl
    · split
      · exact pushTail_file _ _
      · exact pushTail_file _ _
  · exact pushTail_file _ _

/-- As long as the tail does not overflow, all of the chunk is in the head or behind the buffer. -/
theorem retain_whole {capped : JsString} (wellFormed : WellFormed capped)
    (room : willOverflow o sink (byteLength capped) = false) : ∃ front back, capped = front ++ back ∧
      (retain o sink capped (byteLength capped)).head = sink.head ++ front ∧
      (retain o sink capped (byteLength capped)).buffer = sink.buffer ++ back ∧
      (retain o sink capped (byteLength capped)).headBytes + (retain o sink capped (byteLength capped)).bufferBytes =
        sink.headBytes + sink.bufferBytes + byteLength capped ∧
      (retain o sink capped (byteLength capped)).truncated = sink.truncated ∧
      (retain o sink capped (byteLength capped)).totalBytes = sink.totalBytes := by
  obtain ⟨chars,is⟩ := wellFormed
  have straight : ∀ tail n, 0 < n → sink.bufferBytes + n ≤ o.spillThreshold → ∀ sink' : Sink, sink'.bufferBytes = sink.bufferBytes →
      pushTail o sink' tail n = { sink' with buffer := sink'.buffer ++ tail, bufferBytes := sink'.bufferBytes + n } := by
    intro tail n positive few sink' same
    rw [pushTail, if_neg (Nat.ne_of_gt positive), if_pos]
    rw [willOverflow, same, Bool.not_eq_true', decide_eq_false_iff_not]
    omega
  have fits' : sink.bufferBytes + byteLength capped ≤ o.spillThreshold := by
    rw [willOverflow, decide_eq_false_iff_not] at room
    omega
  have direct : 0 < byteLength capped → ∃ front back, capped = front ++ back ∧
      (pushTail o sink capped (byteLength capped)).head = sink.head ++ front ∧
      (pushTail o sink capped (byteLength capped)).buffer = sink.buffer ++ back ∧
      (pushTail o sink capped (byteLength capped)).headBytes + (pushTail o sink capped (byteLength capped)).bufferBytes =
        sink.headBytes + sink.bufferBytes + byteLength capped ∧
      (pushTail o sink capped (byteLength capped)).truncated = sink.truncated ∧
      (pushTail o sink capped (byteLength capped)).totalBytes = sink.totalBytes := by
    intro positive
    rw [straight capped _ positive fits' sink rfl]
    exact ⟨[],capped,rfl,(List.append_nil _).symm,rfl,by dsimp only; omega,rfl,rfl⟩
  by_cases none' : byteLength capped = 0
  · have zero : pushTail o sink capped (byteLength capped) = sink := by rw [pushTail, if_pos none']
    have nothing : capped = [] := by
      rw [is] at none' ⊢
      rw [byteLength_text] at none'
      have units' := text_length chars
      exact List.length_eq_zero_iff.mp (by omega)
    refine ⟨[],[],nothing,?_⟩
    rw [retain]
    split
    · rw [none', if_pos (Nat.zero_le _), nothing]
      simp
    · rw [zero, none']
      simp
  · rw [retain]
    split
    · dsimp only
      split
      · exact ⟨capped,[],(List.append_nil _).symm,rfl,(List.append_nil _).symm,by dsimp only; omega,rfl,rfl⟩
      · rename_i large
        obtain ⟨front,⟨rest,parts⟩,few,result⟩ := truncate_head chars (o.headLimit - sink.headBytes)
        rw [← is] at result
        rw [result]
        dsimp only
        split
        · have total : byteLength capped = (Utf8.bytes front).length + (Utf8.bytes rest).length := by
            rw [is, byteLength_text, ← parts, bytes_append, List.length_append]
          have tail : capped.drop (text front).length = text rest := by
            rw [is, ← parts, text_append, List.drop_left]
          rw [straight _ _ (by omega) (by omega) { sink with
            head := sink.head ++ text front
            headBytes := sink.headBytes + (Utf8.bytes front).length
            headLines := sink.headLines + countNewlines (text front) } rfl, tail]
          refine ⟨text front,text rest,by rw [is, ← parts, text_append],rfl,rfl,?_,rfl,rfl⟩
          dsimp only
          omega
        · exact direct (Nat.pos_of_ne_zero none')
    · exact direct (Nat.pos_of_ne_zero none')

end retain

section push
variable {o : Options}

theorem cappedBytes_eq (capped chunk : JsString) : (if capped = chunk then byteLength chunk else byteLength capped) = byteLength capped := by
  split
  · rename_i same
    rw [same]
  · rfl

variable {sink : Sink} {done kept chunk written : JsString}

/-- A chunk that does not open the artifact. -/
theorem before_push (before : Before sink done kept) (wellFormed : WellFormed chunk) (stays : opens o sink chunk = false) :
    Before (pushSanitized o sink chunk) (done ++ chunk) (kept ++ (cap o sink.columns chunk).1) := by
  obtain ⟨wellFormed',fewer⟩ := cap_shortened o sink.columns wellFormed
  rw [opens, Bool.or_eq_false_iff, decide_eq_false_iff_not] at stays
  obtain ⟨notShorter,noOverflow⟩ := stays
  rw [pushSanitized]
  dsimp only
  rw [cappedBytes_eq]
  generalize (cap o sink.columns chunk).1 = capped at *
  have noMirror : ∀ sink' : Sink, sink'.file = none → sink'.bufferBytes = sink.bufferBytes →
      mirrors o sink' (decide (byteLength capped < byteLength chunk)) (byteLength capped) = false := by
    intro sink' closed same
    rw [mirrors, closed, willOverflow, same]
    rw [willOverflow] at noOverflow
    simp [notShorter, noOverflow]
  have counted : ∃ sink' : Sink, sink' = { count sink chunk with
        columns := (cap o sink.columns chunk).2, truncated := sink.truncated || decide (byteLength capped < byteLength chunk) } ∧
      sink'.head = sink.head ∧ sink'.buffer = sink.buffer ∧ sink'.headBytes = sink.headBytes ∧ sink'.bufferBytes = sink.bufferBytes ∧
      sink'.file = none ∧ sink'.truncated = false ∧ sink'.totalBytes = sink.totalBytes + byteLength chunk := by
    refine ⟨_,rfl,rfl,rfl,rfl,rfl,before.closed,?_,rfl⟩
    simp [before.untruncated, notShorter]
  obtain ⟨sink',is,head,buffer,headBytes,bufferBytes,file,truncated,total⟩ := counted
  rw [← is, noMirror sink' file bufferBytes, if_neg Bool.false_ne_true]
  have room : willOverflow o sink' (byteLength capped) = false := by
    rw [willOverflow] at noOverflow ⊢
    rw [bufferBytes]
    exact noOverflow
  have sums := before.bytes
  have shares := before.shares
  have shorter := before.short
  split
  · rename_i zero
    obtain ⟨chars,made⟩ := wellFormed'
    have nothing : capped = [] := by
      rw [made] at zero ⊢
      rw [byteLength_text] at zero
      have units' := text_length chars
      exact List.length_eq_zero_iff.mp (by omega)
    rw [nothing, List.append_nil]
    exact
      { closed := file
        untruncated := truncated
        short := by rw [List.length_append]; omega
        shares := by rw [head, buffer, shares]
        alone := fun none' => by rw [buffer]; exact before.alone (head.symm.trans none')
        bytes := by rw [total, headBytes, bufferBytes]; omega }
  · obtain ⟨front,back,parts,toHead,toBuffer,bytes',truncated',total'⟩ := retain_whole wellFormed' room
    have sizes := congrArg List.length parts
    rw [List.length_append] at sizes
    exact
      { closed := (retain_file capped _).trans file
        untruncated := truncated'.trans truncated
        short := by rw [List.length_append, List.length_append]; omega
        shares := by
          rw [toHead, toBuffer, head, buffer, List.length_append, List.length_append, List.length_append]
          omega
        alone := by
          intro none'
          rw [toHead, head] at none'
          obtain ⟨noHead,noFront⟩ := List.append_eq_nil_iff.mp none'
          rw [toBuffer, buffer, before.alone noHead, parts, noFront, List.nil_append]
        bytes := by
          rw [bytes', total', total, headBytes, bufferBytes]
          omega }

theorem opened_push (has : hasArtifact o = true) (file : sink.file = some written) (chunk : JsString) : (pushSanitized o sink chunk).file = some (written ++ chunk) := by
  have mirrored : ∀ (sink' : Sink) (short : Bool) (n : Nat), sink'.file = some written →
      (if mirrors o sink' short n then writeToFile sink' chunk else sink').file = some (written ++ chunk) := by
    intro sink' short n open'
    rw [mirrors, has, open', if_pos (by simp), writeToFile, open']
  rw [pushSanitized]
  dsimp only
  rw [cappedBytes_eq]
  split
  · exact mirrored _ _ _ file
  · rw [retain_file]
    exact mirrored _ _ _ file

theorem opened_run (has : hasArtifact o = true) (chunks : List JsString) (file : sink.file = some written) : (chunks.foldl (pushSanitized o) sink).file = some (written ++ chunks.flatten) := by
  induction chunks generalizing sink written with
  | nil => rw [List.foldl_nil, file, List.flatten_nil, List.append_nil]
  | cons chunk rest ih => rw [List.foldl_cons, ih (opened_push has file chunk), List.flatten_cons, List.append_assoc]

theorem opening_push (has : hasArtifact o = true) (file : sink.file = none) (opening : opens o sink chunk = true) : (pushSanitized o sink chunk).file = some (sink.buffer ++ chunk) := by
  rw [opens] at opening
  rw [pushSanitized]
  dsimp only
  rw [cappedBytes_eq]
  have mirrored : ∀ sink' : Sink, sink'.file = none → sink'.buffer = sink.buffer → sink'.bufferBytes = sink.bufferBytes →
      (if mirrors o sink' (decide (byteLength (cap o sink.columns chunk).1 < byteLength chunk)) (byteLength (cap o sink.columns chunk).1)
        then writeToFile sink' chunk else sink').file = some (sink.buffer ++ chunk) := by
    intro sink' closed same same'
    have yes : mirrors o sink' (decide (byteLength (cap o sink.columns chunk).1 < byteLength chunk))
        (byteLength (cap o sink.columns chunk).1) = true := by
      rw [mirrors, has, closed, willOverflow, same']
      rw [willOverflow] at opening
      exact opening
    rw [yes, if_pos rfl, writeToFile, closed, same]
  split
  · exact mirrored _ file rfl rfl
  · rw [retain_file]
    exact mirrored _ file rfl rfl

theorem record_iff (has : hasArtifact o = true) (runtime : Runtime) (notice : Option JsString)
    (before : Before sink done kept) (chunks : List JsString) (wellFormed : ∀ chunk ∈ chunks, WellFormed chunk)
    (truncated : (dump runtime o (chunks.foldl (pushSanitized o) sink) notice).truncated = true) :
    (chunks.foldl (pushSanitized o) sink).file = some (done ++ chunks.flatten) ↔ kept = done ∧ SeededWhole o sink chunks := by
  induction chunks generalizing sink done kept with
  | nil =>
    have sums := before.bytes
    have all : ¬ sink.headBytes + sink.bufferBytes < sink.totalBytes - sink.columns.droppedBytes := by omega
    have untruncated : (dump runtime o sink notice).truncated = false := by
      unfold dump
      dsimp only
      rw [if_neg all]
      split
      · exact before.untruncated
      · exact before.untruncated
    rw [List.foldl_nil, untruncated] at truncated
    contradiction
  | cons chunk rest ih =>
    obtain ⟨here,later⟩ := List.forall_mem_cons.mp wellFormed
    have shares := before.shares
    have short := before.short
    rw [List.foldl_cons, SeededWhole, List.flatten_cons]
    rw [List.foldl_cons] at truncated
    cases opening : opens o sink chunk with
    | true =>
      rw [if_pos rfl, opened_run has rest (opening_push has before.closed opening), Option.some.injEq, List.append_assoc,
        List.append_left_inj]
      constructor
      · intro same
        have sizes := congrArg List.length same
        have noHead : sink.head = [] := List.length_eq_zero_iff.mp (by omega)
        exact ⟨(before.alone noHead).symm.trans same,noHead⟩
      · intro ⟨same,noHead⟩
        exact (before.alone noHead).trans same
    | false =>
      rw [if_neg Bool.false_ne_true, ← List.append_assoc, ih (before_push before here opening) later truncated]
      have fewer := (cap_shortened o sink.columns here).2
      constructor
      · intro ⟨same,seeded⟩
        have sizes := congrArg List.length same
        rw [List.length_append, List.length_append] at sizes
        obtain ⟨same',unchanged⟩ := List.append_inj same (by omega)
        exact ⟨same',unchanged,seeded⟩
      · intro ⟨same,unchanged,seeded⟩
        exact ⟨by rw [same, unchanged],seeded⟩

end push

/-- For every run whose summary says that output was truncated. -/
theorem full_record_iff (runtime : Runtime) (lawful : Lawful runtime) (o : Options) (has : hasArtifact o = true)
    (chunks : List JsString) (notice : Option JsString)
    (truncated : (dump runtime o (chunks.foldl (push runtime o) empty) notice).truncated = true) :
    (chunks.foldl (push runtime o) empty).file = some (chunks.map (sanitize runtime)).flatten ↔
      SeededWhole o empty (chunks.map (sanitize runtime)) := by
  have run : chunks.foldl (push runtime o) empty = (chunks.map (sanitize runtime)).foldl (pushSanitized o) empty := by
    rw [List.foldl_map]
    rfl
  have wellFormed : ∀ chunk ∈ chunks.map (sanitize runtime), WellFormed chunk := by
    intro chunk mem
    obtain ⟨raw,_,is⟩ := List.mem_map.mp mem
    rw [← is]
    exact sanitize_wellFormed lawful raw
  rw [run] at truncated ⊢
  have whole := record_iff has runtime notice empty_before (chunks.map (sanitize runtime)) wellFormed truncated
  rw [List.nil_append] at whole
  rw [whole]
  exact ⟨And.right,fun seeded => ⟨rfl,seeded⟩⟩

def spilling : Options := ⟨some (js "out.log"),some (js "7"),4,0,0⟩

theorem tail_spilled_whole : ([js "ab", js "cdé", js "f"].foldl (push plain spilling) empty).file =
    some ([js "ab", js "cdé", js "f"].map (sanitize plain)).flatten :=
  (full_record_iff plain plain_lawful spilling rfl [js "ab", js "cdé", js "f"] none (by decide +kernel)).mpr (by decide +kernel)

/-- The two characters in the head are missing from the artifact. -/
theorem head_not_spilled :
    (dump plain { spilling with headLimit := 2 } ([js "ab", js "cdefgh"].foldl (push plain { spilling with headLimit := 2 }) empty)
      none).truncated = true ∧
    ([js "ab", js "cdefgh"].foldl (push plain { spilling with headLimit := 2 }) empty).file = some (js "cdefgh") ∧
    ([js "ab", js "cdefgh"].map (sanitize plain)).flatten = js "abcdefgh" := by
  decide +kernel

/- A cap that drops no more bytes than its ellipsis has goes unnoticed, and the ellipsis is written. -/
example : ([js "abcd", js "x", js "\nefghijk"].foldl (push plain { spilling with maxColumns := 4, spillThreshold := 9 }) empty).file =
    some (js "abcd…\nefghijk") := by
  decide +kernel

end SpilledRecord
