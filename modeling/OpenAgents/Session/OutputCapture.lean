import OpenAgents.Session.OutputSink

/- What a capture without column cap still holds of its stream. The head is filled first; once it is
   closed everything goes to the tail, which keeps the end. -/
namespace OutputCapture
open JsText Utf8 ByteWindows OutputSink

/-- Once a chunk has not fitted into the head, no later one begins with characters that fit into what
    the head has left. -/
def RoutedOnce : Nat → List JsString → Prop
  | _, [] => True
  | room, chunk :: rest =>
      if byteLength chunk ≤ room then RoutedOnce (room - byteLength chunk) rest
      else ∀ later ∈ rest, (truncateHeadBytes later (room - (truncateHeadBytes chunk room).bytes)).bytes = 0

instance : (room : Nat) → (chunks : List JsString) → Decidable (RoutedOnce room chunks)
  | _, [] => .isTrue trivial
  | room, chunk :: rest =>
      have := instDecidableRoutedOnce (room - byteLength chunk) rest
      inferInstanceAs (Decidable (if byteLength chunk ≤ room then RoutedOnce (room - byteLength chunk) rest
        else ∀ later ∈ rest, (truncateHeadBytes later (room - (truncateHeadBytes chunk room).bytes)).bytes = 0))

/-- The sink holds the first and the last characters; those in the middle are gone. -/
structure Holds (sink : Sink) (first middle last : List Char) : Prop where
  head : sink.head = text first
  headBytes : sink.headBytes = (bytes first).length
  buffer : sink.buffer = text last
  bufferBytes : sink.bufferBytes = (bytes last).length
  total : sink.totalBytes = (bytes (first ++ middle ++ last)).length
  truncated : sink.truncated = !middle.isEmpty
  undropped : sink.columns.droppedBytes = 0
  retains : sink.headRetentionDisabled = false

theorem bytes_pos {chars : List Char} (some' : chars ≠ []) : 0 < (bytes chars).length := by
  cases chars with
  | nil => contradiction
  | cons c rest =>
    have positive := size_pos c
    have width : (encodePoint c.toNat).length = size c := rfl
    rw [bytes_cons, List.length_append]
    omega

theorem text_ne_nil {chars : List Char} (some' : chars ≠ []) : text chars ≠ [] := by
  cases chars with
  | nil => contradiction
  | cons c rest =>
    have long := (units_length c).2
    rw [text_cons]
    intro empty
    have none' := congrArg List.length (List.append_eq_nil_iff.mp empty).1
    rw [List.length_nil] at none'
    omega

theorem empty_holds : Holds empty [] [] [] := ⟨rfl,rfl,rfl,rfl,rfl,rfl,rfl,rfl⟩

section push
variable {o : Options} {sink : Sink} {first middle last chars : List Char}

/-- The counts run ahead of what is held by the chunk that is on its way. -/
structure Coming (sink : Sink) (first middle last chars : List Char) : Prop where
  head : sink.head = text first
  headBytes : sink.headBytes = (bytes first).length
  buffer : sink.buffer = text last
  bufferBytes : sink.bufferBytes = (bytes last).length
  total : sink.totalBytes = (bytes (first ++ middle ++ last ++ chars)).length
  truncated : sink.truncated = !middle.isEmpty
  undropped : sink.columns.droppedBytes = 0
  retains : sink.headRetentionDisabled = false

theorem pushTail_holds (coming : Coming sink first middle last chars) (some' : chars ≠ []) :
    ∃ middle' last', middle' ++ last' = middle ++ last ++ chars ∧
      Holds (pushTail o sink (text chars) (bytes chars).length) first middle' last' := by
  have positive := bytes_pos some'
  have whole : ∀ middle' last', middle' ++ last' = middle ++ last ++ chars →
      sink.totalBytes = (bytes (first ++ middle' ++ last')).length := by
    intro middle' last' same
    rw [coming.total, List.append_assoc first middle' last', same]
    simp only [List.append_assoc]
  rw [pushTail, if_neg (Nat.ne_of_gt positive)]
  split
  · refine ⟨middle,last ++ chars,(List.append_assoc _ _ _).symm,?_⟩
    exact
      { head := coming.head
        headBytes := coming.headBytes
        buffer := by rw [coming.buffer, text_append]
        bufferBytes := by rw [coming.bufferBytes, bytes_append, List.length_append]
        total := whole _ _ (List.append_assoc _ _ _).symm
        truncated := coming.truncated
        undropped := coming.undropped
        retains := coming.retains }
  · rename_i overflow
    have beyond : o.spillThreshold < (bytes last).length + (bytes chars).length := by
      have small : willOverflow o sink (bytes chars).length = true := by simpa using overflow
      rw [willOverflow, decide_eq_true_eq, coming.bufferBytes] at small
      exact small
    -- In both cases the new tail is a suffix that leaves something behind.
    have kept : ∃ dropped back, dropped ≠ [] ∧ middle ++ last ++ chars = middle ++ dropped ++ back ∧
        (if o.spillThreshold ≤ (bytes chars).length then truncateTailBytes (text chars) o.spillThreshold
          else truncateTailBytes (sink.buffer ++ text chars) o.spillThreshold) = ⟨text back,(bytes back).length⟩ := by
      split
      · obtain ⟨back,⟨gone,is⟩,room,_,result⟩ := truncate_tail chars o.spillThreshold
        refine ⟨last ++ gone,back,?_,by rw [← is]; simp only [List.append_assoc],result⟩
        intro none'
        obtain ⟨noLast,noGone⟩ := List.append_eq_nil_iff.mp none'
        rw [noGone, List.nil_append] at is
        rw [noLast, ← is] at beyond
        have zero : (bytes []).length = 0 := rfl
        omega
      · obtain ⟨back,⟨gone,is⟩,room,_,result⟩ := truncate_tail (last ++ chars) o.spillThreshold
        rw [coming.buffer, ← text_append]
        refine ⟨gone,back,?_,by rw [List.append_assoc, ← is, List.append_assoc],result⟩
        intro none'
        rw [none', List.nil_append] at is
        rw [is, bytes_append, List.length_append] at room
        omega
    obtain ⟨dropped,back,lost,same,result⟩ := kept
    rw [result]
    refine ⟨middle ++ dropped,back,same.symm,?_⟩
    exact
      { head := coming.head
        headBytes := coming.headBytes
        buffer := rfl
        bufferBytes := rfl
        total := whole _ _ same.symm
        truncated := by simp [lost]
        undropped := coming.undropped
        retains := coming.retains }

/-- A chunk that does not fit goes to the head with the characters that fit, and to the tail with the others. -/
theorem retain_splits (coming : Coming sink first middle last chars) (tailEmpty : middle = [] ∧ last = [])
    (large : o.headLimit - (bytes first).length < (bytes chars).length) :
    ∃ first' middle' last', first' ++ middle' ++ last' = first ++ chars ∧
      (bytes first').length = (bytes first).length + (truncateHeadBytes (text chars) (o.headLimit - (bytes first).length)).bytes ∧
      Holds (retain o sink (text chars) (bytes chars).length) first' middle' last' := by
  obtain ⟨front,⟨rest,is⟩,room,result⟩ := truncate_head chars (o.headLimit - (bytes first).length)
  have some' : chars ≠ [] := by
    intro none'
    rw [none'] at large
    exact absurd large (Nat.not_lt_zero _)
  have straight : ∃ middle' last', middle' ++ last' = middle ++ last ++ chars ∧
      Holds (pushTail o sink (text chars) (bytes chars).length) first middle' last' := pushTail_holds coming some'
  rw [tailEmpty.1, tailEmpty.2, List.nil_append, List.nil_append] at straight
  rw [retain, coming.headBytes]
  split
  · dsimp only
    rw [if_neg (by omega), result]
    dsimp only
    split
    · have restBytes : (bytes chars).length - (bytes front).length = (bytes rest).length := by
        rw [← is, bytes_append, List.length_append, Nat.add_sub_cancel_left]
      have restText : (text chars).drop (text front).length = text rest := by
        rw [← is, text_append, List.drop_left]
      have more : rest ≠ [] := by
        intro none'
        rw [none', List.append_nil] at is
        rw [← is] at large
        omega
      rw [restBytes, restText]
      have advanced : Coming { sink with
          head := sink.head ++ text front
          headBytes := (bytes first).length + (bytes front).length
          headLines := sink.headLines + countNewlines (text front) } (first ++ front) middle last rest :=
        { head := by rw [coming.head, text_append]
          headBytes := by rw [bytes_append, List.length_append]
          buffer := coming.buffer
          bufferBytes := coming.bufferBytes
          total := by
            rw [coming.total, tailEmpty.1, tailEmpty.2, ← is]
            simp only [List.append_nil, List.append_assoc]
          truncated := coming.truncated
          undropped := coming.undropped
          retains := coming.retains }
      obtain ⟨middle',last',same,holds⟩ := pushTail_holds (o := o) advanced more
      rw [tailEmpty.1, tailEmpty.2, List.nil_append, List.nil_append] at same
      refine ⟨first ++ front,middle',last',?_,by rw [bytes_append, List.length_append],holds⟩
      rw [List.append_assoc, same, List.append_assoc, is]
    · rename_i none'
      obtain ⟨middle',last',same,holds⟩ := straight
      exact ⟨first,middle',last',by rw [List.append_assoc, same],by omega,holds⟩
  · rename_i closed
    obtain ⟨middle',last',same,holds⟩ := straight
    have noRoom : o.headLimit - (bytes first).length = 0 := by
      simp only [coming.retains, Bool.not_false, Bool.and_true, Bool.and_eq_true, decide_eq_true_eq] at closed
      omega
    refine ⟨first,middle',last',by rw [List.append_assoc, same],?_,holds⟩
    rw [noRoom] at room
    rw [result]
    dsimp only
    omega

/-- A closed head takes nothing more. -/
theorem retain_closed (coming : Coming sink first middle last chars) (some' : chars ≠ [])
    (closed : (truncateHeadBytes (text chars) (o.headLimit - (bytes first).length)).bytes = 0) :
    ∃ middle' last', middle' ++ last' = middle ++ last ++ chars ∧
      Holds (retain o sink (text chars) (bytes chars).length) first middle' last' := by
  have positive := bytes_pos some'
  have large : o.headLimit - (bytes first).length < (bytes chars).length := by
    by_contra fits'
    obtain ⟨front,within,_,result⟩ := truncate_head chars (o.headLimit - (bytes first).length)
    have all : truncateHeadBytes (text chars) (o.headLimit - (bytes first).length) = ⟨text chars,(bytes chars).length⟩ := by
      have units' := text_length chars
      rw [truncateHeadBytes, truncateBytesWindowed, if_neg (by omega), byteLength_text, if_pos (by omega)]
    rw [all] at closed
    dsimp only at closed
    omega
  rw [retain, coming.headBytes]
  split
  · dsimp only
    rw [if_neg (by omega), closed, if_neg (Nat.lt_irrefl 0)]
    exact pushTail_holds coming some'
  · exact pushTail_holds coming some'

theorem retain_fits (coming : Coming sink first [] [] chars) (some' : chars ≠ [])
    (small : (bytes chars).length ≤ o.headLimit - (bytes first).length) :
    Holds (retain o sink (text chars) (bytes chars).length) (first ++ chars) [] [] := by
  have positive := bytes_pos some'
  have open' : (decide (0 < o.headLimit) && !sink.headRetentionDisabled && decide (sink.headBytes < o.headLimit)) = true := by
    rw [coming.retains, coming.headBytes]
    simp
    omega
  rw [retain, if_pos open', coming.headBytes]
  dsimp only
  rw [if_pos small]
  exact
    { head := by rw [coming.head, text_append]
      headBytes := by rw [bytes_append, List.length_append]
      buffer := coming.buffer
      bufferBytes := coming.bufferBytes
      total := by
        rw [coming.total]
        simp only [List.append_nil]
      truncated := coming.truncated
      undropped := coming.undropped
      retains := coming.retains }

end push

section uncapped
variable {o : Options} (noCap : o.maxColumns = 0)
include noCap

/-- Without cap a chunk is counted, mirrored and retained as it is. -/
theorem push_eq (sink : Sink) (chunk : JsString) : ∃ sink' : Sink, sink'.head = sink.head ∧ sink'.headBytes = sink.headBytes ∧
    sink'.buffer = sink.buffer ∧ sink'.bufferBytes = sink.bufferBytes ∧ sink'.totalBytes = sink.totalBytes + byteLength chunk ∧
    sink'.truncated = sink.truncated ∧ sink'.columns = sink.columns ∧ sink'.headRetentionDisabled = sink.headRetentionDisabled ∧
    pushSanitized o sink chunk = if byteLength chunk = 0 then sink' else retain o sink' chunk (byteLength chunk) := by
  have same : cap o sink.columns chunk = (chunk, sink.columns) := by rw [cap, noCap, if_neg (Nat.lt_irrefl 0)]
  rw [pushSanitized]
  dsimp only
  rw [same]
  dsimp only
  rw [if_pos rfl]
  refine ⟨_,?_,?_,?_,?_,?_,?_,?_,?_,rfl⟩
  all_goals
    split
    · rw [writeToFile]
      split <;> simp [count]
    · simp [count]

variable {sink : Sink} {first middle last : List Char}

theorem coming_of_holds (holds : Holds sink first middle last) (chars : List Char) :
    ∃ sink', Coming sink' first middle last chars ∧ pushSanitized o sink (text chars) =
      if (bytes chars).length = 0 then sink' else retain o sink' (text chars) (bytes chars).length := by
  obtain ⟨sink',head,headBytes,buffer,bufferBytes,total,truncated,columns,retains,result⟩ := push_eq noCap sink (text chars)
  rw [byteLength_text] at total result
  refine ⟨sink',?_,result⟩
  exact
    { head := head.trans holds.head
      headBytes := headBytes.trans holds.headBytes
      buffer := buffer.trans holds.buffer
      bufferBytes := bufferBytes.trans holds.bufferBytes
      total := by rw [total, holds.total, ← List.length_append, ← bytes_append]
      truncated := truncated.trans holds.truncated
      undropped := by rw [columns, holds.undropped]
      retains := retains.trans holds.retains }

omit noCap in
theorem holds_of_coming_nil (coming : Coming sink first middle last []) : Holds sink first middle last :=
  { head := coming.head
    headBytes := coming.headBytes
    buffer := coming.buffer
    bufferBytes := coming.bufferBytes
    total := by rw [coming.total, List.append_nil]
    truncated := coming.truncated
    undropped := coming.undropped
    retains := coming.retains }

/-- The tail phase. -/
theorem closed_run (holds : Holds sink first middle last) (chunks : List (List Char))
    (closed : ∀ chunk ∈ chunks, (truncateHeadBytes (text chunk) (o.headLimit - (bytes first).length)).bytes = 0) :
    ∃ middle' last', first ++ middle' ++ last' = first ++ middle ++ last ++ chunks.flatten ∧
      Holds ((chunks.map text).foldl (pushSanitized o) sink) first middle' last' := by
  induction chunks generalizing sink middle last with
  | nil => exact ⟨middle,last,by simp,holds⟩
  | cons chars rest ih =>
    obtain ⟨here,later⟩ := List.forall_mem_cons.mp closed
    obtain ⟨sink',coming,result⟩ := coming_of_holds noCap holds chars
    rw [List.map_cons, List.foldl_cons, result]
    by_cases none' : chars = []
    · rw [none'] at coming ⊢
      rw [if_pos (show (bytes []).length = 0 from rfl), List.flatten_cons, List.nil_append]
      exact ih (holds_of_coming_nil coming) later
    · rw [if_neg (Nat.ne_of_gt (bytes_pos none'))]
      obtain ⟨middle',last',same,next⟩ := retain_closed coming none' here
      obtain ⟨middle'',last'',same',final⟩ := ih next later
      refine ⟨middle'',last'',?_,final⟩
      rw [same', List.append_assoc first middle' last', same, List.flatten_cons]
      simp only [List.append_assoc]

/-- The head phase, up to the chunk that closes the head. -/
theorem routed_run (holds : Holds sink first [] []) (chunks : List (List Char))
    (routed : RoutedOnce (o.headLimit - (bytes first).length) (chunks.map text)) :
    ∃ first' middle last, first' ++ middle ++ last = first ++ chunks.flatten ∧
      Holds ((chunks.map text).foldl (pushSanitized o) sink) first' middle last := by
  induction chunks generalizing sink first with
  | nil => exact ⟨first,[],[],by simp,holds⟩
  | cons chars rest ih =>
    obtain ⟨sink',coming,result⟩ := coming_of_holds noCap holds chars
    rw [List.map_cons, RoutedOnce, byteLength_text] at routed
    rw [List.map_cons, List.foldl_cons, result]
    by_cases none' : chars = []
    · rw [none'] at coming routed ⊢
      rw [if_pos (show (bytes []).length = 0 from rfl), List.flatten_cons, List.nil_append]
      have none'' : (bytes []).length = 0 := rfl
      rw [none'', if_pos (Nat.zero_le _), Nat.sub_zero] at routed
      exact ih (holds_of_coming_nil coming) routed
    · rw [if_neg (Nat.ne_of_gt (bytes_pos none'))]
      by_cases small : (bytes chars).length ≤ o.headLimit - (bytes first).length
      · rw [if_pos small] at routed
        have next := retain_fits coming none' small
        have room : o.headLimit - (bytes (first ++ chars)).length = o.headLimit - (bytes first).length - (bytes chars).length := by
          rw [bytes_append, List.length_append]
          omega
        rw [← room] at routed
        obtain ⟨first',middle,last,same,final⟩ := ih next routed
        exact ⟨first',middle,last,by rw [same, List.flatten_cons, List.append_assoc],final⟩
      · rw [if_neg small] at routed
        have large : o.headLimit - (bytes first).length < (bytes chars).length := by omega
        obtain ⟨first',middle,last,same,taken,next⟩ := retain_splits coming ⟨rfl,rfl⟩ large
        have closed : ∀ chunk ∈ rest, (truncateHeadBytes (text chunk) (o.headLimit - (bytes first').length)).bytes = 0 := by
          intro chunk mem
          have room : o.headLimit - (bytes first').length =
              o.headLimit - (bytes first).length - (truncateHeadBytes (text chars) (o.headLimit - (bytes first).length)).bytes := by
            omega
          rw [room]
          exact routed _ (List.mem_map_of_mem mem)
        obtain ⟨middle',last',same',final⟩ := closed_run noCap next rest closed
        exact ⟨first',middle',last',by rw [same', same, List.flatten_cons, List.append_assoc],final⟩

end uncapped

/-- What a summary says of the stream: everything, or the head, the marker with the number of bytes that
    are gone, and the tail; without a head the tail alone. -/
def Captured (runtime : Runtime) (o : Options) (sink : Sink) (stream : JsString) : Prop :=
  ∃ elided, stream = sink.head ++ elided ++ sink.buffer ∧
    (dump runtime o sink none).truncated = !elided.isEmpty ∧
    (elided = [] → (dump runtime o sink none).output = stream ∧ (dump runtime o sink none).elidedBytes = none) ∧
    (elided ≠ [] → sink.head = [] → (dump runtime o sink none).output = sink.buffer ∧
      (dump runtime o sink none).elidedBytes = none) ∧
    (elided ≠ [] → sink.head ≠ [] → (dump runtime o sink none).elidedBytes = some (byteLength elided) ∧
      ∃ lines, (dump runtime o sink none).elidedLines = some lines ∧
        (dump runtime o sink none).output = sink.head ++ (if endsWithLine sink.head then [] else [lineFeed]) ++
          formatMiddleElisionMarker runtime lines (byteLength elided) ++
          (if startsWith sink.buffer [lineFeed] then [] else [lineFeed]) ++ sink.buffer)

theorem captured_of_holds (runtime : Runtime) (o : Options) {sink : Sink} {first middle last : List Char}
    (holds : Holds sink first middle last) : Captured runtime o sink (text (first ++ middle ++ last)) := by
  have total : sink.totalBytes - sink.columns.droppedBytes =
      (bytes first).length + (bytes middle).length + (bytes last).length := by
    rw [holds.total, holds.undropped, bytes_append, bytes_append, List.length_append, List.length_append]
    rfl
  have isEmpty : (text middle).isEmpty = middle.isEmpty := by
    cases middle with
    | nil => rfl
    | cons c rest =>
      have some' := text_ne_nil (List.cons_ne_nil c rest)
      simpa using some'
  refine ⟨text middle,by rw [holds.head, holds.buffer, text_append, text_append],?_⟩
  by_cases noHead : first = []
  · have zero : ¬ 0 < sink.headBytes := by
      rw [holds.headBytes, noHead]
      exact Nat.lt_irrefl 0
    have head : sink.head = [] := by rw [holds.head, noHead, text_nil]
    have out : (dump runtime o sink none).output = sink.buffer ∧ (dump runtime o sink none).elidedBytes = none ∧
        (dump runtime o sink none).truncated = sink.truncated := by
      rw [dump]
      dsimp only
      rw [if_neg zero]
      exact ⟨List.nil_append _,rfl,rfl⟩
    refine ⟨by rw [out.2.2, holds.truncated, isEmpty],?_,?_,?_⟩
    · intro none'
      rw [out.1, out.2.1, holds.buffer, noHead, text_append, text_append, none']
      exact ⟨rfl,rfl⟩
    · exact fun _ _ => ⟨out.1,out.2.1⟩
    · exact fun _ some' => absurd head some'
  · have positive : 0 < sink.headBytes := by
      rw [holds.headBytes]
      exact bytes_pos noHead
    have head : sink.head ≠ [] := by
      rw [holds.head]
      exact text_ne_nil noHead
    by_cases noMiddle : middle = []
    · have all : ¬ sink.headBytes + sink.bufferBytes < sink.totalBytes - sink.columns.droppedBytes := by
        rw [total, holds.headBytes, holds.bufferBytes, noMiddle]
        have zero : (bytes []).length = 0 := rfl
        omega
      have out : (dump runtime o sink none).output = sink.head ++ sink.buffer ∧ (dump runtime o sink none).elidedBytes = none ∧
          (dump runtime o sink none).truncated = sink.truncated := by
        rw [dump]
        dsimp only
        rw [if_pos positive, if_neg all]
        exact ⟨List.nil_append _,rfl,rfl⟩
      refine ⟨by rw [out.2.2, holds.truncated, isEmpty],?_,?_,?_⟩
      · intro _
        rw [out.1, out.2.1, holds.head, holds.buffer, noMiddle, List.append_nil, text_append]
        exact ⟨rfl,rfl⟩
      · exact fun _ none' => absurd none' head
      · intro some'
        rw [noMiddle, text_nil] at some'
        exact absurd rfl some'
    · have gone := bytes_pos noMiddle
      have less : sink.headBytes + sink.bufferBytes < sink.totalBytes - sink.columns.droppedBytes := by
        rw [total, holds.headBytes, holds.bufferBytes]
        omega
      have elided : sink.totalBytes - sink.columns.droppedBytes - sink.headBytes - sink.bufferBytes = byteLength (text middle) := by
        rw [total, holds.headBytes, holds.bufferBytes, byteLength_text]
        omega
      have out : (dump runtime o sink none).truncated = true ∧
          (dump runtime o sink none).elidedBytes = some (byteLength (text middle)) ∧
          ∃ lines, (dump runtime o sink none).elidedLines = some lines ∧
            (dump runtime o sink none).output = sink.head ++ (if endsWithLine sink.head then [] else [lineFeed]) ++
              formatMiddleElisionMarker runtime lines (byteLength (text middle)) ++
              (if startsWith sink.buffer [lineFeed] then [] else [lineFeed]) ++ sink.buffer := by
        rw [dump]
        dsimp only
        rw [if_pos positive, if_pos less, elided]
        exact ⟨rfl,rfl,_,rfl,List.nil_append _⟩
      have some' := text_ne_nil noMiddle
      refine ⟨by rw [out.1]; simpa using some',fun none' => absurd none' some',fun _ none' => absurd none' head,fun _ _ => out.2⟩

/-- Every run without cap in which the head is closed once. -/
theorem capture_faithful (runtime : Runtime) (lawful : Lawful runtime) (o : Options) (noCap : o.maxColumns = 0)
    (chunks : List JsString) (routed : RoutedOnce o.headLimit (chunks.map (sanitize runtime))) :
    Captured runtime o (chunks.foldl (push runtime o) empty) (chunks.map (sanitize runtime)).flatten := by
  have chars : ∃ pieces : List (List Char), chunks.map (sanitize runtime) = pieces.map text := by
    clear routed
    induction chunks with
    | nil => exact ⟨[],rfl⟩
    | cons chunk rest ih =>
      obtain ⟨pieces,is⟩ := ih
      obtain ⟨first,made⟩ := sanitize_wellFormed lawful chunk
      exact ⟨first :: pieces,by rw [List.map_cons, is, made, List.map_cons]⟩
  obtain ⟨pieces,is⟩ := chars
  have run : chunks.foldl (push runtime o) empty = (pieces.map text).foldl (pushSanitized o) empty := by
    rw [← is, List.foldl_map]
    rfl
  rw [is] at routed ⊢
  obtain ⟨first,middle,last,same,holds⟩ := routed_run noCap empty_holds pieces routed
  have stream : (pieces.map text).flatten = text (first ++ middle ++ last) := by
    rw [same, List.nil_append, text, List.flatten_eq_flatMap, List.flatten_eq_flatMap, List.flatMap_map, List.flatMap_assoc]
    rfl
  rw [run, stream]
  exact captured_of_holds runtime o holds

def small : Options := ⟨none,none,4,3,0⟩

/-- Three bytes of head and four of tail around an eleven byte stream that is cut inside a character. -/
theorem middle_captured : Captured plain small ([js "ab", js "cdé", js "fghi"].foldl (push plain small) empty)
    ([js "ab", js "cdé", js "fghi"].map (sanitize plain)).flatten :=
  capture_faithful plain plain_lawful small rfl [js "ab", js "cdé", js "fghi"] (by decide +kernel)

/- Everything, or a head, a marker and a tail. -/
def ClaimedSummary (runtime : Runtime) (summary : OutputSummary) (stream : JsString) : Prop :=
  summary.output = stream ∨ ∃ head elided tail headSep tailSep lines, stream = head ++ elided ++ tail ∧
    summary.elidedBytes = some (byteLength elided) ∧
    summary.output = head ++ headSep ++ formatMiddleElisionMarker runtime lines (byteLength elided) ++ tailSep ++ tail

/-- Without head the tail stands alone. -/
theorem tail_only_unmarked : ¬ ClaimedSummary plain (dump plain { small with headLimit := 0 }
    ([js "abcdef"].foldl (push plain { small with headLimit := 0 }) empty) none) (js "abcdef") := by
  have unmarked : (dump plain { small with headLimit := 0 }
      ([js "abcdef"].foldl (push plain { small with headLimit := 0 }) empty) none).elidedBytes = none := by
    decide +kernel
  rintro (whole | ⟨_,_,_,_,_,_,_,marked,_⟩)
  · exact absurd whole (by decide +kernel)
  · rw [unmarked] at marked
    contradiction

/- The head is left one byte short by a wide character, and a later chunk jumps into it. -/
example : ¬ RoutedOnce 3 [js "ab", js "éé", js "x"] ∧
    ([js "ab", js "éé", js "x"].foldl (push plain { small with spillThreshold := 9 }) empty).head = js "abx" := by
  decide +kernel

end OutputCapture
