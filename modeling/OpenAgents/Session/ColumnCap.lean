import OpenAgents.Lib.Runs
import OpenAgents.Lib.TextLines
import OpenAgents.Session.SpilledRecord

/- The cap on the bytes of a line, over chunks. Room for the ellipsis is left only within the chunk in
   which a line becomes too long. -/
namespace ColumnCap
open JsText Utf8 ByteWindows OutputSink TextLines ChunkedRuns

def start : Columns := ⟨0,false,0,0⟩

/- A line that comes in one piece. -/
def capLine (max : Nat) (line : JsString) : JsString :=
  if byteLength line ≤ max then line else (truncateHeadBytes line (max - 3)).text ++ ellipsis

def firstLine (content : JsString) : JsString := (splitLines content).headD []

/- The chunk makes the open line too long, and so much of it is there that the ellipsis has no room. -/
def Overfills (max : Nat) (line more : JsString) : Prop :=
  max < byteLength line + 3 ∧ byteLength line ≤ max ∧ max < byteLength (line ++ more)

def exceeding (max : Nat) (lines : List JsString) : Nat := (lines.filter fun line => max < byteLength line).length

instance (max : Nat) (line more : JsString) : Decidable (Overfills max line more) := inferInstanceAs (Decidable (_ ∧ _ ∧ _))

/-- Every line is within the cap, the cuts between the chunks cannot be seen, and it is counted which
    lines and how many bytes are cut. -/
structure CapHolds (max : Nat) (chunks : List JsString) : Prop where
  within : ∀ line ∈ splitLines (feedAll (applyColumnCap max) start chunks).1, byteLength line ≤ max
  seamless : (feedAll (applyColumnCap max) start chunks).1 = (applyColumnCap max start chunks.flatten).1
  lines : (feedAll (applyColumnCap max) start chunks).2.truncatedLines = exceeding max (splitLines chunks.flatten)
  dropped : byteLength chunks.flatten + 3 * (feedAll (applyColumnCap max) start chunks).2.truncatedLines =
    byteLength (feedAll (applyColumnCap max) start chunks).1 + (feedAll (applyColumnCap max) start chunks).2.droppedBytes

/-- The complete lines and the open one, and what is shown of them. As long as no chunk overfills a
    line, what is shown is what a line in one piece would show. -/
structure Capped (max : Nat) (ok : Prop) (columns : Columns) (lines outs : List JsString) (line shown : JsString) : Prop where
  wellFormed : WellFormed line
  linesClean : ∀ other ∈ lines, lineFeed ∉ other
  lineClean : lineFeed ∉ line
  outsClean : ∀ other ∈ outs, lineFeed ∉ other
  shownClean : lineFeed ∉ shown
  full : columns.ellipsisAdded = decide (max < byteLength line)
  room : byteLength line ≤ max → columns.currentLineBytes = byteLength line ∧ shown = line
  good : ok → outs = lines.map (capLine max) ∧ shown = capLine max line
  bad : ¬ ok → (∃ other ∈ outs, max < byteLength other) ∨ max < byteLength shown
  cut : columns.truncatedLines = exceeding max (lines ++ [line])
  dropped : byteLength (terminate lines ++ line) + 3 * columns.truncatedLines =
    byteLength (terminate outs ++ shown) + columns.droppedBytes

section steps
variable {max : Nat} {ok : Prop} {columns : Columns} {lines outs : List JsString} {line shown : JsString}

theorem start_capped (max : Nat) : Capped max True start [] [] [] [] := by
  have none' : byteLength [] = 0 := rfl
  refine ⟨⟨[],rfl⟩,by simp,by simp,by simp,by simp,?_,fun _ => ⟨rfl,rfl⟩,fun _ => ⟨rfl,?_⟩,fun no => absurd trivial no,?_,rfl⟩
  · simp [start, none']
  · rw [capLine, none', if_pos (Nat.zero_le max)]
  · simp [start, exceeding, none']

theorem exceeding_concat (max : Nat) (lines : List JsString) (line : JsString) :
    exceeding max (lines ++ [line]) = exceeding max lines + if max < byteLength line then 1 else 0 := by
  rw [exceeding, exceeding, List.filter_append, List.length_append, List.filter_singleton]
  by_cases tooMuch : max < byteLength line
  · rw [if_pos tooMuch, decide_eq_true tooMuch]
    rfl
  · rw [if_neg tooMuch, decide_eq_false tooMuch]
    rfl

theorem first_unit (c : Char) : ∃ u more, utf16 c = u :: more ∧ isLowSurrogate u = false := by
  have range := char_cases c
  rw [utf16_eq, units]
  split
  · rename_i small
    refine ⟨_,[],rfl,?_⟩
    rw [← Bool.not_eq_true, low_iff, unit_low small]
    omega
  · refine ⟨_,_,rfl,?_⟩
    rw [← Bool.not_eq_true, low_iff, unit_low (by omega)]
    omega

theorem byteLength_append (front : JsString) {back : JsString} (wellFormed : WellFormed back) :
    byteLength (front ++ back) = byteLength front + byteLength back := by
  obtain ⟨chars,is⟩ := wellFormed
  cases chars with
  | nil => rw [is, text_nil, List.append_nil]; rfl
  | cons c rest =>
    obtain ⟨u,more,first,notLow⟩ := first_unit c
    rw [is, text_cons, first, List.cons_append, byteLength, encode, points_append notLow, List.flatMap_append, List.length_append]
    rfl

theorem cut_bytes (front : JsString) (kept : List Char) :
    byteLength (front ++ (text kept ++ ellipsis)) = byteLength front + (bytes kept).length + 3 := by
  rw [SpilledRecord.ellipsis_text, ← text_append, byteLength_append front ⟨_,rfl⟩, byteLength_text, bytes_append, List.length_append,
    Nat.add_assoc]
  rfl

theorem Capped.under {ok' : Prop} (same : ok' ↔ ok) (capped : Capped max ok columns lines outs line shown) :
    Capped max ok' columns lines outs line shown := propext same ▸ capped

theorem overfills_not {more : JsString} (few : max < byteLength line ∨ byteLength (line ++ more) ≤ max) : ¬ Overfills max line more := by
  rintro ⟨_,short,long⟩
  omega

/-- Room is left as long as the ellipsis has room. -/
theorem capLine_append {cs ds : List Char} (short : byteLength (text cs) + 3 ≤ max) (long : max < byteLength (text cs ++ text ds)) :
    capLine max (text cs ++ text ds) = text cs ++ text (fits (max - byteLength (text cs) - 3) ds) ++ ellipsis := by
  have room : max - byteLength (text cs) - 3 = max - 3 - (bytes cs).length := by
    rw [byteLength_text]
    omega
  rw [byteLength_text] at short
  rw [capLine, if_neg (Nat.not_le_of_lt long), ← text_append, truncate_fits, fits_append, if_pos (by omega), text_append, room]

theorem capLine_full {cs ds : List Char} (tooMuch : max < byteLength (text cs)) :
    capLine max (text cs ++ text ds) = capLine max (text cs) := by
  have more := byteLength_append (text cs) ⟨ds,rfl⟩
  have tooMuch' := tooMuch
  rw [byteLength_text] at tooMuch'
  rw [capLine, capLine, if_neg (by omega), if_neg (by omega), ← text_append, truncate_fits, truncate_fits, fits_append,
    if_neg (by omega)]

section segment
variable {segment : JsString} (capped : Capped max ok columns lines outs line shown) (clean : lineFeed ∉ segment)
  (some' : segment ≠ [])
include capped clean

theorem open_clean : lineFeed ∉ line ++ segment := by
  rw [List.mem_append]
  exact fun either => either.elim capped.lineClean clean

include some'

/-- Past the cap nothing of a stretch is kept. -/
theorem segment_past (wellFormed : WellFormed segment) (tooMuch : max < byteLength line) :
    Capped max ok (capSegment max columns segment).2 lines outs (line ++ segment) (shown ++ (capSegment max columns segment).1) := by
  have total := byteLength_append line wellFormed
  have whole : byteLength (terminate lines ++ (line ++ segment)) = byteLength (terminate lines ++ line) + byteLength segment := by
    rw [← List.append_assoc, byteLength_append _ wellFormed]
  obtain ⟨cs,isLine⟩ := capped.wellFormed
  obtain ⟨ds,isSegment⟩ := wellFormed
  have full := capped.full
  rw [decide_eq_true tooMuch] at full
  rw [capSegment, if_neg (mt List.isEmpty_iff.mp some'), full, if_pos rfl, List.append_nil]
  refine ⟨⟨cs ++ ds,by rw [isLine, isSegment, text_append]⟩,capped.linesClean,open_clean capped clean,capped.outsClean,
    capped.shownClean,?_,fun short => absurd short (by omega),?_,capped.bad,?_,?_⟩
  · rw [decide_eq_true (by omega)]
  · intro holds
    obtain ⟨same,last⟩ := capped.good holds
    refine ⟨same,?_⟩
    rw [isLine] at last tooMuch
    rw [last, isLine, isSegment, capLine_full tooMuch]
  · have cut := capped.cut
    rw [exceeding_concat, if_pos tooMuch] at cut
    rw [exceeding_concat, if_pos (by omega)]
    exact cut
  · have dropped := capped.dropped
    dsimp only
    omega

/-- A stretch that fits is kept whole. -/
theorem segment_fits (wellFormed : WellFormed segment) (few : ¬ max < byteLength line)
    (small : byteLength segment ≤ max - byteLength line) :
    Capped max ok (capSegment max columns segment).2 lines outs (line ++ segment) (shown ++ (capSegment max columns segment).1) := by
  have total := byteLength_append line wellFormed
  have whole : byteLength (terminate lines ++ (line ++ segment)) = byteLength (terminate lines ++ line) + byteLength segment := by
    rw [← List.append_assoc, byteLength_append _ wellFormed]
  have wholeOut : byteLength (terminate outs ++ (line ++ segment)) = byteLength (terminate outs ++ line) + byteLength segment := by
    rw [← List.append_assoc, byteLength_append _ wellFormed]
  have long : ¬ max < byteLength (line ++ segment) := by omega
  have room := capped.room (Nat.le_of_not_lt few)
  obtain ⟨cs,isLine⟩ := capped.wellFormed
  obtain ⟨ds,isSegment⟩ := wellFormed
  have full := capped.full
  rw [decide_eq_false few] at full
  rw [capSegment, if_neg (mt List.isEmpty_iff.mp some'), full, if_neg Bool.false_ne_true, room.1]
  dsimp only
  rw [if_pos small, room.2]
  refine ⟨⟨cs ++ ds,by rw [isLine, isSegment, text_append]⟩,capped.linesClean,open_clean capped clean,capped.outsClean,
    open_clean capped clean,?_,fun _ => ⟨total.symm,rfl⟩,?_,?_,?_,?_⟩
  · rw [decide_eq_false long]
  · intro holds
    rw [capLine, if_pos (Nat.le_of_not_lt long)]
    exact ⟨(capped.good holds).1,rfl⟩
  · intro fails
    rcases capped.bad fails with earlier | here
    · exact .inl earlier
    · rw [room.2] at here
      exact absurd here few
  · have cut := capped.cut
    rw [exceeding_concat, if_neg few] at cut
    rw [exceeding_concat, if_neg long]
    exact cut
  · have dropped := capped.dropped
    rw [room.2] at dropped
    dsimp only
    omega

/-- A stretch that crosses the cap is cut, and the ellipsis put behind it. -/
theorem segment_cut (wellFormed : WellFormed segment) (few : ¬ max < byteLength line)
    (large : ¬ byteLength segment ≤ max - byteLength line) :
    Capped max (ok ∧ ¬ Overfills max line segment) (capSegment max columns segment).2 lines outs (line ++ segment)
      (shown ++ (capSegment max columns segment).1) := by
  have total := byteLength_append line wellFormed
  have whole : byteLength (terminate lines ++ (line ++ segment)) = byteLength (terminate lines ++ line) + byteLength segment := by
    rw [← List.append_assoc, byteLength_append _ wellFormed]
  have long : max < byteLength (line ++ segment) := by omega
  have room := capped.room (Nat.le_of_not_lt few)
  have open' := open_clean capped clean
  obtain ⟨cs,isLine⟩ := capped.wellFormed
  obtain ⟨ds,isSegment⟩ := wellFormed
  have full := capped.full
  rw [decide_eq_false few] at full
  rw [capSegment, if_neg (mt List.isEmpty_iff.mp some'), full, if_neg Bool.false_ne_true, room.1]
  dsimp only
  -- What fits before the ellipsis.
  have kept : (if 0 < max - byteLength line - 3 then truncateHeadBytes segment (max - byteLength line - 3) else ⟨[],0⟩) =
      ⟨text (fits (max - byteLength line - 3) ds),(bytes (fits (max - byteLength line - 3) ds)).length⟩ := by
    by_cases positive : 0 < max - byteLength line - 3
    · rw [if_pos positive, isSegment, truncate_fits]
    · have zero : max - byteLength line - 3 = 0 := by omega
      rw [if_neg positive, zero]
      cases ds with
      | nil => rfl
      | cons d rest =>
        rw [fits_narrow (size_pos d)]
        rfl
  have part := fits_begins (max - byteLength line - 3) ds
  have partClean : lineFeed ∉ text (fits (max - byteLength line - 3) ds) := by
    obtain ⟨rest,is⟩ := part
    rw [isSegment, ← is, text_append, List.mem_append, not_or] at clean
    exact clean.1
  rw [if_neg large, kept, room.2]
  dsimp only
  refine ⟨⟨cs ++ ds,by rw [isLine, isSegment, text_append]⟩,capped.linesClean,open',capped.outsClean,?_,?_,
    fun short => absurd short (Nat.not_le_of_lt long),?_,?_,?_,?_⟩
  · have dots : lineFeed ∉ ellipsis := by decide
    simp [capped.lineClean, partClean, dots]
  · rw [decide_eq_true long]
  · rintro ⟨holds,roomy⟩
    have short : byteLength line + 3 ≤ max := by
      by_contra tight
      exact roomy ⟨by omega,Nat.le_of_not_lt few,long⟩
    rw [isLine] at short
    rw [isLine, isSegment] at long
    rw [isLine, isSegment, capLine_append short long, List.append_assoc]
    exact ⟨(capped.good holds).1,rfl⟩
  · intro fails
    rw [cut_bytes]
    by_cases holds : ok
    · have tight : Overfills max line segment := by
        by_contra roomy
        exact fails ⟨holds,roomy⟩
      have tight' := tight.1
      exact .inr (by omega)
    · rcases capped.bad holds with earlier | here
      · exact .inl earlier
      · rw [room.2] at here
        exact absurd here few
  · have cut := capped.cut
    rw [exceeding_concat, if_neg few] at cut
    rw [exceeding_concat, if_pos long, cut]
  · have dropped := capped.dropped
    rw [room.2] at dropped
    have less : (bytes (fits (max - byteLength line - 3) ds)).length ≤ byteLength segment := by
      obtain ⟨rest,is⟩ := part
      rw [isSegment, byteLength_text]
      conv => rhs; rw [← is, bytes_append, List.length_append]
      exact Nat.le_add_right _ _
    rw [whole, ← List.append_assoc, cut_bytes]
    dsimp only
    omega

end segment

/-- A stretch of the open line. -/
theorem segment_capped (capped : Capped max ok columns lines outs line shown) {segment : JsString} (wellFormed : WellFormed segment)
    (clean : lineFeed ∉ segment) :
    Capped max (ok ∧ ¬ Overfills max line segment) (capSegment max columns segment).2 lines outs (line ++ segment)
      (shown ++ (capSegment max columns segment).1) := by
  have total := byteLength_append line wellFormed
  have sure : (max < byteLength line ∨ byteLength (line ++ segment) ≤ max) → (ok ∧ ¬ Overfills max line segment ↔ ok) := fun few =>
    ⟨And.left,fun holds => ⟨holds,overfills_not few⟩⟩
  by_cases nothing : segment = []
  · subst nothing
    rw [List.append_nil] at total sure ⊢
    rw [capSegment, List.isEmpty_nil, if_pos rfl, List.append_nil]
    exact capped.under (sure (by omega))
  · by_cases tooMuch : max < byteLength line
    · exact (segment_past capped clean nothing wellFormed tooMuch).under (sure (.inl tooMuch))
    · by_cases small : byteLength segment ≤ max - byteLength line
      · exact (segment_fits capped clean nothing wellFormed tooMuch small).under (sure (.inr (by omega)))
      · exact segment_cut capped clean nothing wellFormed tooMuch small

theorem newline_capped (capped : Capped max ok columns lines outs line shown) :
    Capped max ok (nextLine columns) (lines ++ [line]) (outs ++ [shown]) [] [] := by
  have none' : byteLength [] = 0 := rfl
  have feed : ∀ front : JsString, byteLength (front ++ [lineFeed]) = byteLength front + 1 := fun front => byteLength_lineFeed front []
  have ended : ∀ (lines : List JsString) (line : JsString), terminate (lines ++ [line]) ++ [] = terminate lines ++ line ++ [lineFeed] := by
    intro lines line
    simp [terminate]
  refine ⟨⟨[],rfl⟩,?_,List.not_mem_nil,?_,List.not_mem_nil,?_,fun _ => ⟨rfl,rfl⟩,?_,?_,?_,?_⟩
  · intro other mem
    rcases List.mem_append.mp mem with earlier | here
    · exact capped.linesClean other earlier
    · rw [List.mem_singleton.mp here]
      exact capped.lineClean
  · intro other mem
    rcases List.mem_append.mp mem with earlier | here
    · exact capped.outsClean other earlier
    · rw [List.mem_singleton.mp here]
      exact capped.shownClean
  · simp [nextLine, none']
  · intro holds
    obtain ⟨same,last⟩ := capped.good holds
    rw [same, last, List.map_append, List.map_singleton, capLine, capLine, none', if_pos (Nat.zero_le max)]
    exact ⟨rfl,rfl⟩
  · intro fails
    rcases capped.bad fails with ⟨other,mem,tooMuch⟩ | here
    · exact .inl ⟨other,List.mem_append_left _ mem,tooMuch⟩
    · exact .inl ⟨shown,List.mem_append_right _ List.mem_cons_self,here⟩
  · rw [exceeding_concat, none', if_neg (Nat.not_lt_zero max)]
    exact capped.cut
  · have dropped := capped.dropped
    rw [ended, ended, feed, feed, nextLine]
    dsimp only
    omega

/-- The stretches of a chunk: only the first can overfill a line. -/
theorem segments_capped (wide : 3 ≤ max) (rest : List JsString) (capped : Capped max ok columns lines outs line shown) {first : JsString}
    (wellFormed : ∀ segment ∈ first :: rest, WellFormed segment) (clean : ∀ segment ∈ first :: rest, lineFeed ∉ segment) :
    ∃ lines' outs' line' shown', lines' ++ [line'] = lines ++ (line ++ first) :: rest ∧
      terminate outs' ++ shown' = terminate outs ++ shown ++ (capSegments max columns (first :: rest)).1 ∧
      Capped max (ok ∧ ¬ Overfills max line first) (capSegments max columns (first :: rest)).2 lines' outs' line' shown' := by
  induction rest generalizing ok columns lines outs line shown first with
  | nil =>
    have here := segment_capped capped (wellFormed first List.mem_cons_self) (clean first List.mem_cons_self)
    exact ⟨lines,outs,line ++ first,shown ++ (capSegment max columns first).1,rfl,(List.append_assoc _ _ _).symm,here⟩
  | cons second rest ih =>
    obtain ⟨wellFormed',later⟩ := List.forall_mem_cons.mp wellFormed
    obtain ⟨clean',laterClean⟩ := List.forall_mem_cons.mp clean
    have ended := newline_capped (segment_capped capped wellFormed' clean')
    obtain ⟨lines',outs',line',shown',all,output,capped'⟩ := ih ended later laterClean
    have never : ¬ Overfills max [] second := by
      rintro ⟨tight,_⟩
      have none' : byteLength [] = 0 := rfl
      omega
    refine ⟨lines',outs',line',shown',by rw [all, List.append_assoc]; rfl,?_,capped'.under ⟨fun holds => ⟨holds,never⟩,And.left⟩⟩
    have unfolded : (capSegments max columns (first :: second :: rest)).1 = (capSegment max columns first).1 ++
        lineFeed :: (capSegments max (nextLine (capSegment max columns first).2) (second :: rest)).1 := rfl
    rw [output, unfolded]
    simp [terminate]

theorem lastLine_open (clean : ∀ other ∈ lines, lineFeed ∉ other) (clean' : lineFeed ∉ line) :
    splitLines (terminate lines ++ line) = lines ++ [line] ∧ lastLine (terminate lines ++ line) = line := by
  have split : splitLines (terminate lines ++ line) = lines ++ [line] := by
    rw [split_terminated clean, splitLines, List.splitOn_eq_singleton clean']
  refine ⟨split,?_⟩
  rw [lastLine, split, List.getLastD_concat]

/-- One chunk. -/
theorem chunk_capped (wide : 3 ≤ max) (capped : Capped max ok columns lines outs line shown) {chunk : JsString}
    (wellFormed : WellFormed chunk) :
    ∃ lines' outs' line' shown', terminate lines' ++ line' = terminate lines ++ line ++ chunk ∧
      terminate outs' ++ shown' = terminate outs ++ shown ++ (applyColumnCap max columns chunk).1 ∧
      Capped max (ok ∧ ¬ Overfills max line (firstLine chunk)) (applyColumnCap max columns chunk).2 lines' outs' line' shown' := by
  obtain ⟨chars,is⟩ := wellFormed
  obtain ⟨first,rest,parts⟩ := SpilledRecord.lines_text chars
  rw [← is] at parts
  have clean := split_clean chunk
  have whole := join_split chunk
  rw [applyColumnCap, firstLine, parts, List.headD_cons]
  rw [parts] at clean whole
  obtain ⟨lines',outs',line',shown',all,output,capped'⟩ := segments_capped wide (rest.map text) capped (by
    intro segment mem
    rcases List.mem_cons.mp mem with here | later
    · exact ⟨first,here⟩
    · obtain ⟨own,_,same⟩ := List.mem_map.mp later
      exact ⟨own,same.symm⟩) clean
  refine ⟨lines',outs',line',shown',?_,output,capped'⟩
  have joined := congrArg joinLines all
  rw [join_append _ (List.cons_ne_nil _ _), join_single, join_append _ (List.cons_ne_nil _ _), join_cons, List.append_assoc line,
    ← join_cons, whole, ← List.append_assoc] at joined
  exact joined

/-- All chunks. -/
theorem run_capped (wide : 3 ≤ max) {chunks : List JsString} (capped : Capped max ok columns lines outs line shown)
    (wellFormed : ∀ chunk ∈ chunks, WellFormed chunk) :
    ∃ lines' outs' line' shown', terminate lines' ++ line' = terminate lines ++ line ++ chunks.flatten ∧
      terminate outs' ++ shown' = terminate outs ++ shown ++ (feedAll (applyColumnCap max) columns chunks).1 ∧
      Capped max (ok ∧ ∀ front chunk back, chunks = front ++ chunk :: back →
          ¬ Overfills max (lastLine (terminate lines ++ line ++ front.flatten)) (firstLine chunk))
        (feedAll (applyColumnCap max) columns chunks).2 lines' outs' line' shown' := by
  induction chunks generalizing ok columns lines outs line shown with
  | nil =>
    refine ⟨lines,outs,line,shown,by simp,by simp [feedAll],capped.under ⟨And.left,fun holds => ⟨holds,?_⟩⟩⟩
    intro front chunk back none'
    simp at none'
  | cons chunk rest ih =>
    obtain ⟨wellFormed',later⟩ := List.forall_mem_cons.mp wellFormed
    have last := (lastLine_open capped.linesClean capped.lineClean).2
    obtain ⟨lines',outs',line',shown',all,output,capped'⟩ := chunk_capped wide capped wellFormed'
    obtain ⟨lines'',outs'',line'',shown'',all',output',capped''⟩ := ih capped' later
    refine ⟨lines'',outs'',line'',shown'',?_,?_,capped''.under ?_⟩
    · rw [all', all, List.flatten_cons, List.append_assoc]
    · rw [output', output, feedAll, List.append_assoc]
    · rw [all]
      constructor
      · rintro ⟨holds,every⟩
        have here := every [] chunk rest rfl
        rw [List.flatten_nil, List.append_nil, last] at here
        refine ⟨⟨holds,here⟩,fun front other back is => ?_⟩
        have next := every (chunk :: front) other back (by rw [is]; rfl)
        rwa [List.flatten_cons, ← List.append_assoc] at next
      · rintro ⟨⟨holds,here⟩,every⟩
        refine ⟨holds,fun front other back is => ?_⟩
        cases front with
        | nil =>
          obtain ⟨same,_⟩ := List.cons.inj is
          rw [List.flatten_nil, List.append_nil, last, ← same]
          exact here
        | cons first front =>
          obtain ⟨same,more⟩ := List.cons.inj is
          rw [List.flatten_cons, ← same, ← List.append_assoc]
          exact every front other back more

end steps

section streams
variable {max : Nat} {chunks : List JsString}

theorem flatten_wellFormed (wellFormed : ∀ chunk ∈ chunks, WellFormed chunk) : WellFormed chunks.flatten := by
  induction chunks with
  | nil => exact ⟨[],rfl⟩
  | cons chunk rest ih =>
    obtain ⟨here,later⟩ := List.forall_mem_cons.mp wellFormed
    exact here.append (ih later)

/- No chunk of these overfills a line. -/
def Roomy (max : Nat) (chunks : List JsString) : Prop :=
  ∀ front chunk back, chunks = front ++ chunk :: back → ¬ Overfills max (lastLine front.flatten) (firstLine chunk)

theorem stream_capped (wide : 3 ≤ max) (wellFormed : ∀ chunk ∈ chunks, WellFormed chunk) :
    ∃ lines outs line shown, splitLines chunks.flatten = lines ++ [line] ∧ terminate lines ++ line = chunks.flatten ∧
      terminate outs ++ shown = (feedAll (applyColumnCap max) start chunks).1 ∧
      splitLines (feedAll (applyColumnCap max) start chunks).1 = outs ++ [shown] ∧
      Capped max (Roomy max chunks) (feedAll (applyColumnCap max) start chunks).2 lines outs line shown := by
  obtain ⟨lines,outs,line,shown,all,output,capped⟩ := run_capped wide (start_capped max) wellFormed
  have nothing : terminate [] ++ ([] : JsString) = [] := rfl
  rw [nothing, List.nil_append] at all output
  refine ⟨lines,outs,line,shown,?_,all,output,?_,capped.under ?_⟩
  · rw [← all]
    exact (lastLine_open capped.linesClean capped.lineClean).1
  · rw [← output]
    exact (lastLine_open capped.outsClean capped.shownClean).1
  · constructor
    · intro roomy
      exact ⟨trivial,fun front chunk back is => by rw [nothing, List.nil_append]; exact roomy front chunk back is⟩
    · intro ⟨_,roomy⟩ front chunk back is
      have here := roomy front chunk back is
      rwa [nothing, List.nil_append] at here

/-- Where no chunk overfills a line, each line shows what it would in one piece. -/
theorem stream_lines (wide : 3 ≤ max) (wellFormed : ∀ chunk ∈ chunks, WellFormed chunk) (roomy : Roomy max chunks) :
    splitLines (feedAll (applyColumnCap max) start chunks).1 = (splitLines chunks.flatten).map (capLine max) := by
  obtain ⟨lines,outs,line,shown,split,_,_,split',capped⟩ := stream_capped wide wellFormed
  obtain ⟨same,last⟩ := capped.good roomy
  rw [split, split', same, last, List.map_append, List.map_singleton]

theorem whole_roomy (wide : 3 ≤ max) (content : JsString) : Roomy max [content] := by
  intro front chunk back is
  have none' : front = [] := by
    cases front with
    | nil => rfl
    | cons first front =>
      have count := congrArg List.length is
      simp at count
  rw [none']
  rintro ⟨tight,_⟩
  have zero : byteLength (lastLine [].flatten) = 0 := rfl
  omega

theorem capLine_within (wide : 3 ≤ max) (chars : List Char) : byteLength (capLine max (text chars)) ≤ max := by
  rw [capLine]
  split
  · assumption
  · have few := fits_bytes (max - 3) chars
    rw [truncate_fits, ← List.nil_append (text _ ++ _), cut_bytes]
    have none' : byteLength [] = 0 := rfl
    omega

/-- The cap holds exactly when no chunk makes a line too long of which so much has come before that
    there is no room for the ellipsis. -/
theorem cap_holds_iff (wide : 3 ≤ max) (wellFormed : ∀ chunk ∈ chunks, WellFormed chunk) : CapHolds max chunks ↔ Roomy max chunks := by
  obtain ⟨lines,outs,line,shown,split,all,output,split',capped⟩ := stream_capped wide wellFormed
  constructor
  · intro holds
    by_contra tight
    have within := holds.within
    rw [split'] at within
    rcases capped.bad tight with ⟨other,mem,tooMuch⟩ | here
    · exact absurd (within other (List.mem_append_left _ mem)) (Nat.not_le_of_lt tooMuch)
    · exact absurd (within shown (List.mem_append_right _ List.mem_cons_self)) (Nat.not_le_of_lt here)
  · intro roomy
    have shows := stream_lines wide wellFormed roomy
    obtain ⟨chars,is⟩ := flatten_wellFormed wellFormed
    refine ⟨?_,?_,by rw [split]; exact capped.cut,by rw [← all, ← output]; exact capped.dropped⟩
    · intro shown' mem
      obtain ⟨first,rest,parts⟩ := SpilledRecord.lines_text chars
      rw [shows, is, parts, ← List.map_cons, List.map_map] at mem
      obtain ⟨own,_,same⟩ := List.mem_map.mp mem
      rw [← same]
      exact capLine_within wide own
    · have one := @stream_lines max [chunks.flatten] wide (by
        intro chunk mem
        rw [List.mem_singleton.mp mem]
        exact ⟨chars,is⟩) (whole_roomy wide _)
      rw [List.flatten_singleton, ← shows] at one
      have joined := congrArg joinLines one
      rw [join_split, join_split] at joined
      simp only [feedAll, List.append_nil] at joined
      exact joined.symm

/-- Two chunks of one line that stay within the cap. -/
theorem cap_holds_roomy : CapHolds 8 [js "ab", js "cdefghij\nk"] :=
  (cap_holds_iff (by decide) (by
    intro chunk mem
    rcases List.mem_cons.mp mem with here | later
    · exact ⟨"ab".toList,here⟩
    · exact ⟨"cdefghij\nk".toList,List.mem_singleton.mp later⟩)).mpr (by
    intro front chunk back is
    match front, is with
    | [], is =>
      rw [← (List.cons.inj is).1]
      decide +kernel
    | [first], is =>
      rw [← (List.cons.inj is).1, ← (List.cons.inj (List.cons.inj is).2).1]
      decide +kernel
    | first :: second :: front, is =>
      have count := congrArg List.length is
      simp at count)

/-- A line that is full at the end of a chunk. -/
theorem full_line_continues : ¬ CapHolds 8 [js "abcdefgh", js "i"] := by
  intro holds
  exact absurd holds.within (by decide +kernel)

end streams

end ColumnCap
