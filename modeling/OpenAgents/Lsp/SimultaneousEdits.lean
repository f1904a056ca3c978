import OpenAgents.Lsp.TextEdits

/- The edits applied to the lines from last to first, and the edits of the flat text applied all
   at once: they agree but for the order of insertions at one place. -/
namespace SimultaneousEdits
open JsText TextLines LineSplice TextEdits

theorem splice_join {lines : List JsString} {edit : TextEdit} {text : JsString} (start : Inside lines edit.range.start)
    (stop : Inside lines edit.range.stop) (result : List JsString)
    (is : result = lines.take edit.range.start.line ++ splitLines text ++ lines.drop (edit.range.stop.line + 1) ∨
      result = lines.take edit.range.start.line ++ [text] ++ lines.drop (edit.range.stop.line + 1))
    (made : text = (lineAt lines edit.range.start.line).take edit.range.start.character ++ edit.newText ++
      (lineAt lines edit.range.stop.line).drop edit.range.stop.character) :
    joinLines result = FlatEdits.applyEdit (joinLines lines) (flat lines edit) := by
  have block : joinLines result = terminate (lines.take edit.range.start.line) ++ text ++
      precede (lines.drop (edit.range.stop.line + 1)) := by
    rcases is with several | single
    · have some' : splitLines text ≠ [] := List.splitOn_ne_nil lineFeed text
      rw [several, join_block _ some', join_split]
    · rw [single, join_block _ (List.cons_ne_nil text []), join_cons]
      simp [precede]
  rw [block, made, FlatEdits.applyEdit, flat, (join_at start).1, (join_at stop).2]
  simp only [List.append_assoc]

theorem flat_agree {document lines : List JsString} {edit : TextEdit} (start : Agree document lines edit.range.start)
    (stop : Agree document lines edit.range.stop) : flat document edit = flat lines edit := by
  rw [flat, flat, agree_offset start, agree_offset stop]

/-- One edit on the lines is one edit on the text, and leaves the text before it alone. -/
theorem applyEdit_flat {content : JsString} {lines : List JsString} {edit : TextEdit}
    (valid : Valid (splitLines content) edit) (stop : Agree (splitLines content) lines edit.range.stop) :
    joinLines (applyEdit lines edit) = FlatEdits.applyEdit (joinLines lines) (flat (splitLines content) edit) ∧
      Agree (splitLines content) (applyEdit lines edit) edit.range.start := by
  have start := agree_before stop valid.start valid.order
  have clean : lineFeed ∉ (lineAt lines edit.range.start.line).take edit.range.start.character := by
    rw [start.front]
    intro mem
    have line := List.mem_of_getElem? (lineAt_eq valid.start.line)
    exact split_clean content _ line (List.mem_of_mem_take mem)
  have length : ((lineAt lines edit.range.start.line).take edit.range.start.character).length = edit.range.start.character := by
    have room := start.inside.character
    rw [List.length_take]
    omega
  have behind : (lines.take edit.range.start.line).length = edit.range.start.line := by
    have room := start.inside.line
    rw [List.length_take]
    omega
  rw [flat_agree start stop, applyEdit]
  split
  · rename_i same
    have set : setLine lines edit.range.start.line
        ((lineAt lines edit.range.start.line).take edit.range.start.character ++ edit.newText ++
          (lineAt lines edit.range.start.line).drop edit.range.stop.character) =
        lines.take edit.range.start.line ++ [(lineAt lines edit.range.start.line).take edit.range.start.character ++
          edit.newText ++ (lineAt lines edit.range.stop.line).drop edit.range.stop.character] ++
          lines.drop (edit.range.stop.line + 1) := by
      rw [setLine, if_pos start.inside.line, List.set_eq_take_append_cons_drop, if_pos start.inside.line, same]
      simp
    rw [set]
    constructor
    · exact splice_join start.inside stop.inside _ (.inr rfl) rfl
    · have line : lineAt (lines.take edit.range.start.line ++
          [(lineAt lines edit.range.start.line).take edit.range.start.character ++ edit.newText ++
            (lineAt lines edit.range.stop.line).drop edit.range.stop.character] ++
          lines.drop (edit.range.stop.line + 1)) edit.range.start.line =
          (lineAt lines edit.range.start.line).take edit.range.start.character ++ edit.newText ++
            (lineAt lines edit.range.stop.line).drop edit.range.stop.character := by
        rw [lineAt, List.getD_eq_getElem?_getD, List.append_assoc, List.getElem?_append_right (Nat.le_of_eq behind), behind]
        simp
      refine ⟨?_,⟨?_,?_⟩,?_⟩
      · rw [List.append_assoc, List.take_append_of_le_length (Nat.le_of_eq behind.symm), List.take_take, Nat.min_self]
        exact start.before
      · rw [List.length_append, List.length_append, behind, List.length_singleton]
        omega
      · rw [line, List.length_append, List.length_append, length]
        omega
      · rw [line, List.append_assoc, List.take_append_of_le_length (Nat.le_of_eq length.symm), List.take_take, Nat.min_self]
        exact start.front
  · rename_i other
    have order := compare_le_iff.mp valid.order
    have removed : edit.range.start.line + (edit.range.stop.line + 1 - edit.range.start.line) = edit.range.stop.line + 1 := by
      omega
    rw [splice, removed]
    constructor
    · exact splice_join start.inside stop.inside _ (.inl rfl) rfl
    · obtain ⟨first,others,rows⟩ := split_clean_append clean (edit.newText ++
        (lineAt lines edit.range.stop.line).drop edit.range.stop.character)
      rw [← List.append_assoc] at rows
      have line : lineAt (lines.take edit.range.start.line ++ ((lineAt lines edit.range.start.line).take
          edit.range.start.character ++ first) :: others ++ lines.drop (edit.range.stop.line + 1)) edit.range.start.line =
          (lineAt lines edit.range.start.line).take edit.range.start.character ++ first := by
        rw [lineAt, List.getD_eq_getElem?_getD, List.append_assoc, List.getElem?_append_right (Nat.le_of_eq behind), behind]
        simp
      rw [rows]
      refine ⟨?_,⟨?_,?_⟩,?_⟩
      · rw [List.append_assoc, List.take_append_of_le_length (Nat.le_of_eq behind.symm), List.take_take, Nat.min_self]
        exact start.before
      · rw [List.length_append, List.length_append, behind, List.length_cons]
        omega
      · rw [line, List.length_append, length]
        omega
      · rw [line, List.take_append_of_le_length (Nat.le_of_eq length.symm), List.take_take, Nat.min_self]
        exact start.front

/- An edit and one that stands at or after its end, in the order of the sorted list. -/
def Later (later earlier : TextEdit) : Prop := comparePosition earlier.range.stop later.range.start ≤ 0

theorem edits_flat {content : JsString} {edits : List TextEdit} {lines : List JsString}
    (valid : ∀ edit ∈ edits, Valid (splitLines content) edit) (order : edits.Pairwise Later)
    (agree : ∀ edit ∈ edits, Agree (splitLines content) lines edit.range.stop) :
    joinLines (edits.foldl applyEdit lines) =
      (edits.map (flat (splitLines content))).foldl FlatEdits.applyEdit (joinLines lines) := by
  induction edits generalizing lines with
  | nil => rfl
  | cons edit rest ih =>
    rw [List.forall_mem_cons] at valid agree
    rw [List.pairwise_cons] at order
    obtain ⟨text,after⟩ := applyEdit_flat valid.1 agree.1
    rw [List.foldl_cons, List.map_cons, List.foldl_cons, ← text]
    apply ih valid.2 order.2
    intro earlier mem
    exact agree_before after (valid.2 earlier mem).stop (order.1 earlier mem)

/-- No conflict is found exactly when each edit stands behind the next one. -/
theorem conflict_none_iff {edits : List TextEdit} : findConflict edits = none ↔ edits.IsChain Later := by
  induction edits with
  | nil => simp [findConflict]
  | cons later rest ih =>
    cases rest with
    | nil => simp [findConflict]
    | cons earlier rest =>
      rw [findConflict, List.isChain_cons_cons, ← ih, Later]
      split
      · rename_i conflict
        simp only [reduceCtorEq, false_iff, not_and]
        intro le
        omega
      · rename_i fine
        simp only [iff_and_self]
        intro _
        omega

theorem compare_trans {a b c : Position} (one : comparePosition a b ≤ 0) (two : comparePosition b c ≤ 0) :
    comparePosition a c ≤ 0 := by
  rw [compare_le_iff] at one two ⊢
  omega

theorem chain_pairwise {edits : List TextEdit} (ordered : ∀ edit ∈ edits, comparePosition edit.range.start edit.range.stop ≤ 0)
    (chain : edits.IsChain Later) : edits.Pairwise Later := by
  induction edits with
  | nil => exact List.Pairwise.nil
  | cons edit rest ih =>
    rw [List.forall_mem_cons] at ordered
    rw [List.pairwise_cons]
    have others := ih ordered.2 chain.of_cons
    refine ⟨?_,others⟩
    cases rest with
    | nil => simp
    | cons next rest =>
      rw [List.isChain_cons_cons] at chain
      rw [List.pairwise_cons] at others
      rw [List.forall_mem_cons]
      refine ⟨chain.1,?_⟩
      intro earlier mem
      have first : comparePosition next.range.start edit.range.start ≤ 0 :=
        compare_trans (List.forall_mem_cons.mp ordered.2).1 chain.1
      exact compare_trans (others.1 earlier mem) first

/- What two edits in the order of the list must not do. -/
def Apart (a b : TextEdit) : Prop := rangesOverlap a.range b.range = false

/- `a` does not insert where `b` replaces. -/
def NoInsertBefore (a b : TextEdit) : Prop :=
  a.range.start = a.range.stop → b.range.start = a.range.start → b.range.stop = b.range.start

def Separate (a b : TextEdit) : Prop := Apart a b ∧ NoInsertBefore a b

theorem apart_iff {a b : TextEdit} : Apart a b ↔
    ¬ (comparePosition a.range.start b.range.stop < 0 ∧ comparePosition b.range.start a.range.stop < 0) := by
  rw [Apart, rangesOverlap, Bool.and_eq_false_iff, decide_eq_false_iff_not, decide_eq_false_iff_not, not_and_or]

theorem position_ext {p q : Position} : p = q ↔ p.line = q.line ∧ p.character = q.character := by
  cases p
  cases q
  rw [Position.mk.injEq]

/- `a` stays before `b` in the sorted list. -/
theorem later_iff_first {a b : TextEdit} (first : comparePosition a.range.start a.range.stop ≤ 0)
    (second : comparePosition b.range.start b.range.stop ≤ 0) (stays : compareEdits a b ≤ 0) : Later a b ↔ Separate a b := by
  rw [compareEdits_le_iff] at stays
  rw [Later, Separate, apart_iff, NoInsertBefore]
  simp only [compare_le_iff, compare_lt_iff, position_ext] at *
  constructor <;> intro holds <;> omega

/- `b` comes before `a` in the sorted list. -/
theorem later_iff_second {a b : TextEdit} (_first : comparePosition a.range.start a.range.stop ≤ 0)
    (second : comparePosition b.range.start b.range.stop ≤ 0) (passes : ¬ compareEdits a b ≤ 0) : Later b a ↔ Separate a b := by
  rw [compareEdits_le_iff] at passes
  rw [Later, Separate, apart_iff, NoInsertBefore]
  simp only [compare_le_iff, compare_lt_iff, position_ext] at *
  constructor <;> intro holds <;> omega

theorem insert_pairwise_iff {edit : TextEdit} {sorted : List TextEdit}
    (own : comparePosition edit.range.start edit.range.stop ≤ 0)
    (ordered : ∀ other ∈ sorted, comparePosition other.range.start other.range.stop ≤ 0)
    (sound : sorted.Pairwise fun a b => compareEdits a b ≤ 0) :
    (sorted.orderedInsert (fun a b => compareEdits a b ≤ 0) edit).Pairwise Later ↔
      (∀ other ∈ sorted, Separate edit other) ∧ sorted.Pairwise Later := by
  induction sorted with
  | nil => simp
  | cons other rest ih =>
    rw [List.forall_mem_cons] at ordered
    rw [List.pairwise_cons] at sound
    rw [List.orderedInsert_cons]
    split
    · rename_i stays
      rw [List.pairwise_cons]
      apply and_congr_left
      intro _
      apply forall₂_congr
      intro earlier mem
      have later : compareEdits edit earlier ≤ 0 := by
        rcases List.mem_cons.mp mem with rfl | inside
        · exact stays
        · have next := sound.1 earlier inside
          rw [compareEdits_le_iff] at stays next ⊢
          exact compare_trans next stays
      have whole : ∀ item ∈ other :: rest, comparePosition item.range.start item.range.stop ≤ 0 := List.forall_mem_cons.mpr ordered
      exact later_iff_first own (whole earlier mem) later
    · rename_i passes
      rw [List.pairwise_cons, ih ordered.2 sound.2, List.pairwise_cons, List.forall_mem_cons,
        ← later_iff_second own ordered.1 passes]
      have members : (∀ earlier ∈ rest.orderedInsert (fun a b => compareEdits a b ≤ 0) edit, Later other earlier) ↔
          Later other edit ∧ ∀ earlier ∈ rest, Later other earlier := by
        constructor
        · intro all
          exact ⟨all edit ((List.mem_orderedInsert _).mpr (.inl rfl)),fun earlier mem =>
            all earlier ((List.mem_orderedInsert _).mpr (.inr mem))⟩
        · intro ⟨one,others⟩ earlier mem
          rcases (List.mem_orderedInsert _).mp mem with rfl | inside
          · exact one
          · exact others earlier inside
      rw [members]
      tauto

theorem sort_sorted (edits : List TextEdit) : (sortEdits edits).Pairwise fun a b => compareEdits a b ≤ 0 := by
  have total : Std.Total fun a b : TextEdit => compareEdits a b ≤ 0 := by
    constructor
    intro a b
    rw [compareEdits_le_iff, compareEdits_le_iff, compare_le_iff, compare_le_iff]
    omega
  have trans : IsTrans TextEdit fun a b => compareEdits a b ≤ 0 := by
    constructor
    intro a b c one two
    rw [compareEdits_le_iff] at one two ⊢
    exact compare_trans two one
  exact List.pairwise_insertionSort _ edits

theorem mem_sort {edits : List TextEdit} {edit : TextEdit} : edit ∈ sortEdits edits ↔ edit ∈ edits := List.mem_insertionSort _

/-- The check of the sorted list says whether all edits are separate. -/
theorem sort_later_iff {edits : List TextEdit} (ordered : ∀ edit ∈ edits, comparePosition edit.range.start edit.range.stop ≤ 0) :
    (sortEdits edits).Pairwise Later ↔ edits.Pairwise Separate := by
  induction edits with
  | nil => simp [sortEdits]
  | cons edit rest ih =>
    rw [List.forall_mem_cons] at ordered
    have inside : ∀ other ∈ sortEdits rest, comparePosition other.range.start other.range.stop ≤ 0 := fun other mem =>
      ordered.2 other (mem_sort.mp mem)
    have inserted := insert_pairwise_iff ordered.1 inside (sort_sorted rest)
    rw [sortEdits, List.insertionSort_cons, ← sortEdits, inserted, ih ordered.2, List.pairwise_cons]
    apply and_congr_left
    intro _
    exact forall_congr' fun other => by rw [mem_sort]

theorem conflict_none_iff_separate {edits : List TextEdit}
    (ordered : ∀ edit ∈ edits, comparePosition edit.range.start edit.range.stop ≤ 0) :
    findConflict (sortEdits edits) = none ↔ edits.Pairwise Separate := by
  rw [conflict_none_iff, ← sort_later_iff ordered]
  constructor
  · exact chain_pairwise fun edit mem => ordered edit (mem_sort.mp mem)
  · exact List.Pairwise.isChain

theorem filter_sort {lines : List JsString} {edits : List TextEdit} (valid : ∀ edit ∈ edits, Valid lines edit)
    {q : FlatEdits.Edit CodeUnit → Bool} {i : Nat} (placed : ∀ edit, q edit = true → edit.start = i) :
    ((sortEdits edits).map (flat lines)).filter q = (edits.map (flat lines)).filter q := by
  have same : (sortEdits edits).filter (q ∘ flat lines) = edits.filter (q ∘ flat lines) := by
    apply FlatEdits.filter_insertionSort
    intro a one b two first second
    have equal := offset_inj (valid a one).start (valid b two).start ((placed _ first).trans (placed _ second).symm)
    rw [compareEdits_le_iff, equal, compare_le_iff]
    exact .inr ⟨rfl,Nat.le_refl _⟩
  rw [List.filter_map, List.filter_map, same]

/-- The sort changes nothing for edits that are applied at once. -/
theorem simultaneous_sort {lines : List JsString} {edits : List TextEdit} (valid : ∀ edit ∈ edits, Valid lines edit)
    (text : JsString) : FlatEdits.simultaneous ((sortEdits edits).map (flat lines)).reverse text =
      FlatEdits.simultaneous (edits.map (flat lines)).reverse text := by
  have pieces : FlatEdits.piece ((sortEdits edits).map (flat lines)).reverse text =
      FlatEdits.piece (edits.map (flat lines)).reverse text := by
    funext i
    have inserted := filter_sort valid (q := fun edit => edit.start = i ∧ edit.stop = i) (i := i) (by
      intro edit here
      rw [decide_eq_true_eq] at here
      exact here.1)
    have replaced := filter_sort valid (q := fun edit => edit.start = i ∧ i < edit.stop) (i := i) (by
      intro edit here
      rw [decide_eq_true_eq] at here
      exact here.1)
    have hidden : FlatEdits.covered ((sortEdits edits).map (flat lines)).reverse i =
        FlatEdits.covered (edits.map (flat lines)).reverse i := by
      rw [FlatEdits.covered, FlatEdits.covered, List.any_reverse, List.any_reverse]
      exact ((List.perm_insertionSort _ edits).map (flat lines)).any_eq
    rw [FlatEdits.piece, FlatEdits.piece, FlatEdits.insertedAt, FlatEdits.insertedAt, FlatEdits.replacementAt,
      FlatEdits.replacementAt, List.filter_reverse, List.filter_reverse, List.filter_reverse, List.filter_reverse, inserted,
      replaced, hidden]
  rw [FlatEdits.simultaneous, FlatEdits.simultaneous, pieces]

/-- What separate edits come to. -/
theorem applied_eq {content : JsString} {edits : List TextEdit} (valid : ∀ edit ∈ edits, Valid (splitLines content) edit)
    (separate : edits.Pairwise Separate) : applyTextEditsToString content edits =
      .ok (FlatEdits.simultaneous (edits.map (flat (splitLines content))).reverse content) := by
  have ordered : ∀ edit ∈ edits, comparePosition edit.range.start edit.range.stop ≤ 0 := fun edit mem => (valid edit mem).order
  have sorted : ∀ edit ∈ sortEdits edits, Valid (splitLines content) edit := fun edit mem => valid edit (mem_sort.mp mem)
  have later := (sort_later_iff ordered).mpr separate
  have text := edits_flat sorted later fun edit mem => agree_refl (sorted edit mem).stop
  rw [join_split] at text
  have flatValid : ∀ edit ∈ (sortEdits edits).map (flat (splitLines content)),
      edit.start ≤ edit.stop ∧ edit.stop ≤ content.length := by
    intro edit mem
    obtain ⟨own,inside,is⟩ := List.mem_map.mp mem
    have bound := offset_bound (sorted own inside).stop
    rw [join_split] at bound
    rw [← is]
    exact ⟨offset_le (sorted own inside).start (sorted own inside).order,bound⟩
  have follows : ((sortEdits edits).map (flat (splitLines content))).Pairwise FlatEdits.Follows := by
    rw [List.pairwise_map]
    apply later.imp_of_mem
    intro a b _ second le
    exact offset_le (sorted b second).stop le
  rw [applyTextEditsToString, (conflict_none_iff_separate ordered).mpr separate]
  dsimp only
  rw [text, FlatEdits.sequential_eq flatValid follows, simultaneous_sort valid]

/- The texts inserted at a place, in the order of the list. -/
def insertedAt (edits : List TextEdit) (p : Position) : JsString :=
  (edits.filter fun edit => edit.range.start = p ∧ edit.range.stop = p).flatMap TextEdit.newText

theorem insertedAt_flat {lines : List JsString} {edits : List TextEdit} (valid : ∀ edit ∈ edits, Valid lines edit) {p : Position}
    (inside : Inside lines p) : FlatEdits.insertedAt (edits.map (flat lines)) (offset lines p) = insertedAt edits p := by
  induction edits with
  | nil => rfl
  | cons edit rest ih =>
    rw [List.forall_mem_cons] at valid
    have both : (offset lines edit.range.start = offset lines p ∧ offset lines edit.range.stop = offset lines p) ↔
        (edit.range.start = p ∧ edit.range.stop = p) := by
      constructor
      · intro ⟨one,two⟩
        exact ⟨offset_inj valid.1.start inside one,offset_inj valid.1.stop inside two⟩
      · intro ⟨one,two⟩
        rw [one, two]
        exact ⟨rfl,rfl⟩
    have cons : insertedAt (edit :: rest) p = if edit.range.start = p ∧ edit.range.stop = p then
        edit.newText ++ insertedAt rest p else insertedAt rest p := by
      rw [insertedAt, List.filter_cons]
      by_cases here : edit.range.start = p ∧ edit.range.stop = p
      · rw [if_pos (decide_eq_true here), if_pos here]
        rfl
      · rw [if_neg (by simpa using here), if_neg here]
        rfl
    rw [List.map_cons, FlatEdits.inserted_cons, ih valid.2, cons, flat]
    dsimp only
    by_cases here : edit.range.start = p ∧ edit.range.stop = p
    · rw [if_pos (both.mpr here), if_pos here]
    · rw [if_neg (mt both.mp here), if_neg here]

/- Reading the inserts at each place backwards gives the same texts. -/
def ReadsBothWays (edits : List TextEdit) : Prop := ∀ p, insertedAt edits.reverse p = insertedAt edits p

theorem reads_iff {content : JsString} {edits : List TextEdit} (valid : ∀ edit ∈ edits, Valid (splitLines content) edit) :
    (∀ i ≤ content.length, FlatEdits.insertedAt (edits.map (flat (splitLines content))).reverse i =
      FlatEdits.insertedAt (edits.map (flat (splitLines content))) i) ↔ ReadsBothWays edits := by
  have turned : ∀ edit ∈ edits.reverse, Valid (splitLines content) edit := fun edit mem => valid edit (List.mem_reverse.mp mem)
  constructor
  · intro all p
    by_cases inside : Inside (splitLines content) p
    · have bound := offset_bound inside
      rw [join_split] at bound
      have here := all (offset (splitLines content) p) bound
      rw [← List.map_reverse, insertedAt_flat turned inside, insertedAt_flat valid inside] at here
      exact here
    · have empty : ∀ list : List TextEdit, (∀ edit ∈ list, Valid (splitLines content) edit) → insertedAt list p = [] := by
        intro list ok
        have none' : (list.filter fun edit => decide (edit.range.start = p ∧ edit.range.stop = p)) = [] := by
          rw [List.filter_eq_nil_iff]
          intro edit mem here
          rw [decide_eq_true_eq] at here
          apply inside
          rw [← here.1]
          exact (ok edit mem).start
        rw [insertedAt, none']
        rfl
      rw [empty _ turned, empty _ valid]
  · intro all i _
    by_cases some' : ∃ edit ∈ edits, offset (splitLines content) edit.range.start = i
    · obtain ⟨edit,mem,is⟩ := some'
      have inside := (valid edit mem).start
      rw [← is, ← List.map_reverse, insertedAt_flat turned inside, insertedAt_flat valid inside]
      exact all edit.range.start
    · have apart : ∀ edit ∈ edits.map (flat (splitLines content)), ¬ (edit.start = i ∧ edit.stop = i) := by
        intro edit mem here
        obtain ⟨own,inside,is⟩ := List.mem_map.mp mem
        rw [← is] at here
        exact some' ⟨own,inside,here.1⟩
      rw [FlatEdits.inserted_none apart, FlatEdits.inserted_none fun edit mem => apart edit (List.mem_reverse.mp mem)]

/- The result is that of all edits at once, and an error is thrown when two of them overlap. -/
def FollowsLsp (content : JsString) (edits : List TextEdit) : Prop :=
  (edits.Pairwise Apart → applyTextEditsToString content edits =
    .ok (FlatEdits.simultaneous (edits.map (flat (splitLines content))) content)) ∧
  (¬ edits.Pairwise Apart → ∃ message, applyTextEditsToString content edits = .error message)

theorem single_replacement {lines : List JsString} {edits : List TextEdit} (valid : ∀ edit ∈ edits, Valid lines edit)
    (apart : edits.Pairwise Apart) (i : Nat) :
    ((edits.map (flat lines)).filter fun edit => edit.start = i ∧ i < edit.stop).length ≤ 1 := by
  have pairs : (edits.map (flat lines)).Pairwise fun a b => ¬ (a.start = i ∧ i < a.stop ∧ b.start = i ∧ i < b.stop) := by
    rw [List.pairwise_map]
    apply apart.imp_of_mem
    intro a b one two separate here
    obtain ⟨first,past,second,past'⟩ := here
    have equal := offset_inj (valid a one).start (valid b two).start (first.trans second.symm)
    have longer : ∀ edit ∈ edits, (flat lines edit).start = i → i < (flat lines edit).stop →
        comparePosition edit.range.start edit.range.stop < 0 := by
      intro edit mem start stop
      by_contra not'
      have same : edit.range.start = edit.range.stop := by
        have order := (valid edit mem).order
        rw [compare_le_iff] at order
        rw [compare_lt_iff] at not'
        rw [position_ext]
        omega
      rw [flat, ← same] at stop
      rw [flat] at start
      dsimp only at start stop
      omega
    rw [apart_iff] at separate
    apply separate
    constructor
    · rw [equal]
      exact longer b two second past'
    · rw [← equal]
      exact longer a one first past
  have kept := pairs.filter fun edit => decide (edit.start = i ∧ i < edit.stop)
  cases found : (edits.map (flat lines)).filter fun edit => decide (edit.start = i ∧ i < edit.stop) with
  | nil => exact Nat.zero_le 1
  | cons a others =>
    cases others with
    | nil => exact Nat.le_refl 1
    | cons b rest =>
      rw [found, List.pairwise_cons] at kept
      have first : a ∈ (edits.map (flat lines)).filter fun edit => decide (edit.start = i ∧ i < edit.stop) := by
        rw [found]
        exact List.mem_cons_self
      have second : b ∈ (edits.map (flat lines)).filter fun edit => decide (edit.start = i ∧ i < edit.stop) := by
        rw [found]
        exact List.mem_cons_of_mem _ List.mem_cons_self
      rw [List.mem_filter, decide_eq_true_eq] at first second
      exact absurd ⟨first.2.1,first.2.2,second.2.1,second.2.2⟩ (kept.1 b List.mem_cons_self)

/-- The result is the one the protocol asks for exactly when no insertion is listed before a
    replacement that starts at its place, and the insertions at each place read the same in
    both orders. -/
theorem follows_lsp_iff (content : JsString) (edits : List TextEdit) (valid : ∀ edit ∈ edits, Valid (splitLines content) edit) :
    FollowsLsp content edits ↔ (edits.Pairwise Apart → edits.Pairwise NoInsertBefore ∧ ReadsBothWays edits) := by
  have ordered : ∀ edit ∈ edits, comparePosition edit.range.start edit.range.stop ≤ 0 := fun edit mem => (valid edit mem).order
  have thrown : ¬ edits.Pairwise Separate → ∃ message, applyTextEditsToString content edits = .error message := by
    intro clash
    rw [← conflict_none_iff_separate ordered] at clash
    obtain ⟨message,found⟩ := Option.ne_none_iff_exists'.mp clash
    refine ⟨message,?_⟩
    rw [applyTextEditsToString, found]
  have both : edits.Pairwise Separate ↔ edits.Pairwise Apart ∧ edits.Pairwise NoInsertBefore := List.pairwise_and_iff
  by_cases apart : edits.Pairwise Apart
  · have turned : FlatEdits.simultaneous (edits.map (flat (splitLines content))).reverse content =
        FlatEdits.simultaneous (edits.map (flat (splitLines content))) content ↔ _ :=
      FlatEdits.simultaneous_reverse_iff (single_replacement valid apart)
    rw [reads_iff valid] at turned
    constructor
    · intro ⟨result,_⟩ _
      have separate : edits.Pairwise Separate := by
        by_contra clash
        obtain ⟨message,failed⟩ := thrown clash
        rw [result apart] at failed
        contradiction
      have same := applied_eq valid separate
      rw [result apart, Except.ok.injEq] at same
      exact ⟨(both.mp separate).2,turned.mp same.symm⟩
    · intro good
      obtain ⟨noInsert,reads⟩ := good apart
      refine ⟨?_,fun clash => absurd apart clash⟩
      intro _
      rw [applied_eq valid (both.mpr ⟨apart,noInsert⟩), turned.mpr reads]
  · constructor
    · exact fun _ holds => absurd holds apart
    · intro _
      exact ⟨fun holds => absurd holds apart,fun _ => thrown fun separate => apart (both.mp separate).1⟩

/- A replacement that joins two lines, and an insertion at its start listed behind it. -/
def joined : List TextEdit := [⟨⟨⟨0,1⟩,⟨1,1⟩⟩,js "y"⟩, ⟨⟨⟨0,1⟩,⟨0,1⟩⟩,js "x"⟩]

theorem joined_follows_lsp : FollowsLsp (js "ab\ncd") joined := by
  rw [follows_lsp_iff (js "ab\ncd") joined (by decide +kernel)]
  intro _
  refine ⟨?_,?_⟩
  · simp [joined, NoInsertBefore]
  · intro p
    by_cases here : (⟨0,1⟩ : Position) = p
    · simp [joined, insertedAt, ← here]
    · simp [joined, insertedAt, here]

/- Two insertions at one place come out in reverse. -/
def twoInserts : List TextEdit := [⟨⟨⟨0,0⟩,⟨0,0⟩⟩,js "a"⟩, ⟨⟨⟨0,0⟩,⟨0,0⟩⟩,js "b"⟩]

theorem two_inserts_reversed : (∀ edit ∈ twoInserts, Valid (splitLines (js "x")) edit) ∧ twoInserts.Pairwise Apart ∧
    applyTextEditsToString (js "x") twoInserts = .ok (js "bax") ∧ ¬ FollowsLsp (js "x") twoInserts := by
  have result : applyTextEditsToString (js "x") twoInserts = .ok (js "bax") := by rfl
  have apart : twoInserts.Pairwise Apart := by simp [twoInserts, Apart, rangesOverlap, comparePosition]
  refine ⟨by decide +kernel,apart,result,?_⟩
  rintro ⟨follows,_⟩
  have asked := follows apart
  rw [result, Except.ok.injEq] at asked
  exact absurd asked (by decide +kernel)

end SimultaneousEdits
