import OpenAgents.Hashline.Patcher

/- Runs of the patcher: nothing is written before every section is prepared, and then each
   prepared text is written once, in order. -/
namespace Hashline
open JsText FallibleState

namespace Patcher

section Preparing
variable {File : Type} {maxPaths : Nat} (p : Patcher File)

/- What a patch must not touch before the write phase. -/
def stored (w : World File maxPaths) : (File → Option JsString) × List (JsString × JsString) :=
  (w.disk, w.writes)

theorem leaves_tryRead (path : JsString) : Leaves (@stored File maxPaths) (p.tryRead path) := fun _ => rfl

theorem leaves_record (canonicalPath normalized : JsString) :
    Leaves (@stored File maxPaths) (p.recordFullSnapshot canonicalPath normalized) := fun _ => rfl

theorem leaves_byHash (canonicalPath hash : JsString) : Leaves (@stored File maxPaths) (byHash canonicalPath hash) :=
  fun _ => rfl

theorem leaves_recover (canonicalPath currentText fileHash : JsString) (edits : List Edit) :
    Leaves (@stored File maxPaths) (p.recover canonicalPath currentText fileHash edits) := fun _ => rfl

theorem leaves_mismatchError {α : Type} (sec : PatchSection) (edits : List Edit)
    (canonicalPath normalized expected : JsString) (hashRecognized : Bool) :
    Leaves (@stored File maxPaths)
      (@mismatchError File maxPaths p α sec edits canonicalPath normalized expected hashRecognized) :=
  (p.leaves_record canonicalPath normalized).bind fun _ => leaves_ofExcept _ _

theorem leaves_baseTextOf (canonicalPath normalized : JsString) (liveMatches : Bool) (expected : Option JsString) :
    Leaves (@stored File maxPaths) (baseTextOf canonicalPath normalized liveMatches expected) := by
  cases expected with
  | none => exact leaves_pure _ _
  | some tag =>
    cases liveMatches with
    | true => exact leaves_pure _ _
    | false => exact (leaves_byHash canonicalPath tag).bind fun _ => leaves_pure _ _

theorem leaves_resolveEdits (sec : PatchSection) (canonicalPath normalized : JsString) (edits : List Edit)
    (expected : Option JsString) (liveMatches : Bool) :
    Leaves (@stored File maxPaths) (p.resolveEdits sec canonicalPath normalized edits expected liveMatches) := by
  unfold resolveEdits
  split
  · refine (leaves_baseTextOf canonicalPath normalized liveMatches expected).bind fun baseText => ?_
    cases baseText with
    | none => exact p.leaves_mismatchError sec edits canonicalPath normalized _ false
    | some text => exact leaves_ofExcept _ _
  · exact leaves_pure _ _

theorem leaves_applyWithRecovery (sec : PatchSection) (canonicalPath : JsString) (found : Bool)
    (normalized : JsString) (edits : List Edit) :
    Leaves (@stored File maxPaths) (p.applyWithRecovery sec canonicalPath found normalized edits) := by
  unfold applyWithRecovery
  dsimp only
  generalize (if found = true then sec.fileHash else none) = expected
  refine (p.leaves_resolveEdits sec canonicalPath normalized edits _ _).bind fun resolved => ?_
  cases expected with
  | none => exact leaves_ofExcept _ _
  | some tag =>
    dsimp only
    split
    · exact leaves_ofExcept _ _
    · split
      · exact (leaves_ofExcept _ _).bind fun _ => leaves_pure _ _
      · refine (p.leaves_recover canonicalPath normalized tag resolved).bind fun recovered => ?_
        cases recovered with
        | some result => exact leaves_pure _ _
        | none =>
          exact (leaves_byHash canonicalPath tag).bind fun snapshot =>
            p.leaves_mismatchError sec edits canonicalPath normalized tag _

theorem leaves_prepare (sec : PatchSection) : Leaves (@stored File maxPaths) (p.prepare sec) := by
  unfold prepare
  refine (leaves_ofExcept _ _).bind fun parsed => ?_
  refine (leaves_ofExcept _ _).bind fun _ => ?_
  refine (leaves_ofExcept _ _).bind fun _ => ?_
  refine (p.leaves_tryRead sec.path).bind fun content => ?_
  cases content with
  | none => exact leaves_ofExcept _ _
  | some rawContent =>
    exact (p.leaves_applyWithRecovery sec _ true _ _).bind fun _ => leaves_pure _ _

theorem leaves_prepareAll (sections : List PatchSection) :
    Leaves (@stored File maxPaths) (p.prepareAll sections) := by
  unfold prepareAll
  refine (Leaves.mapM p.leaves_prepare sections).bind fun prepared => ?_
  refine (leaves_ofExcept _ _).bind fun _ => ?_
  exact (leaves_ofExcept _ _).bind fun _ => leaves_pure _ _

/-- What a prepared section holds: the file as the disk has it, and its edits applied to that. -/
structure Prepared (w : World File maxPaths) (sec : PatchSection) (prepared : PreparedSection) : Prop where
  source : prepared.sec = sec
  canonicalPath : prepared.canonicalPath = p.fs.canonicalPath sec.path
  read : p.fs.readText w.disk sec.path = .ok (some prepared.rawContent)
  bom : prepared.bom = (stripBom prepared.rawContent).bom
  lineEnding : prepared.lineEnding = detectLineEnding (stripBom prepared.rawContent).text
  normalized : prepared.normalized = normalizeToLF (stripBom prepared.rawContent).text
  applied : ∃ parsed, ∃ here next : World File maxPaths, sec.parse = .ok parsed ∧ here.disk = w.disk ∧
    p.applyWithRecovery sec prepared.canonicalPath true prepared.normalized parsed.edits here =
      (.ok prepared.applyResult, next)

variable {sec : PatchSection} {prepared : PreparedSection} {sections : List PatchSection} {w : World File maxPaths}

theorem Prepared.of_disk {here w : World File maxPaths} (made : p.Prepared here sec prepared) (same : here.disk = w.disk) : p.Prepared w sec prepared :=
  { made with
    read := same ▸ made.read
    applied := by
      obtain ⟨parsed,start,next,parses,disk,ran⟩ := made.applied
      exact ⟨parsed,start,next,parses,disk.trans same,ran⟩ }

theorem prepare_ok {w last : World File maxPaths} (ran : p.prepare sec w = (.ok prepared, last)) : p.Prepared w sec prepared := by
  unfold prepare at ran
  obtain ⟨parsed,_,parses,afterParse⟩ := bind_ok.mp ran
  obtain ⟨parsedSection,rfl⟩ := ofExcept_ok.mp parses
  obtain ⟨_,_,tagged,afterTag⟩ := bind_ok.mp afterParse
  obtain ⟨-,rfl⟩ := ofExcept_ok.mp tagged
  obtain ⟨_,_,writable,afterCheck⟩ := bind_ok.mp afterTag
  obtain ⟨-,rfl⟩ := ofExcept_ok.mp writable
  obtain ⟨content,_,read,afterRead⟩ := bind_ok.mp afterCheck
  cases content with
  | none =>
    have thrown := (ofExcept_ok.mp afterRead).1
    cases thrown
  | some rawContent =>
    obtain ⟨applyResult,_,applied,done⟩ := bind_ok.mp afterRead
    obtain ⟨found,rfl⟩ := Prod.mk.inj read
    cases done
    exact ⟨rfl,rfl,found,rfl,rfl,rfl,parsed,_,_,parsedSection,rfl,applied⟩

theorem prepareAll_ok {w mid : World File maxPaths} {prepared : List PreparedSection}
    (ran : p.prepareAll sections w = (.ok prepared, mid)) :
    List.Forall₂ (p.Prepared w) sections prepared ∧ (∀ q ∈ prepared, q.isNoop = false) ∧
      stored mid = stored w := by
  have kept := p.leaves_prepareAll sections w
  rw [ran] at kept
  unfold prepareAll at ran
  obtain ⟨results,_,made,afterMade⟩ := bind_ok.mp ran
  obtain ⟨_,_,unique,afterUnique⟩ := bind_ok.mp afterMade
  obtain ⟨_,_,changed,done⟩ := bind_ok.mp afterUnique
  obtain ⟨effective,rfl⟩ := ofExcept_ok.mp changed
  cases done
  refine ⟨(mapM_ok p.leaves_prepare made).imp ?_,?_,kept⟩
  · intro sec q reached
    obtain ⟨here,next,ran,same⟩ := reached
    exact (p.prepare_ok ran).of_disk p (congrArg Prod.fst same)
  · intro q member
    unfold assertNoNoop at effective
    split at effective
    · cases effective
    · rename_i absent
      simpa using List.find?_eq_none.mp absent q member

theorem prepareAll_single {w next : World File maxPaths} {q : PreparedSection} (ran : p.prepare sec w = (.ok q, next)) :
    p.prepareAll [sec] w = match assertNoNoop [q] with
      | .ok _ => (.ok [q], next)
      | .error e => (.error e, next) := by
  have mapped : [sec].mapM p.prepare w = (.ok [q], next) := by
    rw [List.mapM_cons, bind_run, ran]
    rfl
  have unique : assertUniqueCanonicalPaths [q] = .ok () := rfl
  unfold prepareAll
  rw [bind_run, mapped]
  dsimp only
  rw [unique]
  show (FallibleState.ofExcept (assertNoNoop [q]) >>= fun _ => pure [q]) next = _
  rw [bind_run]
  unfold FallibleState.ofExcept
  cases assertNoNoop [q] <;> rfl

theorem located_prepared {prepared : List PreparedSection} (made : List.Forall₂ (p.Prepared w) sections prepared) :
    prepared.map (fun q => p.fs.locate q.sec.path) = sections.map fun sec => p.fs.locate sec.path := by
  induction made with
  | nil => rfl
  | cons first _ ih => rw [List.map_cons, List.map_cons, ih, first.source]

theorem preflight_ok :
    (p.preflight sections w).1 = .ok () ↔ ∃ prepared mid, p.prepareAll sections w = (.ok prepared, mid) := by
  unfold preflight
  rw [bind_run]
  cases ran : p.prepareAll sections w with
  | mk outcome mid =>
    cases outcome with
    | error e => simp
    | ok prepared => simp

end Preparing

section Writing
variable {File : Type} [DecidableEq File] {maxPaths : Nat} (p : Patcher File)

theorem commit_noop {prepared : PreparedSection} (noop : prepared.isNoop = true) (w : World File maxPaths) :
    stored (p.commit prepared w).2 = stored w := by
  unfold commit
  simp only [noop, if_true]
  rfl

def storedForm (q : PreparedSection) : Option JsString := (p.fs.encode q.sec.path (persisted q)).toOption

def put (disk : File → Option JsString) (q : PreparedSection) : File → Option JsString :=
  fun file => if file = p.fs.locate q.sec.path then p.storedForm q else disk file

/- The call of `writeText` for a prepared section. -/
def callOf (q : PreparedSection) : JsString × JsString := (q.sec.path, persisted q)

theorem commit_writes (writable : ∀ path content, (p.fs.encode path content).toOption.isSome = true)
    {q : PreparedSection} (changes : q.isNoop = false) (w : World File maxPaths) :
    ∃ result last, p.commit q w = (.ok result, last) ∧ last.disk = p.put w.disk q ∧
      last.writes = w.writes ++ [callOf q] ∧ result.path = q.sec.path ∧ result.after = q.applyResult.text ∧
      result.fileHash = computeFileHash p.xxHash32 q.applyResult.text := by
  have encodes := writable q.sec.path (persisted q)
  cases form : p.fs.encode q.sec.path (persisted q) with
  | error e => simp [form, Except.toOption] at encodes
  | ok text =>
    have wrote : p.writeText q.sec.path (persisted q) w =
        (.ok text, { w with writes := w.writes ++ [callOf q], disk := p.put w.disk q }) := by
      unfold writeText
      simp only [form]
      congr
      funext file
      simp [put, storedForm, form, Except.toOption]
    unfold commit
    simp only [changes, Bool.false_eq_true, if_false]
    rw [bind_run, wrote]
    exact ⟨_,_,rfl,rfl,rfl,rfl,rfl,rfl⟩

variable {prepared : List PreparedSection} {sections : List PatchSection} {w mid : World File maxPaths}

theorem commitAll_writes (writable : ∀ path content, (p.fs.encode path content).toOption.isSome = true) :
    ∀ {w : World File maxPaths}, (∀ q ∈ prepared, q.isNoop = false) →
      ∃ results last, prepared.mapM p.commit w = (.ok results, last) ∧ last.disk = prepared.foldl p.put w.disk ∧
        last.writes = w.writes ++ prepared.map callOf := by
  induction prepared with
  | nil =>
    intro w _
    exact ⟨[],w,rfl,rfl,by simp⟩
  | cons q rest ih =>
    intro w changes
    obtain ⟨result,next,ran,disk,writes,-⟩ := p.commit_writes writable (changes q List.mem_cons_self) w
    obtain ⟨results,last,later,finalDisk,finalWrites⟩ :=
      ih (w := next) fun r member => changes r (List.mem_cons_of_mem q member)
    refine ⟨result :: results,last,?_,?_,?_⟩
    · rw [List.mapM_cons, bind_run, ran]
      dsimp only
      rw [bind_run, later]
      rfl
    · rw [finalDisk, disk, List.foldl_cons]
    · rw [finalWrites, writes, List.map_cons, List.append_assoc, List.singleton_append]

theorem puts_elsewhere {file : File} (elsewhere : ∀ q ∈ prepared, file ≠ p.fs.locate q.sec.path) :
    ∀ disk, prepared.foldl p.put disk file = disk file := by
  induction prepared with
  | nil =>
    intro disk
    rfl
  | cons q rest ih =>
    intro disk
    rw [List.foldl_cons, ih fun r member => elsewhere r (List.mem_cons_of_mem q member)]
    exact if_neg (elsewhere q List.mem_cons_self)

theorem puts_here (distinct : (prepared.map fun q => p.fs.locate q.sec.path).Nodup) :
    ∀ disk, ∀ q ∈ prepared, prepared.foldl p.put disk (p.fs.locate q.sec.path) = p.storedForm q := by
  induction prepared with
  | nil =>
    intro disk q member
    cases member
  | cons first rest ih =>
    intro disk q member
    rw [List.map_cons, List.nodup_cons] at distinct
    rw [List.foldl_cons]
    cases member with
    | head =>
      rw [p.puts_elsewhere]
      · exact if_pos rfl
      · intro r among same
        exact distinct.1 (same ▸ List.mem_map_of_mem among)
    | tail _ among => exact ih distinct.2 _ q among

theorem apply_single (sec : PatchSection) (w : World File maxPaths) :
    p.apply [sec] w = (p.prepare sec >>= fun q => p.commit q >>= fun result => pure [result]) w := rfl

theorem apply_several (several : sections.length ≠ 1) (w : World File maxPaths) :
    p.apply sections w = (p.prepareAll sections >>= fun prepared => prepared.mapM p.commit) w := by
  match sections with
  | [] => rfl
  | [_] => exact absurd rfl several
  | _ :: _ :: _ => rfl

/-- A patch that is refused before the write phase changes nothing. -/
theorem apply_refused {e : JsString} (refused : p.prepareAll sections w = (.error e, mid)) : stored (p.apply sections w).2 = stored w := by
  by_cases single : sections.length = 1
  · obtain ⟨sec,rfl⟩ := List.length_eq_one_iff.mp single
    have leaves := p.leaves_prepare sec w
    rw [apply_single, bind_run]
    cases ran : p.prepare sec w with
    | mk outcome next =>
      rw [ran] at leaves
      cases outcome with
      | error failure => exact leaves
      | ok q =>
        rw [p.prepareAll_single ran] at refused
        have noop : q.isNoop = true := by
          cases changes : q.isNoop with
          | true => rfl
          | false => simp [assertNoNoop, changes] at refused
        have same := p.commit_noop noop next
        dsimp only
        rw [bind_run]
        cases committed : p.commit q next with
        | mk result last =>
          rw [committed] at same
          cases result with
          | error failure => exact same.trans leaves
          | ok value => exact same.trans leaves
  · have kept := p.leaves_prepareAll sections w
    rw [refused] at kept
    rw [p.apply_several single, bind_run, refused]
    exact kept

/-- A prepared patch is committed section by section. -/
theorem apply_prepared (ran : p.prepareAll sections w = (.ok prepared, mid)) : p.apply sections w = prepared.mapM p.commit mid := by
  by_cases single : sections.length = 1
  · obtain ⟨sec,rfl⟩ := List.length_eq_one_iff.mp single
    rw [apply_single, bind_run]
    cases made : p.prepare sec w with
    | mk outcome next =>
      cases outcome with
      | error failure =>
        unfold prepareAll at ran
        rw [List.mapM_cons, bind_run, bind_run, made] at ran
        cases ran
      | ok q =>
        rw [p.prepareAll_single made] at ran
        split at ran
        · cases ran
          rw [List.mapM_cons]
          rfl
        · cases ran
  · rw [p.apply_several single, bind_run, ran]

/-- Each section's file is written once, in order, with the text prepared for it from what was
    read before any write; other files keep their text. -/
structure WritesEach (w last : World File maxPaths) (sections : List PatchSection)
    (prepared : List PreparedSection) : Prop where
  prepares : List.Forall₂ (p.Prepared w) sections prepared
  inOrder : last.writes = w.writes ++ prepared.map callOf
  once : ∀ q ∈ prepared, (prepared.map callOf).countP (fun call => p.fs.locate call.1 = p.fs.locate q.sec.path) = 1
  holds : ∀ q ∈ prepared, last.disk (p.fs.locate q.sec.path) = p.storedForm q
  others : ∀ file, (∀ q ∈ prepared, file ≠ p.fs.locate q.sec.path) → last.disk file = w.disk file

structure AllOrNothing (w : World File maxPaths) (sections : List PatchSection) : Prop where
  refused : ∀ e mid, p.prepareAll sections w = (.error e, mid) → stored (p.apply sections w).2 = stored w
  written : ∀ prepared mid, p.prepareAll sections w = (.ok prepared, mid) →
    ∃ results last, p.apply sections w = (.ok results, last) ∧ p.WritesEach w last sections prepared

theorem count_one_iff {α β : Type} [DecidableEq β] (key : α → β) (items : List α) :
    (∀ a ∈ items, items.countP (fun b => key b = key a) = 1) ↔ (items.map key).Nodup := by
  have counts : ∀ a, items.countP (fun b => decide (key b = key a)) = (items.map key).count (key a) := by
    intro a
    rw [List.count, List.countP_map]
    rfl
  rw [List.nodup_iff_count_eq_one]
  simp only [counts, List.forall_mem_map]

theorem AllOrNothing.distinct (all : p.AllOrNothing w sections) (accepted : (p.preflight sections w).1 = .ok ()) :
    (sections.map fun sec => p.fs.locate sec.path).Nodup := by
  obtain ⟨prepared,mid,ran⟩ := p.preflight_ok.mp accepted
  obtain ⟨results,last,-,writes⟩ := all.written prepared mid ran
  rw [← p.located_prepared writes.prepares, ← count_one_iff]
  intro q member
  have once := writes.once q member
  rwa [List.countP_map] at once

theorem all_or_nothing_iff (writable : ∀ path content, (p.fs.encode path content).toOption.isSome = true)
    (w : World File maxPaths) (sections : List PatchSection) :
    p.AllOrNothing w sections ↔
      ((p.preflight sections w).1 = .ok () → (sections.map fun sec => p.fs.locate sec.path).Nodup) := by
  constructor
  · intro all accepted
    exact all.distinct p accepted
  · intro distinct
    constructor
    · intro e mid refused
      exact p.apply_refused refused
    · intro prepared mid ran
      obtain ⟨made,changes,kept⟩ := p.prepareAll_ok ran
      have located := distinct (p.preflight_ok.mpr ⟨prepared,mid,ran⟩)
      rw [← p.located_prepared made] at located
      obtain ⟨results,last,committed,disk,writes⟩ := p.commitAll_writes writable (w := mid) changes
      have sameDisk : mid.disk = w.disk := congrArg Prod.fst kept
      have sameWrites : mid.writes = w.writes := congrArg Prod.snd kept
      refine ⟨results,last,(p.apply_prepared ran).trans committed,made,?_,?_,?_,?_⟩
      · rw [writes, sameWrites]
      · intro q member
        have once := (count_one_iff (fun q : PreparedSection => p.fs.locate q.sec.path) prepared).mpr located q member
        rwa [List.countP_map]
      · intro q member
        rw [disk]
        exact p.puts_here located _ q member
      · intro file elsewhere
        rw [disk, sameDisk]
        exact p.puts_elsewhere elsewhere _

end Writing

/- Files named by their paths; `link` is a link to `a`. -/
def linkedFiles : Filesystem JsString where
  canonicalPath path := path
  locate path := if path = js "link" then js "a" else path
  preflightWrite _ := .ok ()
  encode _ content := .ok content
  decode _ stored := .ok stored

def linkedPatcher : Patcher JsString := ⟨linkedFiles,none,fun _ => 0,fun _ _ _ => none,0⟩

def twoFiles : World JsString 4 :=
  { disk := fun file => if file = js "a" ∨ file = js "b" then some (js "x") else none
    snapshots := .new 4 4
    writes := [] }

def appending (path row : JsString) : PatchSection :=
  ⟨path,some (js "0000"),js "insert tail:\n+" ++ row⟩

theorem linkedFiles_writable (path content : JsString) :
    (linkedPatcher.fs.encode path content).toOption.isSome = true := rfl

theorem all_or_nothing_twoFiles :
    (linkedPatcher.preflight [appending (js "a") (js "p"), appending (js "b") (js "q")] twoFiles).1 = .ok () ∧
    linkedPatcher.AllOrNothing twoFiles [appending (js "a") (js "p"), appending (js "b") (js "q")] :=
  ⟨by decide +kernel,(linkedPatcher.all_or_nothing_iff linkedFiles_writable twoFiles _).mpr fun _ => by decide⟩

/-- The second write takes the first edit away again. -/
theorem linked_section_overwritten :
    (linkedPatcher.preflight [appending (js "a") (js "p"), appending (js "link") (js "q")] twoFiles).1 = .ok () ∧
    (linkedPatcher.apply [appending (js "a") (js "p"), appending (js "link") (js "q")] twoFiles).2.disk (js "a") =
      some (js "x\nq") ∧
    ¬linkedPatcher.AllOrNothing twoFiles [appending (js "a") (js "p"), appending (js "link") (js "q")] := by
  have accepted : (linkedPatcher.preflight [appending (js "a") (js "p"), appending (js "link") (js "q")]
      twoFiles).1 = .ok () := by decide +kernel
  refine ⟨accepted,by decide +kernel,?_⟩
  intro all
  have distinct := all.distinct linkedPatcher accepted
  revert distinct
  decide

end Patcher

end Hashline
