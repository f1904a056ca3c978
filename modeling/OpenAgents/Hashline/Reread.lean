import OpenAgents.Hashline.PatcherRuns
import Mathlib.Algebra.GroupWithZero.Nat

/- Reading a committed file again: when the text that the tag was computed from comes back. -/
namespace Hashline
open JsText FallibleState

namespace Patcher
variable {File : Type} {maxPaths : Nat} (p : Patcher File)

/- Reading returns what was last written. -/
def Faithful (fs : Filesystem File) : Prop :=
  ∀ path content stored, fs.encode path content = .ok stored → fs.decode path stored = .ok content

/- A later patch finds the prepared text, and the tag of the result is its tag. -/
def Rereads (last : World File maxPaths) (prepared : PreparedSection) (result : PatchSectionResult) : Prop :=
  ∃ rawContent, p.fs.readText last.disk prepared.sec.path = .ok (some rawContent) ∧
    normalizeToLF (stripBom rawContent).text = prepared.applyResult.text ∧
    result.fileHash = computeFileHash p.xxHash32 (normalizeToLF (stripBom rawContent).text)

variable {prepared : PreparedSection} {w last : World File maxPaths}

theorem normalized_persisted_iff (bom : prepared.bom = [byteOrderMark] ∨ prepared.bom = []) :
    normalizeToLF (stripBom (persisted prepared)).text = prepared.applyResult.text ↔
      carriageReturn ∉ prepared.applyResult.text ∧
        (prepared.bom = [] → prepared.applyResult.text.head? ≠ some byteOrderMark) := by
  unfold persisted
  rcases bom with marked | unmarked
  · rw [marked, List.singleton_append, stripBom_marked, normalize_restore_iff]
    simp
  · rw [unmarked, List.nil_append]
    by_cases head : prepared.applyResult.text.head? = some byteOrderMark
    · cases text : prepared.applyResult.text with
      | nil => simp [text] at head
      | cons c rest =>
        obtain rfl : c = byteOrderMark := by simpa [text] using head
        have restored : restoreLineEndings (byteOrderMark :: rest) prepared.lineEnding =
            byteOrderMark :: restoreLineEndings rest prepared.lineEnding := by
          cases prepared.lineEnding with
          | crlf => rfl
          | lf => rfl
        rw [restored, stripBom_marked]
        constructor
        · intro same
          have clean := normalizeToLF_clean (restoreLineEndings rest prepared.lineEnding)
          rw [same, List.mem_cons, not_or] at clean
          rw [normalize_restore clean.2] at same
          have longer := congrArg List.length same
          simp at longer
        · intro both
          exact absurd rfl (both.2 rfl)
    · have other : (restoreLineEndings prepared.applyResult.text prepared.lineEnding).head? ≠ some byteOrderMark := by
        rwa [ne_eq, restore_head]
      rw [stripBom_unmarked other, normalize_restore_iff]
      simp [head]

variable [DecidableEq File]

theorem commit_ok {result : PatchSectionResult} (changes : prepared.isNoop = false)
    (committed : p.commit prepared w = (.ok result, last)) :
    ∃ text, p.fs.encode prepared.sec.path (persisted prepared) = .ok text ∧
      last.disk (p.fs.locate prepared.sec.path) = some text ∧
      result.fileHash = computeFileHash p.xxHash32 prepared.applyResult.text := by
  unfold commit at committed
  simp only [changes, Bool.false_eq_true, if_false] at committed
  obtain ⟨text,next,wrote,afterWrite⟩ := bind_ok.mp committed
  obtain ⟨hash,final,recorded,done⟩ := bind_ok.mp afterWrite
  cases done
  cases recorded
  unfold writeText at wrote
  cases form : p.fs.encode prepared.sec.path (persisted prepared) with
  | error e => simp [form] at wrote
  | ok stored =>
    rw [form] at wrote
    cases wrote
    exact ⟨text,rfl,if_pos rfl,rfl⟩

theorem commit_unchanged {result : PatchSectionResult} (noop : prepared.isNoop = true)
    (committed : p.commit prepared w = (.ok result, last)) :
    last.disk = w.disk ∧ result.fileHash = computeFileHash p.xxHash32 prepared.normalized := by
  unfold commit at committed
  simp only [noop, if_true] at committed
  obtain ⟨hash,next,recorded,done⟩ := bind_ok.mp committed
  cases done
  cases recorded
  exact ⟨rfl,rfl⟩

/-- After a write the text read again is the persisted one. -/
theorem rereads_written_iff (faithful : Faithful p.fs) {mid last : World File maxPaths} {result : PatchSectionResult}
    (changes : prepared.isNoop = false) (commits : p.commit prepared mid = (.ok result, last)) :
    p.Rereads last prepared result ↔
      normalizeToLF (stripBom (persisted prepared)).text = prepared.applyResult.text := by
  obtain ⟨text,form,stands,hash⟩ := p.commit_ok changes commits
  have reads : p.fs.readText last.disk prepared.sec.path = .ok (some (persisted prepared)) := by
    unfold Filesystem.readText
    rw [stands]
    dsimp only
    rw [faithful _ _ _ form]
    rfl
  constructor
  · intro again
    obtain ⟨rawContent,read,normal,-⟩ := again
    rw [reads] at read
    cases read
    exact normal
  · intro normal
    exact ⟨persisted prepared,reads,normal,by rw [normal, hash]⟩

theorem rereads_iff (faithful : Faithful p.fs) {sec : PatchSection} {w mid last : World File maxPaths}
    {prepared : PreparedSection} {result : PatchSectionResult} (prepares : p.prepare sec w = (.ok prepared, mid))
    (commits : p.commit prepared mid = (.ok result, last)) :
    p.Rereads last prepared result ↔ prepared.isNoop = true ∨
      carriageReturn ∉ prepared.applyResult.text ∧
        (prepared.bom = [] → prepared.applyResult.text.head? ≠ some byteOrderMark) := by
  have made := p.prepare_ok prepares
  have kept := p.leaves_prepare sec w
  rw [prepares] at kept
  have disk : mid.disk = w.disk := congrArg Prod.fst kept
  cases noop : prepared.isNoop with
  | true =>
    obtain ⟨same,hash⟩ := p.commit_unchanged noop commits
    have unchanged : prepared.applyResult.text = prepared.normalized := by
      simpa [PreparedSection.isNoop] using noop
    refine iff_of_true ⟨prepared.rawContent,?_,?_,?_⟩ (.inl rfl)
    · rw [same, disk, made.source]
      exact made.read
    · rw [unchanged, made.normalized]
    · rw [hash, made.normalized]
  | false =>
    have bom : prepared.bom = [byteOrderMark] ∨ prepared.bom = [] := by
      rw [made.bom]
      exact (stripBom_cases prepared.rawContent).imp id And.left
    rw [p.rereads_written_iff faithful noop commits, normalized_persisted_iff bom]
    simp

/- A patcher whose hash adds the code units up. -/
def summingPatcher : Patcher JsString :=
  { linkedPatcher with xxHash32 := fun text => (text.map UInt16.toNat).sum }

theorem linkedFiles_faithful : Faithful linkedFiles := by
  intro path content stored form
  cases form
  rfl

def taggedAppend (row : JsString) : PatchSection := ⟨js "a",some (js "0078"),js "insert tail:\n+" ++ row⟩

/-- What the section prepares to, and that it is committed. -/
theorem summing_commits (sec : PatchSection) (after : JsString)
    (prepares : ((summingPatcher.prepare sec twoFiles).1.toOption.map fun q =>
      (q.isNoop, q.bom, q.lineEnding, q.applyResult.text)) = some (false, [], LineEnding.lf, after)) :
    ∃ prepared mid result last, summingPatcher.prepare sec twoFiles = (.ok prepared, mid) ∧
      summingPatcher.commit prepared mid = (.ok result, last) ∧ prepared.isNoop = false ∧ prepared.bom = [] ∧
      prepared.lineEnding = .lf ∧ prepared.applyResult.text = after := by
  cases ran : summingPatcher.prepare sec twoFiles with
  | mk outcome mid =>
    rw [ran] at prepares
    cases outcome with
    | error e => cases prepares
    | ok prepared =>
      have fields : (prepared.isNoop, prepared.bom, prepared.lineEnding, prepared.applyResult.text) =
          (false, [], LineEnding.lf, after) := Option.some.inj prepares
      obtain ⟨changes,bom,ending,text⟩ : prepared.isNoop = false ∧ prepared.bom = [] ∧
          prepared.lineEnding = .lf ∧ prepared.applyResult.text = after := by simpa using fields
      obtain ⟨result,last,committed,-⟩ :=
        summingPatcher.commit_writes linkedFiles_writable changes mid
      exact ⟨prepared,mid,result,last,rfl,committed,changes,bom,ending,text⟩

theorem rereads_taggedAppend :
    ∃ prepared mid result last, summingPatcher.prepare (taggedAppend (js "p")) twoFiles = (.ok prepared, mid) ∧
      summingPatcher.commit prepared mid = (.ok result, last) ∧
      prepared.applyResult.text = js "x\np" ∧ summingPatcher.Rereads last prepared result := by
  obtain ⟨prepared,mid,result,last,prepares,commits,changes,bom,ending,text⟩ :=
    summing_commits (taggedAppend (js "p")) (js "x\np") (by decide +kernel)
  refine ⟨prepared,mid,result,last,prepares,commits,text,?_⟩
  refine (summingPatcher.rereads_iff linkedFiles_faithful prepares commits).mpr (.inr ⟨?_,?_⟩)
  · rw [text]
    decide
  · intro _
    rw [text]
    decide

/- A carriage return within a row, and a row at the head that begins with a byte order mark. -/
def markedHead : PatchSection := ⟨js "a",some (js "0078"),js "insert head:\n+" ++ byteOrderMark :: js "p"⟩

theorem committed_text_differs :
    Faithful summingPatcher.fs ∧
    (∃ prepared mid result last,
      summingPatcher.prepare (taggedAppend (js "p\rq")) twoFiles = (.ok prepared, mid) ∧
      summingPatcher.commit prepared mid = (.ok result, last) ∧ ¬summingPatcher.Rereads last prepared result ∧
      result.fileHash ≠ computeFileHash summingPatcher.xxHash32
        (normalizeToLF (stripBom (persisted prepared)).text)) ∧
    ∃ prepared mid result last, summingPatcher.prepare markedHead twoFiles = (.ok prepared, mid) ∧
      summingPatcher.commit prepared mid = (.ok result, last) ∧ ¬summingPatcher.Rereads last prepared result := by
  refine ⟨linkedFiles_faithful,?_,?_⟩
  · obtain ⟨prepared,mid,result,last,prepares,commits,changes,bom,ending,text⟩ :=
      summing_commits (taggedAppend (js "p\rq")) (js "x\np\rq") (by decide +kernel)
    obtain ⟨-,-,-,hash⟩ := summingPatcher.commit_ok changes commits
    have again : (stripBom (persisted prepared)).text = prepared.applyResult.text := by
      unfold persisted
      rw [bom, ending, text]
      decide
    refine ⟨prepared,mid,result,last,prepares,commits,?_,?_⟩
    · rw [summingPatcher.rereads_written_iff linkedFiles_faithful changes commits, again, text]
      decide
    · rw [hash, again, text]
      decide +kernel
  · obtain ⟨prepared,mid,result,last,prepares,commits,changes,bom,ending,text⟩ :=
      summing_commits markedHead (byteOrderMark :: js "p\nx") (by decide +kernel)
    refine ⟨prepared,mid,result,last,prepares,commits,?_⟩
    rw [summingPatcher.rereads_written_iff linkedFiles_faithful changes commits,
      normalized_persisted_iff (.inr bom), text]
    simp [bom]

end Patcher

end Hashline
