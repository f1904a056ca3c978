import OpenAgents.Hashline.Parser
import OpenAgents.Hashline.Normalize
import OpenAgents.Hashline.Snapshots

/- Expanding deferred block edits once the file text is known. -/
namespace Hashline
open JsText

inductive OnUnresolved where
  | throw
  | drop
  deriving DecidableEq, Repr

def hasBlockEdit (edits : List Edit) : Bool := edits.any Edit.isBlock

/- The expansion of one block: replacement inserts at the span start, then one delete a line. -/
def expandBlock (edit : BlockEdit) (span : BlockSpan) (synthIndex : Nat) : List Edit :=
  edit.payloads.mapIdx (fun i payload =>
    .applied (.insert ⟨.beforeAnchor ⟨span.start⟩,payload,edit.lineNum,synthIndex + i,.replacement⟩)) ++
  (spanLines span.start span.stop).mapIdx fun i line =>
    .applied (.delete ⟨⟨line⟩,edit.lineNum,synthIndex + edit.payloads.length + i⟩)

def resolveSpan (resolver : Option BlockResolver) (path text : JsString) (line : Nat) :
    Option BlockSpan :=
  match resolver with
  | some resolve => resolve ⟨path,text,line⟩
  | none => none

def unresolvedMessage (resolver : Option BlockResolver) (edit : BlockEdit) : JsString :=
  atLine edit.lineNum
    (if resolver.isSome then blockUnresolvedMessage edit.anchor.line else blockResolverUnavailable)

def resolveFrom (resolver : Option BlockResolver) (path text : JsString) (onUnresolved : OnUnresolved) :
    Nat → List Edit → Except JsString (List Edit)
  | _, [] => .ok []
  | synthIndex, .applied edit :: rest => do
      let later ← resolveFrom resolver path text onUnresolved synthIndex rest
      .ok (.applied edit :: later)
  | synthIndex, .block edit :: rest =>
      match resolveSpan resolver path text edit.anchor.line with
      | none =>
          match onUnresolved with
          | .drop => resolveFrom resolver path text onUnresolved synthIndex rest
          | .throw => .error (unresolvedMessage resolver edit)
      | some span => do
          let expanded := expandBlock edit span synthIndex
          let later ← resolveFrom resolver path text onUnresolved (synthIndex + expanded.length) rest
          .ok (expanded ++ later)

def resolveBlockEdits (edits : List Edit) (text path : JsString) (resolver : Option BlockResolver)
    (onUnresolved : OnUnresolved) : Except JsString (List Edit) :=
  if hasBlockEdit edits then resolveFrom resolver path text onUnresolved 0 edits else .ok edits

end Hashline

/- The patcher: each section is read, checked and applied in memory; then the results are
   written. A file system is given by where its paths lead and how it stores a text. -/
namespace Hashline
open JsText FallibleState

structure Filesystem (File : Type) where
  canonicalPath : JsString → JsString
  /- The file that reads and writes of a path reach, links followed. -/
  locate : JsString → File
  preflightWrite : JsString → Except JsString Unit
  /- The stored form of a text, and the text a stored form is read as. -/
  encode : JsString → JsString → Except JsString JsString
  decode : JsString → JsString → Except JsString JsString

/- `none` when there is no such file. -/
def Filesystem.readText {File : Type} (fs : Filesystem File) (disk : File → Option JsString) (path : JsString) :
    Except JsString (Option JsString) :=
  match disk (fs.locate path) with
  | none => .ok none
  | some stored => (fs.decode path stored).map some

structure Patcher (File : Type) where
  fs : Filesystem File
  blockResolver : Option BlockResolver
  xxHash32 : JsString → Nat
  mergeOnto : JsString → JsString → JsString → Option JsString
  now : Nat

/- `writes` are the calls of `writeText` so far. -/
structure World (File : Type) (maxPaths : Nat) where
  disk : File → Option JsString
  snapshots : InMemorySnapshotStore maxPaths
  writes : List (JsString × JsString)

structure PatchSection where
  path : JsString
  fileHash : Option JsString
  diff : JsString
  deriving DecidableEq, Repr

def PatchSection.parse (sec : PatchSection) : Except JsString ParseResult := parsePatch sec.diff

structure PreparedSection where
  sec : PatchSection
  canonicalPath : JsString
  «exists» : Bool
  rawContent : JsString
  bom : JsString
  lineEnding : LineEnding
  normalized : JsString
  applyResult : ApplyResult
  parseWarnings : List JsString
  deriving DecidableEq, Repr

def PreparedSection.isNoop (prepared : PreparedSection) : Bool :=
  prepared.applyResult.text = prepared.normalized

inductive Op where
  | create
  | update
  | noop
  deriving DecidableEq, Repr

structure PatchSectionResult where
  path : JsString
  canonicalPath : JsString
  op : Op
  before : JsString
  after : JsString
  persisted : JsString
  written : JsString
  fileHash : JsString
  header : JsString
  firstChangedLine : Option Nat
  warnings : List JsString
  deriving DecidableEq, Repr

def hasAnchorScopedEdit (edits : List Edit) : Bool :=
  edits.any fun edit =>
    match edit with
    | .applied (.delete _) => true
    | .block _ => true
    | .applied (.insert e) => e.cursor matches .beforeAnchor _ | .afterAnchor _

def assertSectionHashPresent (sectionPath : JsString) (fileHash : Option JsString) : Except JsString Unit :=
  match fileHash with
  | some _ => .ok ()
  | none => .error (missingSnapshotTagMessage sectionPath)

/- The first section whose canonical path an earlier one has. -/
def assertUniqueFrom : List (JsString × JsString) → List PreparedSection → Except JsString Unit
  | _, [] => .ok ()
  | seen, entry :: rest =>
      match seen.find? fun known => known.1 = entry.canonicalPath with
      | some previous =>
          .error (js "Multiple hashline sections resolve to the same file (" ++ previous.2 ++ js " and " ++
            entry.sec.path ++ js "). Merge their ops under one header before applying.")
      | none => assertUniqueFrom ((entry.canonicalPath, entry.sec.path) :: seen) rest

def assertUniqueCanonicalPaths (prepared : List PreparedSection) : Except JsString Unit :=
  assertUniqueFrom [] prepared

def assertNoNoop (prepared : List PreparedSection) : Except JsString Unit :=
  match prepared.find? PreparedSection.isNoop with
  | some entry => .error (js "Edits to " ++ entry.sec.path ++ js " resulted in no changes being made.")
  | none => .ok ()

namespace Patcher
variable {File : Type} [DecidableEq File] {maxPaths : Nat} (p : Patcher File)

def tryRead (path : JsString) : Action (World File maxPaths) JsString (Option JsString) := fun w =>
  (p.fs.readText w.disk path, w)

def writeText (path content : JsString) : Action (World File maxPaths) JsString JsString := fun w =>
  let called := { w with writes := w.writes ++ [(path, content)] }
  match p.fs.encode path content with
  | .ok stored =>
      (.ok stored, { called with disk := fun file => if file = p.fs.locate path then some stored else w.disk file })
  | .error e => (.error e, called)

def recordFullSnapshot (canonicalPath normalized : JsString) : Action (World File maxPaths) JsString JsString :=
  updating fun w =>
    let recorded := w.snapshots.record p.xxHash32 canonicalPath normalized p.now
    (recorded.1, { w with snapshots := recorded.2 })

def byHash (canonicalPath hash : JsString) : Action (World File maxPaths) JsString (Option Snapshot) :=
  updating fun w =>
    let found := w.snapshots.byHash canonicalPath hash
    (found.1, { w with snapshots := found.2 })

def recover (canonicalPath currentText fileHash : JsString) (edits : List Edit) :
    Action (World File maxPaths) JsString (Option ApplyResult) :=
  updating fun w =>
    let recovered := tryRecover p.mergeOnto w.snapshots canonicalPath currentText fileHash edits
    (recovered.1, { w with snapshots := recovered.2 })

/- The rejection is thrown; the live text is recorded first. -/
def mismatchError {α : Type} (sec : PatchSection) (edits : List Edit) (canonicalPath normalized expected : JsString)
    (hashRecognized : Bool) : Action (World File maxPaths) JsString α := do
  let actualFileHash ← p.recordFullSnapshot canonicalPath normalized
  ofExcept (.error (formatMessage
    { path := sec.path
      expectedFileHash := expected
      actualFileHash := actualFileHash
      fileLines := splitLines normalized
      anchorLines := sortLines (collectAnchorLines edits)
      hashRecognized := hashRecognized }))

/- The text that the section tag names. -/
def baseTextOf (canonicalPath normalized : JsString) (liveMatches : Bool) :
    Option JsString → Action (World File maxPaths) JsString (Option JsString)
  | none => pure (some normalized)
  | some tag =>
      if liveMatches then pure (some normalized)
      else do
        let snapshot ← byHash canonicalPath tag
        pure (snapshot.map Snapshot.text)

def resolveEdits (sec : PatchSection) (canonicalPath normalized : JsString) (edits : List Edit)
    (expected : Option JsString) (liveMatches : Bool) : Action (World File maxPaths) JsString (List Edit) :=
  if hasBlockEdit edits then do
    let baseText ← baseTextOf canonicalPath normalized liveMatches expected
    match baseText with
    | none => p.mismatchError sec edits canonicalPath normalized (expected.getD []) false
    | some text => ofExcept (resolveBlockEdits edits text sec.path p.blockResolver .throw)
  else pure edits

def applyWithRecovery (sec : PatchSection) (canonicalPath : JsString) («exists» : Bool) (normalized : JsString)
    (edits : List Edit) : Action (World File maxPaths) JsString ApplyResult := do
  let expected := if «exists» then sec.fileHash else none
  let liveMatches := expected.any fun tag => computeFileHash p.xxHash32 normalized == tag
  let resolved ← p.resolveEdits sec canonicalPath normalized edits expected liveMatches
  match expected with
  | none => ofExcept (applyEdits normalized resolved)
  | some tag =>
      if liveMatches then ofExcept (applyEdits normalized resolved)
      else if hasAnchorScopedEdit resolved = false then do
        let result ← ofExcept (applyEdits normalized resolved)
        pure { result with warnings := headtailDriftWarning :: result.warnings }
      else do
        let recovered ← p.recover canonicalPath normalized tag resolved
        match recovered with
        | some result => pure result
        | none =>
            let snapshot ← byHash canonicalPath tag
            p.mismatchError sec edits canonicalPath normalized tag snapshot.isSome

def prepare (sec : PatchSection) : Action (World File maxPaths) JsString PreparedSection := do
  let parsed ← ofExcept sec.parse
  ofExcept (assertSectionHashPresent sec.path sec.fileHash)
  let canonicalPath := p.fs.canonicalPath sec.path
  ofExcept (p.fs.preflightWrite sec.path)
  let content ← p.tryRead sec.path
  match content with
  | none => ofExcept (.error (js "File not found: " ++ sec.path ++ js ". Use the write tool to create new files."))
  | some rawContent =>
      let stripped := stripBom rawContent
      let lineEnding := detectLineEnding stripped.text
      let normalized := normalizeToLF stripped.text
      let applyResult ← p.applyWithRecovery sec canonicalPath true normalized parsed.edits
      pure ⟨sec,canonicalPath,true,rawContent,stripped.bom,lineEnding,normalized,applyResult,parsed.warnings⟩

/- What `commit` writes. -/
def persisted (prepared : PreparedSection) : JsString :=
  prepared.bom ++ restoreLineEndings prepared.applyResult.text prepared.lineEnding

def commit (prepared : PreparedSection) : Action (World File maxPaths) JsString PatchSectionResult := do
  let sec := prepared.sec
  let after := prepared.applyResult.text
  let warnings := prepared.parseWarnings ++ prepared.applyResult.warnings
  if prepared.isNoop then
    let hash ← p.recordFullSnapshot prepared.canonicalPath prepared.normalized
    pure ⟨sec.path,prepared.canonicalPath,.noop,prepared.normalized,prepared.normalized,prepared.rawContent,
      prepared.rawContent,hash,formatHashlineHeader sec.path hash,none,warnings⟩
  else
    let written ← p.writeText sec.path (persisted prepared)
    let fileHash ← p.recordFullSnapshot prepared.canonicalPath after
    let op := if prepared.exists then Op.update else Op.create
    pure ⟨sec.path,prepared.canonicalPath,op,prepared.normalized,after,persisted prepared,written,fileHash,
      formatHashlineHeader sec.path fileHash,prepared.applyResult.firstChangedLine,warnings⟩

/- Everything `apply` does for several sections before it writes the first. -/
def prepareAll (sections : List PatchSection) : Action (World File maxPaths) JsString (List PreparedSection) := do
  let prepared ← sections.mapM p.prepare
  ofExcept (assertUniqueCanonicalPaths prepared)
  ofExcept (assertNoNoop prepared)
  pure prepared

def preflight (sections : List PatchSection) : Action (World File maxPaths) JsString Unit := do
  let _ ← p.prepareAll sections
  pure ()

def apply (sections : List PatchSection) : Action (World File maxPaths) JsString (List PatchSectionResult) :=
  match sections with
  | [sec] => do
      let prepared ← p.prepare sec
      let result ← p.commit prepared
      pure [result]
  | sections => do
      let prepared ← p.prepareAll sections
      prepared.mapM p.commit

end Patcher

end Hashline
