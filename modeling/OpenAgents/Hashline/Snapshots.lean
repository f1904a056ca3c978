import OpenAgents.Lib.LruMap
import OpenAgents.Hashline.Apply
import OpenAgents.Lib.FallibleState

/- The in-memory snapshot store: full-file versions per path, found again by the
   tag computed from their text. -/
namespace Hashline
open JsText LruMap RecentFirst

def isTrailingBlank (c : CodeUnit) : Bool := c == 32 || c == 9 || c == 13

def normalizeFileHashText (text : JsString) : JsString :=
  joinLines ((splitLines text).map fun line => line.rdropWhile isTrailingBlank)

def upperHexDigit (n : Nat) : CodeUnit := UInt16.ofNat (if n < 10 then 48 + n else 55 + n)

def hexTag (low16 : Nat) : JsString :=
  [upperHexDigit (low16 / 4096 % 16), upperHexDigit (low16 / 256 % 16),
    upperHexDigit (low16 / 16 % 16), upperHexDigit (low16 % 16)]

/- `xxHash32` stands for the runtime's hash with seed 0. -/
def computeFileHash (xxHash32 : JsString → Nat) (text : JsString) : JsString :=
  hexTag (xxHash32 (normalizeFileHashText text) % 65536)

structure Snapshot where
  path : JsString
  text : JsString
  hash : JsString
  recordedAt : Nat
  deriving DecidableEq, Repr

structure InMemorySnapshotStore (maxPaths : Nat) where
  versions : Lru JsString (List Snapshot) maxPaths
  maxVersionsPerPath : Nat

namespace InMemorySnapshotStore
variable {maxPaths : Nat}

def new (maxPaths maxVersionsPerPath : Nat) : InMemorySnapshotStore maxPaths :=
  ⟨empty maxPaths,maxVersionsPerPath⟩

def history (st : InMemorySnapshotStore maxPaths) (path : JsString) : List Snapshot :=
  (find st.versions path).getD []

/- Both reads refresh the recency of the path. -/
def head (st : InMemorySnapshotStore maxPaths) (path : JsString) :
    Option Snapshot × InMemorySnapshotStore maxPaths :=
  ((st.history path).head?, { st with versions := touch st.versions path })

def byHash (st : InMemorySnapshotStore maxPaths) (path hash : JsString) :
    Option Snapshot × InMemorySnapshotStore maxPaths :=
  ((st.history path).find? (·.hash == hash), { st with versions := touch st.versions path })

/-- The versions of a path after recording. A known version is the first one with the
    tag; it is refreshed in place and, unless it stands there already, moved to the head. -/
def recordVersion (history : List Snapshot) (limit : Nat) (snapshot : Snapshot) : List Snapshot :=
  match history.find? (·.hash == snapshot.hash) with
  | some existing =>
      { existing with recordedAt := snapshot.recordedAt } ::
        history.eraseP fun version => version.hash == snapshot.hash
  | none => (snapshot :: history).take limit

def record (xxHash32 : JsString → Nat) (st : InMemorySnapshotStore maxPaths) (path fullText : JsString)
    (now : Nat) : JsString × InMemorySnapshotStore maxPaths :=
  let hash := computeFileHash xxHash32 fullText
  let versions := recordVersion (st.history path) st.maxVersionsPerPath ⟨path,fullText,hash,now⟩
  (hash, { st with versions := set (touch st.versions path) path versions })

def invalidate (st : InMemorySnapshotStore maxPaths) (path : JsString) :
    InMemorySnapshotStore maxPaths := { st with versions := delete st.versions path }

def clear (st : InMemorySnapshotStore maxPaths) : InMemorySnapshotStore maxPaths :=
  { st with versions := empty maxPaths }

end InMemorySnapshotStore

end Hashline

/- Stale tags: the message of a rejected section, and the two ways in which its edits may still
   be brought onto the live text. -/
namespace Hashline
open JsText

/- Mismatch messages -/

structure MismatchDetails where
  path : JsString
  expectedFileHash : JsString
  actualFileHash : JsString
  fileLines : List JsString
  anchorLines : List Nat
  hashRecognized : Bool
  deriving DecidableEq, Repr

def sortLines (lines : List Nat) : List Nat := lines.dedup.mergeSort fun a b => a ≤ b

def getMismatchDisplayLines (anchorLines : List Nat) (fileLines : List JsString) : List Nat :=
  sortLines (anchorLines.flatMap fun line =>
    if line < 1 ∨ fileLines.length < line then []
    else
      let lo := max 1 (line - mismatchContext)
      let hi := min fileLines.length (line + mismatchContext)
      List.range' lo (hi + 1 - lo))

def rejectionHeader (details : MismatchDetails) : List JsString :=
  let pathText := if details.path = [] then [] else js " for " ++ details.path
  if details.hashRecognized then
    [js "Edit rejected" ++ pathText ++ js ": file changed between read and edit.",
      js "Section is bound to #" ++ details.expectedFileHash ++ js ", but the current file hashes to #" ++
        details.actualFileHash ++
        js ". If a prior edit in this session modified this file, copy the ¶path#newhash header from that edit's response; otherwise re-read the file with `read` to refresh the tag before retrying."]
  else
    [js "Edit rejected" ++ pathText ++ js ": hash #" ++ details.expectedFileHash ++ js " is not from this session.",
      js "The current file hashes to #" ++ details.actualFileHash ++
        js ". Re-read the file with `read` to copy a current ¶path#tag header — never invent the tag and never reuse one from a prior session."]

/- A gap between shown lines is marked. -/
def displayedLines (details : MismatchDetails) : Option Nat → List Nat → List JsString
  | _, [] => []
  | previous, lineNum :: rest =>
      let text := (details.fileLines[lineNum - 1]?).getD []
      let marker := if lineNum ∈ details.anchorLines then js "*" else js " "
      (if previous.any fun p => p + 1 < lineNum then [js "..."] else []) ++
        (marker ++ decimal lineNum ++ js ":" ++ text) :: displayedLines details (some lineNum) rest

def formatMessage (details : MismatchDetails) : JsString :=
  let displayLines := getMismatchDisplayLines details.anchorLines details.fileLines
  if displayLines.isEmpty then joinLines (rejectionHeader details)
  else joinLines (rejectionHeader details ++ [] :: displayedLines details none displayLines)

/- Recovery -/

/- `mergeOnto previous applied current` stands for the diff package: the patch from `previous` to
   `applied`, with three lines of context, applied to `current` without fuzz. -/
section Strategies
variable (mergeOnto : JsString → JsString → JsString → Option JsString)

def findFirstChangedLine (a b : JsString) : Option Nat :=
  if a = b then none
  else
    let aLines := splitLines a
    let bLines := splitLines b
    ((List.range (max aLines.length bLines.length)).find? fun i => aLines[i]? ≠ bLines[i]?).map (· + 1)

def applyEditsToSnapshot (previousText currentText : JsString) (edits : List Edit)
    (recoveryWarning : JsString) : Option ApplyResult :=
  match applyEdits previousText edits with
  | .error _ => none
  | .ok applied =>
      if applied.text = previousText then none
      else
        match mergeOnto previousText applied.text currentText with
        | none => none
        | some merged =>
            if merged = currentText then none
            else
              let firstChangedLine := (findFirstChangedLine currentText merged).or applied.firstChangedLine
              let warnings :=
                if firstChangedLine.isSome then recoveryWarning :: applied.warnings else applied.warnings
              some ⟨merged,firstChangedLine,warnings⟩

def anchorLineOf : Edit → List Nat
  | .applied edit => (getEditAnchors edit).map Anchor.line
  | .block edit => [edit.anchor.line]

def collectAnchorLines (edits : List Edit) : List Nat := edits.flatMap anchorLineOf

def verifyAnchorContent (previousText currentText : JsString) (edits : List Edit) : Bool :=
  let prev := splitLines previousText
  let curr := splitLines currentText
  (collectAnchorLines edits).all fun line =>
    decide (1 ≤ line ∧ line ≤ prev.length ∧ line ≤ curr.length) && prev[line - 1]? == curr[line - 1]?

def replaySessionChainOnCurrent (previousText currentText : JsString) (edits : List Edit) :
    Option ApplyResult :=
  if (splitLines previousText).length ≠ (splitLines currentText).length then none
  else if verifyAnchorContent previousText currentText edits = false then none
  else
    match applyEdits currentText edits with
    | .error _ => none
    | .ok applied =>
        if applied.text = currentText then none
        else some { applied with warnings := recoverySessionReplayWarning :: applied.warnings }

/- The version is the head when the first version carries the tag as well. -/
def tryRecover {maxPaths : Nat} (store : InMemorySnapshotStore maxPaths) (path currentText fileHash : JsString)
    (edits : List Edit) : Option ApplyResult × InMemorySnapshotStore maxPaths :=
  match store.byHash path fileHash with
  | (none, store) => (none, store)
  | (some snapshot, store) =>
      let head := store.head path
      let isHead := head.1.any fun version => version.hash == fileHash
      let recoveryWarning := if isHead then recoveryExternalWarning else recoverySessionChainWarning
      match applyEditsToSnapshot mergeOnto snapshot.text currentText edits recoveryWarning with
      | some merged => (some merged, head.2)
      | none =>
          if isHead then (none, head.2)
          else (replaySessionChainOnCurrent snapshot.text currentText edits, head.2)

end Strategies

end Hashline
