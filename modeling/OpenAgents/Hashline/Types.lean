import OpenAgents.Lib.JsText

/- Data shared by the hashline parser, block resolver and applier. -/
namespace Hashline
open JsText

/-- Line numbers are 1-indexed. -/
structure Anchor where
  line : Nat
  deriving DecidableEq, Repr

inductive Cursor where
  | bof
  | eof
  | beforeAnchor (anchor : Anchor)
  | afterAnchor (anchor : Anchor)
  deriving DecidableEq, Repr

/- `literal` stands for an insert whose `mode` is absent. -/
inductive InsertMode where
  | literal
  | replacement
  deriving DecidableEq, Repr

structure InsertEdit where
  cursor : Cursor
  text : JsString
  lineNum : Nat
  index : Nat
  mode : InsertMode
  deriving DecidableEq, Repr

structure DeleteEdit where
  anchor : Anchor
  lineNum : Nat
  index : Nat
  deriving DecidableEq, Repr

/-- Empty payloads mean a pure block deletion. -/
structure BlockEdit where
  anchor : Anchor
  payloads : List JsString
  lineNum : Nat
  index : Nat
  deriving DecidableEq, Repr

inductive AppliedEdit where
  | insert (edit : InsertEdit)
  | delete (edit : DeleteEdit)
  deriving DecidableEq, Repr

inductive Edit where
  | applied (edit : AppliedEdit)
  | block (edit : BlockEdit)
  deriving DecidableEq, Repr

structure ApplyResult where
  text : JsString
  firstChangedLine : Option Nat
  warnings : List JsString
  deriving DecidableEq, Repr

structure ParsedRange where
  start : Anchor
  stop : Anchor
  deriving DecidableEq, Repr

structure BlockSpan where
  start : Nat
  stop : Nat
  deriving DecidableEq, Repr

structure BlockResolverRequest where
  path : JsString
  text : JsString
  line : Nat
  deriving DecidableEq, Repr

abbrev BlockResolver := BlockResolverRequest → Option BlockSpan

def Edit.isBlock : Edit → Bool
  | .applied _ => false
  | .block _ => true

end Hashline

/- Sigils, keywords, and the error and warning texts of the hashline core. -/
namespace Hashline
open JsText

def filePrefix : JsString := js "¶"
def payloadReplace : CodeUnit := 43
def headerColon : CodeUnit := 58
def replaceKeyword : JsString := js "replace"
def blockKeyword : JsString := js "block"
def deleteKeyword : JsString := js "delete"
def insertKeyword : JsString := js "insert"
def insertBefore : JsString := js "before"
def insertAfter : JsString := js "after"
def insertHead : JsString := js "head"
def insertTail : JsString := js "tail"
def fileHashLength : Nat := 4

def beginPatchMarker : JsString := js "*** Begin Patch"
def endPatchMarker : JsString := js "*** End Patch"
def abortMarker : JsString := js "*** Abort"

def bareBodyAutoPipedWarning : JsString :=
  js "Auto-prefixed bare body row(s) with `+`. Body rows must be `+TEXT` literal lines; pasting raw code as payload is not a portable shape."

def minusRowRejected : JsString :=
  js "`-` rows are not valid; hashline ranges already name the lines being changed. To insert a literal line starting with `-`, write `+-…`."

def emptyReplace : JsString :=
  js "`replace N..M:` needs at least one `+TEXT` body row. To delete lines, use `delete N..M`."

def emptyBlock : JsString :=
  js "`replace block N:` needs at least one `+TEXT` body row. To delete a block, use `delete N..M` with the block's line range."

def emptyInsert : JsString := js "`insert` needs at least one `+TEXT` body row."

def deleteTakesNoBody : JsString :=
  js "`delete N..M` does not take body rows. Remove the body, or use `replace N..M:`."

def deleteBlockTakesNoBody : JsString :=
  js "`delete block N` does not take body rows. Remove the body, or use `replace block N:` to replace the block."

def blockResolverUnavailable : JsString :=
  js "`replace block N:` is not available here (no tree-sitter block resolver is configured). Use `replace N..M:` with an explicit range."

def unresolvedBlockInternal : JsString :=
  js "internal error: unresolved `replace block` edit reached the applier (resolveBlockEdits was not run)."

def blockUnresolvedMessage (line : Nat) : JsString :=
  js "`replace block " ++ decimal line ++ js ":` could not resolve a syntactic block beginning on line " ++
    decimal line ++
    js ". The language may be unsupported, the line may be blank or a closing delimiter, or the block may not parse. Use `replace " ++
    decimal line ++ js "..M:` with the block's explicit end line instead."

def mismatchContext : Nat := 2

def recoveryExternalWarning : JsString :=
  js "Recovered from a stale file hash using a previous read snapshot (file changed externally between read and edit)."

def recoverySessionChainWarning : JsString :=
  js "Recovered from a stale file hash using an earlier in-session snapshot (the file hash advanced after a prior edit in this session)."

def recoverySessionReplayWarning : JsString :=
  js "Recovered by replaying your edits onto the current file content — your previous edit in this session changed line(s) you re-targeted with a stale hash. Verify the diff matches your intent before continuing."

def headtailDriftWarning : JsString :=
  js "Applied an `insert head:`/`insert tail:` edit onto the current file content even though the snapshot tag was stale (the file changed since your read). Head/tail position is content-independent, so the insert was not rejected — but re-read if the drift was unexpected."

def fileHashSep : JsString := js "#"

def formatHashlineHeader (filePath fileHash : JsString) : JsString :=
  filePrefix ++ filePath ++ fileHashSep ++ fileHash

def lineBodySep : JsString := js ":"

def formatNumberedLine (lineNumber : Nat) (line : JsString) : JsString := decimal lineNumber ++ lineBodySep ++ line

def numberedFrom (startLine : Nat) : List JsString → List JsString
  | [] => []
  | line :: rest => formatNumberedLine startLine line :: numberedFrom (startLine + 1) rest

/- The first line is 1 where a caller names none. -/
def formatNumberedLines (text : JsString) (startLine : Nat) : JsString := joinLines (numberedFrom startLine (splitLines text))

def missingSnapshotTagMessage (sectionPath : JsString) : JsString :=
  js "Missing hashline snapshot tag for edit to " ++ sectionPath ++ js "; use `" ++
    formatHashlineHeader sectionPath (js "tag") ++
    js "` from your latest read/search output. To create a new file, use the write tool."

def atLine (lineNum : Nat) (message : JsString) : JsString :=
  js "line " ++ decimal lineNum ++ js ": " ++ message

end Hashline
