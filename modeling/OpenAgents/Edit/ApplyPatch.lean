import OpenAgents.Edit.Patch
import Mathlib.Logic.Function.Basic

/- Patch operations on files. Paths are resolved by the caller's working directory; a file
   that is not there is the only way reading fails. -/
namespace Edit
open JsText TextLines Hashline

inductive Operation where
  | create
  | delete
  | update
  deriving DecidableEq, Repr

structure PatchInput where
  path : JsString
  op : Operation
  renamed : Option JsString
  diff : Option JsString
  deriving DecidableEq, Repr

structure FileChange where
  type : Operation
  path : JsString
  newPath : Option JsString
  oldContent : Option JsString
  newContent : Option JsString
  deriving DecidableEq, Repr

structure ApplyPatchResult where
  change : FileChange
  warnings : List JsString
  deriving DecidableEq, Repr

abbrev Files := JsString → Option JsString

def readExistingPatchFile (files : Files) (absolutePath path : JsString) : Except JsString JsString :=
  match files absolutePath with
  | some content => .ok content
  | none => .error (js "File not found: " ++ path)

/- An absent text and an empty one are both missing. -/
def present (text : Option JsString) : Option JsString := text.filter fun s => !s.isEmpty

section applying
variable {Score : Type} (sc : Scoring Score)

structure ApplyPatchOptions (Score : Type) where
  resolvePath : JsString → JsString
  dryRun : Bool
  fuzzyThreshold : Score
  allowFuzzy : Bool

variable (options : ApplyPatchOptions Score)

def createFile (input : PatchInput) (files : Files) : Except JsString (ApplyPatchResult × Files) :=
  let absolutePath := options.resolvePath input.path
  match present input.diff with
  | none => .error (js "Create operation requires diff (file content)")
  | some diff =>
      let normalizedContent := normalizeCreateContent diff
      let content := if endsWithLineFeed normalizedContent then normalizedContent else normalizedContent ++ [lineFeed]
      let written := if options.dryRun then files else Function.update files absolutePath (some content)
      .ok (⟨⟨.create,absolutePath,none,none,some content⟩,[]⟩, written)

def deleteFile (input : PatchInput) (files : Files) : Except JsString (ApplyPatchResult × Files) := do
  let absolutePath := options.resolvePath input.path
  let oldContent ← readExistingPatchFile files absolutePath input.path
  let written := if options.dryRun then files else Function.update files absolutePath none
  .ok (⟨⟨.delete,absolutePath,none,some oldContent,none⟩,[]⟩, written)

def updateFile (input : PatchInput) (files : Files) : Except JsString (ApplyPatchResult × Files) := do
  let absolutePath := options.resolvePath input.path
  match present input.diff with
  | none => .error (js "Update operation requires diff (hunks)")
  | some diff =>
      let originalContent ← readExistingPatchFile files absolutePath input.path
      let stripped := stripBom originalContent
      let patched ← patchText sc (normalizeToLF stripped.text) input.path diff options.fuzzyThreshold options.allowFuzzy
      let finalContent := stripped.bom ++ restoreLineEndings patched.content (detectLineEnding stripped.text)
      let destPath := ((present input.renamed).map options.resolvePath).getD absolutePath
      let isMove := destPath != absolutePath
      let moved := Function.update (Function.update files destPath (some finalContent)) absolutePath none
      let written :=
        if options.dryRun then files
        else if isMove then moved
        else Function.update files absolutePath (some finalContent)
      let newPath := if isMove then some destPath else none
      .ok (⟨⟨.update,absolutePath,newPath,some originalContent,some finalContent⟩,patched.warnings⟩, written)

def applyPatch (input : PatchInput) (files : Files) : Except JsString (ApplyPatchResult × Files) :=
  if (present input.renamed).map options.resolvePath = some (options.resolvePath input.path) then
    .error (js "rename path is the same as source path")
  else
    match input.op with
    | .create => createFile options input files
    | .delete => deleteFile options input files
    | .update => updateFile sc options input files

end applying

end Edit

/- The `apply_patch` envelope: a text of file operations, each handed to `applyPatch`. -/
namespace Edit
open JsText TextLines

def beginPatchMarker : JsString := js "*** Begin Patch"
def endPatchMarker : JsString := js "*** End Patch"
def addFileMarker : JsString := js "*** Add File: "
def deleteFileMarker : JsString := js "*** Delete File: "
def updateFileMarker : JsString := js "*** Update File: "
def moveToMarker : JsString := js "*** Move to: "

def validOpeners : List JsString := [js "<<EOF", js "<<'EOF'", js "<<\"EOF\""]

/- The lines between `<<EOF` and `EOF`, when the whole text is a heredoc. -/
def stripHeredoc (lines : List JsString) : List JsString :=
  if 2 ≤ lines.length ∧ lines.headD [] ∈ validOpeners ∧ trim (lines.getLastD []) = js "EOF" then lines.tail.dropLast
  else lines

def isAddedLine (line : JsString) : Bool := startsWith line (js "+")

def opensFileOp (line : JsString) : Bool :=
  startsWith line (js "*** Add File:") || startsWith line (js "*** Delete File:") ||
    startsWith line (js "*** Update File:")

def emptyUpdate (path : JsString) : JsString := js "Update file hunk for path '" ++ path ++ js "' is empty"

def invalidHeader (firstLine : JsString) : JsString :=
  js "'" ++ firstLine ++ js "' is not a valid hunk header. Valid hunk headers: '*** Add File: \x7bpath\x7d', '*** Delete File: \x7bpath\x7d', '*** Update File: \x7bpath\x7d'"

def movePath? (remaining : List JsString) : Option JsString :=
  match remaining with
  | line :: _ => if startsWith line moveToMarker then some (line.drop moveToMarker.length) else none
  | [] => none

/- One unit of fuel for each line; `lineNumber` counts the opening marker as line 1. -/
def parseHunkList (streaming : Bool) : Nat → Nat → List JsString → Except JsString (List PatchInput)
  | 0, _, _ => .ok []
  | _ + 1, _, [] => .ok []
  | fuel + 1, lineNumber, line :: rest =>
      let firstLine := trim line
      if firstLine.isEmpty then parseHunkList streaming fuel (lineNumber + 1) rest
      else if startsWith firstLine addFileMarker then do
        let added := rest.takeWhile isAddedLine
        let contents := terminate (added.map (·.drop 1))
        let later ← parseHunkList streaming fuel (lineNumber + 1 + added.length) (rest.drop added.length)
        .ok (⟨firstLine.drop addFileMarker.length,.create,none,some contents⟩ :: later)
      else if startsWith firstLine deleteFileMarker then do
        let later ← parseHunkList streaming fuel (lineNumber + 1) rest
        .ok (⟨firstLine.drop deleteFileMarker.length,.delete,none,none⟩ :: later)
      else if startsWith firstLine updateFileMarker then do
        let path := firstLine.drop updateFileMarker.length
        let movePath := movePath? rest
        let body := if movePath.isSome then rest.tail else rest
        let diffLines := body.takeWhile fun line => !opensFileOp line
        let bodyStart := if movePath.isSome then lineNumber + 2 else lineNumber + 1
        if diffLines.isEmpty && !streaming then .error (parseError (emptyUpdate path) bodyStart)
        else do
          let later ← parseHunkList streaming fuel (bodyStart + diffLines.length) (body.drop diffLines.length)
          .ok (⟨path,.update,movePath,some (joinLines diffLines)⟩ :: later)
      else if streaming then .ok []
      else .error (parseError (invalidHeader firstLine) lineNumber)

def parseApplyPatchWithOptions (patchText : JsString) (streaming : Bool) : Except JsString (List PatchInput) :=
  let lines := stripHeredoc (splitLines (trim patchText))
  if lines.isEmpty || trim (lines.headD []) != beginPatchMarker then
    if streaming then .ok [] else .error (js "The first line of the patch must be '*** Begin Patch'")
  else
    let hasEndMarker := trim (lines.getLastD []) == endPatchMarker
    if !hasEndMarker && !streaming then .error (js "The last line of the patch must be '*** End Patch'")
    else
      let remaining := if hasEndMarker then lines.tail.dropLast else lines.tail
      parseHunkList streaming remaining.length 2 remaining

def parseApplyPatch (patchText : JsString) : Except JsString (List PatchInput) := parseApplyPatchWithOptions patchText false
def parseApplyPatchStreaming (patchText : JsString) : Except JsString (List PatchInput) :=
  parseApplyPatchWithOptions patchText true

structure AffectedPaths where
  added : List JsString
  modified : List JsString
  deleted : List JsString
  deriving DecidableEq, Repr

def recordAffected (affected : AffectedPaths) (hunk : PatchInput) : AffectedPaths :=
  match hunk.op with
  | .create => { affected with added := affected.added ++ [hunk.path] }
  | .delete => { affected with deleted := affected.deleted ++ [hunk.path] }
  | .update => { affected with modified := affected.modified ++ [hunk.path] }

structure ApplyCodexPatchResult where
  results : List ApplyPatchResult
  affected : AffectedPaths
  deriving DecidableEq, Repr

section applying
variable {Score : Type} (sc : Scoring Score) (options : ApplyPatchOptions Score)

/- The files stay as the last hunk that succeeded left them; an error ends the run. -/
def applyHunkList (hunks : List PatchInput) (done : ApplyCodexPatchResult) (files : Files) :
    Except JsString ApplyCodexPatchResult × Files :=
  match hunks with
  | [] => (.ok done, files)
  | hunk :: rest =>
      match applyPatch sc options hunk files with
      | .error message => (.error message, files)
      | .ok (result, written) =>
          applyHunkList rest ⟨done.results ++ [result],recordAffected done.affected hunk⟩ written

def applyCodexPatch (patchText : JsString) (files : Files) : Except JsString ApplyCodexPatchResult × Files :=
  match parseApplyPatch patchText with
  | .error message => (.error message, files)
  | .ok hunks =>
      if hunks.isEmpty then (.error (js "No files were modified."), files)
      else applyHunkList sc options hunks ⟨[],⟨[],[],[]⟩⟩ files

end applying

end Edit
