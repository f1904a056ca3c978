import OpenAgents.Lib.Json

/- The unreleased section of a changelog: read into lists of entries by heading, entries deleted and
   added, and written back under the headings of a fixed list. -/
namespace Changelog
open JsText JsJson JsObject

def changelogCategories : List JsString :=
  [js "Breaking Changes", js "Added", js "Changed", js "Deprecated", js "Removed", js "Fixed", js "Security"]

/- A list of the object's own; none for what the object has from its prototype. -/
abbrev Sections := List (JsString × Option (List JsString))

/- Entries by heading, as a proposal has them; the tool that takes it knows no headings but the categories. -/
abbrev EntryMap := List (JsString × List JsString)

inductive Failure where
  | error (message : JsString)
  | typeError
  deriving DecidableEq, Repr

structure UnreleasedSection where
  startLine : Nat
  endLine : Nat
  entries : Sections
  deriving DecidableEq, Repr

def lowerLetter (c : CodeUnit) : CodeUnit := if 65 ≤ c && c ≤ 90 then c + 32 else c

/- The pattern of the heading, `##`, white space and `[Unreleased]`, the bracket optional. -/
def isUnreleasedHeading (line : JsString) : Bool :=
  let behind := line.drop 2
  let name := trimStart behind
  let word := if startsWith name (js "[") then name.drop 1 else name
  startsWith line (js "##") && (behind.head?.any isWhitespace) && startsWith (word.map lowerLetter) (js "unreleased")

def isLineTerminator (c : CodeUnit) : Bool := c == lineFeed || c == carriageReturn || c == 0x2028 || c == 0x2029

/- The group of the section pattern: all behind `###` and white space, up to the end of the line. -/
def sectionMatch (line : JsString) : Option JsString :=
  let behind := line.drop 3
  let name := trimStart behind
  if startsWith line (js "###") && (behind.head?.any isWhitespace) && !(name.any isLineTerminator) then some name
  else none

def withoutBullet (text : JsString) : JsString :=
  match text with
  | [] => []
  | c :: rest => if c = 45 || c = 42 then trimStart rest else c :: rest

def sectionEnd (lines : List JsString) (startIndex : Nat) : Nat :=
  match (lines.drop (startIndex + 1)).findIdx? fun line => startsWith line (js "## ") with
  | none => lines.length
  | some i => startIndex + 1 + i

/- `current` is empty while there is no section. -/
structure ParseState where
  current : JsString
  entries : Sections

def openSection (entries : Sections) (name : JsString) : Sections :=
  let known := (getField entries name).getD (if inheritedNames.contains name then none else some [])
  assignField entries name known

def pushEntry (entries : Sections) (name entry : JsString) : Except Failure Sections :=
  match getField entries name with
  | some (some items) => .ok (assignField entries name (some (items ++ [entry])))
  | _ => .error .typeError

def parseLine (state : ParseState) (line : JsString) : Except Failure ParseState :=
  match sectionMatch line with
  | some group =>
      let currentSection := trim group
      if currentSection.isEmpty then .ok ⟨[],state.entries⟩
      else .ok ⟨currentSection,openSection state.entries currentSection⟩
  | none =>
      let trimmed := trim line
      let entry := withoutBullet trimmed
      if state.current.isEmpty || !startsWith trimmed (js "-") || entry.isEmpty then .ok state
      else do
        let entries ← pushEntry state.entries state.current entry
        .ok ⟨state.current,entries⟩

def parseUnreleasedSection (content : JsString) : Except Failure UnreleasedSection :=
  let lines := splitLines content
  match lines.findIdx? fun line => isUnreleasedHeading (trim line) with
  | none => .error (.error (js "No [Unreleased] section found in changelog"))
  | some startIndex => do
      let endIndex := sectionEnd lines startIndex
      let sectionLines := (lines.take endIndex).drop (startIndex + 1)
      let state ← sectionLines.foldlM parseLine ⟨[],[]⟩
      .ok ⟨startIndex,endIndex,state.entries⟩

def withoutPeriod (text : JsString) : JsString := if text.getLast? = some 46 then text.dropLast else text

def normalizeEntries (entries : EntryMap) : EntryMap :=
  entries.foldl (fun result (heading, items) =>
    let trimmed := (items.map fun item => withoutPeriod (trim item)).filter fun item => 0 < item.length
    if trimmed.isEmpty then result else assignField result heading (trimmed.map trim).eraseDups) []

section
variable (toLowerCase : JsString → JsString)

def hasLower (items : List JsString) (item : JsString) : Bool := (items.map toLowerCase).contains (toLowerCase item)

/- What is read of a section that the object does not have is an empty list, or a function of its prototype. -/
def deletionsAt (deletions : EntryMap) (heading : JsString) : Except Failure (List JsString) :=
  match getField deletions heading with
  | some items => .ok items
  | none => if inheritedNames.contains heading then .error .typeError else .ok []

def deleteFrom (deletions : EntryMap) (result : Sections) (existing : JsString × Option (List JsString)) :
    Except Failure Sections := do
  let toDelete ← deletionsAt deletions existing.1
  match existing.2 with
  | none => .error .typeError
  | some items =>
      let filtered := items.filter fun item => !hasLower toLowerCase toDelete item
      .ok (if 0 < filtered.length then assignField result existing.1 (some filtered) else result)

def applyDeletions (existing : Sections) (deletions : EntryMap) : Except Failure Sections :=
  existing.foldlM (deleteFrom toLowerCase deletions) []

def currentAt (merged : Sections) (heading : JsString) : Except Failure (List JsString) :=
  match getField merged heading with
  | some (some items) => .ok items
  | some none => .error .typeError
  | none => if inheritedNames.contains heading then .error .typeError else .ok []

/- The entries of `current` are looked up as they were before the loop. -/
def mergeInto (merged : Sections) (incoming : JsString × List JsString) : Except Failure Sections := do
  let current ← currentAt merged incoming.1
  let added := incoming.2.filter fun item => !hasLower toLowerCase current item
  .ok (assignField merged incoming.1 (some (current ++ added)))

def mergeEntries (existing : Sections) (incoming : EntryMap) : Except Failure Sections :=
  incoming.foldlM (mergeInto toLowerCase) existing

def renderedItems (entries : Sections) (heading : JsString) : List JsString := ((getField entries heading).getD none).getD []

def renderSection (items : List JsString) (heading : JsString) : List JsString :=
  if items.isEmpty then [] else [js "### " ++ heading] ++ items.map (js "- " ++ ·) ++ [[]]

def renderUnreleasedSections (entries : Sections) : List JsString :=
  let lines := [[]] ++ changelogCategories.flatMap fun heading => renderSection (renderedItems entries heading) heading
  if lines.getLast? = some [] then lines.dropLast else lines

def applyChangelogEntries (content : JsString) (unreleased : UnreleasedSection) (entries : EntryMap)
    (deletions : Option EntryMap) : Except Failure JsString := do
  let lines := splitLines content
  let before := lines.take (unreleased.startLine + 1)
  let after := lines.drop unreleased.endLine
  let base ← match deletions with
    | none => .ok unreleased.entries
    | some deletions => applyDeletions toLowerCase unreleased.entries deletions
  let merged ← mergeEntries toLowerCase base entries
  .ok (joinLines (before ++ renderUnreleasedSections merged ++ after))

/- How a proposal changes the text of a changelog. -/
def updateChangelog (content : JsString) (entries : EntryMap) (deletions : Option EntryMap) : Except Failure JsString := do
  let unreleased ← parseUnreleasedSection content
  applyChangelogEntries toLowerCase content unreleased (normalizeEntries entries) (deletions.map normalizeEntries)

/- Writes nothing when there is nothing to apply or no section to apply it to. -/
def applyChangelogProposal (content : JsString) (entries : EntryMap) (deletions : Option EntryMap) :
    Except Failure (Option JsString) :=
  if entries.isEmpty && (deletions.getD []).isEmpty then .ok none
  else
    match parseUnreleasedSection content with
    | .error _ => .ok none
    | .ok unreleased =>
        let normalized := normalizeEntries entries
        if normalized.isEmpty && deletions.isNone then .ok none
        else (applyChangelogEntries toLowerCase content unreleased normalized (deletions.map normalizeEntries)).map some

end

end Changelog
