import OpenAgents.Lib.TextLines
import OpenAgents.Session.Compaction
import OpenAgents.Lib.FlatEdits

/- Large blocks of a text: fenced code and unindented XML elements. The ranges found are in order,
   apart from each other, inside the text and bounded by its lines. -/
namespace Shake
open JsText

structure BlockRange where
  start : Nat
  stop : Nat
  deriving DecidableEq, Repr

def isTagUnit (c : CodeUnit) : Bool := (97 ≤ c && c ≤ 122) || c == 95 || c == 45

def lessThan : CodeUnit := 60
def greaterThan : CodeUnit := 62
def slash : CodeUnit := 47

/- `^<([a-z_-]+)(?:\s+[^>]*)?>$`: the tag. A tag unit is neither white space nor `>`, so the tag ends
   at the first unit that is none. -/
def openingXml : JsString → Option JsString
  | [] => none
  | c :: rest =>
      let tag := rest.takeWhile isTagUnit
      let after := rest.dropWhile isTagUnit
      if c ≠ lessThan ∨ tag = [] then none
      else if after = [greaterThan] then some tag
      else if after.head?.any isWhitespace ∧ after.getLast? = some greaterThan ∧ greaterThan ∉ after.dropLast then some tag
      else none

/- `^<\/([a-z_-]+)>$` -/
def closingXml : JsString → Option JsString
  | c :: d :: rest =>
      let tag := rest.takeWhile isTagUnit
      if c = lessThan ∧ d = slash ∧ tag ≠ [] ∧ rest.dropWhile isTagUnit = [greaterThan] then some tag else none
  | _ => none

def isFenceLine (trimmedStart : JsString) : Bool :=
  startsWith trimmedStart (js "```") || startsWith trimmedStart (js "~~~")

/-- The open fence and the outermost open tag by where their lines start; open tags, innermost first. -/
structure Scan where
  fenceStart : Option Nat
  tagStack : List JsString
  xmlStart : Option Nat
  ranges : List BlockRange

def scanLine (lineStart : Nat) (line : JsString) (s : Scan) : Scan :=
  let lineEnd := lineStart + line.length
  let trimmedStart := trimStart line
  if isFenceLine trimmedStart then
    match s.fenceStart with
    | none => { s with fenceStart := some lineStart }
    | some fenceStart => { s with fenceStart := none, ranges := s.ranges ++ [⟨fenceStart,lineEnd⟩] }
  else if s.fenceStart.isSome then s
  else
    match if line.length = trimmedStart.length then openingXml trimmedStart else none with
    | some tag =>
        { s with
          tagStack := tag :: s.tagStack
          xmlStart := if s.tagStack = [] then some lineStart else s.xmlStart }
    | none =>
        match s.tagStack with
        | [] => s
        | top :: outer =>
            if closingXml trimmedStart ≠ some top then s
            else
              match outer, s.xmlStart with
              | [], some xmlStart =>
                  { s with tagStack := [], xmlStart := none, ranges := s.ranges ++ [⟨xmlStart,lineEnd⟩] }
              | _, _ => { s with tagStack := outer }

def scanLines : Nat → List JsString → Scan → Scan
  | _, [], s => s
  | lineStart, line :: rest, s => scanLines (lineStart + line.length + 1) rest (scanLine lineStart line s)

/- The ranges that start at or after the end of the last one kept. -/
def keepApart : Nat → List BlockRange → List BlockRange
  | _, [] => []
  | lastEnd, range :: rest =>
      if range.start < lastEnd then keepApart lastEnd rest else range :: keepApart range.stop rest

def mergeRanges (ranges : List BlockRange) : List BlockRange :=
  if ranges.length ≤ 1 then ranges else keepApart 0 (ranges.insertionSort fun a b => a.start ≤ b.start)

def scanTextForBlockRanges (text : JsString) : List BlockRange :=
  mergeRanges (scanLines 0 (splitLines text) ⟨none,[],none,[]⟩).ranges

/- Positions at which a line of the text starts and ends. -/
def StartsLine (text : JsString) (i : Nat) : Prop := i = 0 ∨ text[i - 1]? = some lineFeed
def EndsLine (text : JsString) (i : Nat) : Prop := i = text.length ∨ text[i]? = some lineFeed

/-- A range of whole lines of the text. -/
structure LineAligned (text : JsString) (range : BlockRange) : Prop where
  start_line : StartsLine text range.start
  stop_line : EndsLine text range.stop
  nonempty : range.start < range.stop
  inside : range.stop ≤ text.length

/- Ranges in order and apart. -/
def Apart (ranges : List BlockRange) : Prop := ranges.Pairwise fun earlier later => earlier.stop ≤ later.start

/-- Before the line at `position`, what is open started at an earlier line. -/
structure ScanInv (text : JsString) (position : Nat) (s : Scan) : Prop where
  fence : ∀ start, s.fenceStart = some start → StartsLine text start ∧ start < position
  xml : ∀ start, s.xmlStart = some start → StartsLine text start ∧ start < position
  ranges : ∀ range ∈ s.ranges, LineAligned text range

section Lines
variable {text : JsString} {lineStart : Nat} {line : JsString} {s : Scan}

theorem inv_later {position : Nat} (inv : ScanInv text lineStart s) (le : lineStart ≤ position) : ScanInv text position s := by
  constructor
  · intro start found
    obtain ⟨starts,before⟩ := inv.fence start found
    exact ⟨starts,by omega⟩
  · intro start found
    obtain ⟨starts,before⟩ := inv.xml start found
    exact ⟨starts,by omega⟩
  · exact inv.ranges

/-- A range closed by this line. -/
theorem closed_aligned {start : Nat} (starts : StartsLine text start) (before : start < lineStart)
    (ends : EndsLine text (lineStart + line.length)) (inside : lineStart + line.length ≤ text.length) :
    LineAligned text ⟨start,lineStart + line.length⟩ := by
  refine ⟨starts,ends,?_,inside⟩
  show start < lineStart + line.length
  omega

theorem inv_scanLine (inv : ScanInv text lineStart s) (starts : StartsLine text lineStart)
    (ends : EndsLine text (lineStart + line.length)) (inside : lineStart + line.length ≤ text.length) :
    ScanInv text (lineStart + line.length + 1) (scanLine lineStart line s) := by
  have kept := inv_later inv (show lineStart ≤ lineStart + line.length + 1 by omega)
  have opened : ∀ start, some lineStart = some start → StartsLine text start ∧ start < lineStart + line.length + 1 := by
    intro start same
    obtain rfl := Option.some.inj same
    exact ⟨starts,by omega⟩
  have pushed : ∀ start, StartsLine text start → start < lineStart →
      ∀ range ∈ s.ranges ++ [⟨start,lineStart + line.length⟩], LineAligned text range := by
    intro start opens before range mem
    rcases List.mem_append.mp mem with earlier | new
    · exact inv.ranges range earlier
    · obtain rfl := List.mem_singleton.mp new
      exact closed_aligned opens before ends inside
  unfold scanLine
  simp only
  split
  · cases fence : s.fenceStart with
    | none => exact ⟨opened,kept.xml,kept.ranges⟩
    | some start =>
      obtain ⟨opens,before⟩ := inv.fence start fence
      exact ⟨by simp,kept.xml,pushed start opens before⟩
  · split
    · exact kept
    · split
      · -- a tag opens; only the outermost one is remembered by its line
        refine ⟨kept.fence,?_,kept.ranges⟩
        intro start found
        by_cases outermost : s.tagStack = []
        · rw [if_pos outermost] at found
          exact opened start found
        · rw [if_neg outermost] at found
          exact kept.xml start found
      · split
        · exact kept
        · split
          · exact kept
          · split
            · rename_i xmlStart open' innermost
              obtain ⟨opens,before⟩ := inv.xml xmlStart open'
              exact ⟨kept.fence,by simp,pushed xmlStart opens before⟩
            · exact ⟨kept.fence,kept.xml,kept.ranges⟩

end Lines

/-- The lines that are left, behind what stands in front of them. -/
theorem inv_scanLines {text : JsString} (lines : List JsString) (front : JsString) (s : Scan)
    (shape : lines ≠ [] → text = front ++ joinLines lines) (starts : StartsLine text front.length)
    (inv : ScanInv text front.length s) : ∃ position, ScanInv text position (scanLines front.length lines s) := by
  induction lines generalizing front s with
  | nil => exact ⟨_,inv⟩
  | cons line rest ih =>
    have whole := shape (by simp)
    rw [TextLines.join_cons] at whole
    have inside : front.length + line.length ≤ text.length := by
      rw [whole]
      simp
    have ends : EndsLine text (front.length + line.length) := by
      cases rest with
      | nil =>
        left
        rw [whole]
        simp [TextLines.precede]
      | cons next later =>
        right
        rw [whole, ← List.append_assoc, List.getElem?_append_right (by simp)]
        simp [TextLines.precede]
    have step := inv_scanLine inv starts ends inside
    have length : front.length + line.length + 1 = (front ++ line ++ [lineFeed]).length := by
      simp [Nat.add_assoc]
    rw [scanLines, length]
    rw [length] at step
    cases rest with
    | nil => exact ⟨_,step⟩
    | cons next later =>
      have moved : text = front ++ line ++ [lineFeed] ++ joinLines (next :: later) := by
        rw [whole]
        simp [TextLines.precede, TextLines.join_cons]
      apply ih (front ++ line ++ [lineFeed]) _ (fun _ => moved)
      · right
        rw [moved, List.getElem?_append_left (by simp)]
        simp
      · exact step

theorem scanned_aligned (text : JsString) :
    ∀ range ∈ (scanLines 0 (splitLines text) ⟨none,[],none,[]⟩).ranges, LineAligned text range := by
  have shape : splitLines text ≠ [] → text = [] ++ joinLines (splitLines text) := fun _ => by
    rw [List.nil_append, join_split]
  obtain ⟨position,inv⟩ := inv_scanLines (splitLines text) [] ⟨none,[],none,[]⟩ shape (Or.inl rfl)
    ⟨by simp,by simp,by simp⟩
  exact inv.ranges

theorem keepApart_mem {lastEnd : Nat} {ranges : List BlockRange} :
    ∀ range ∈ keepApart lastEnd ranges, range ∈ ranges := by
  induction ranges generalizing lastEnd with
  | nil => simp [keepApart]
  | cons first rest ih =>
    intro range mem
    rw [keepApart] at mem
    split at mem
    · exact List.mem_cons_of_mem _ (ih range mem)
    · rcases List.mem_cons.mp mem with rfl | later
      · exact List.mem_cons_self
      · exact List.mem_cons_of_mem _ (ih range later)

theorem keepApart_apart {lastEnd : Nat} {ranges : List BlockRange} (forward : ∀ range ∈ ranges, range.start < range.stop) :
    (∀ range ∈ keepApart lastEnd ranges, lastEnd ≤ range.start) ∧ Apart (keepApart lastEnd ranges) := by
  induction ranges generalizing lastEnd with
  | nil => exact ⟨by simp [keepApart],List.Pairwise.nil⟩
  | cons first rest ih =>
    rw [List.forall_mem_cons] at forward
    rw [keepApart]
    split
    · exact ih forward.2
    · rename_i beyond
      obtain ⟨behind,apart⟩ := @ih first.stop forward.2
      have least := forward.1
      constructor
      · rw [List.forall_mem_cons]
        refine ⟨by omega,?_⟩
        intro range mem
        have := behind range mem
        omega
      · exact List.Pairwise.cons behind apart

theorem mergeRanges_mem {ranges : List BlockRange} : ∀ range ∈ mergeRanges ranges, range ∈ ranges := by
  unfold mergeRanges
  split
  · exact fun range mem => mem
  · intro range mem
    exact (List.mem_insertionSort _).mp (keepApart_mem range mem)

theorem mergeRanges_apart {ranges : List BlockRange} (forward : ∀ range ∈ ranges, range.start < range.stop) :
    Apart (mergeRanges ranges) := by
  unfold mergeRanges
  split
  · rename_i few
    match ranges, few with
    | [], _ => exact List.Pairwise.nil
    | [range], _ => exact List.pairwise_singleton _ range
  · apply (keepApart_apart _).2
    intro range mem
    exact forward range ((List.mem_insertionSort _).mp mem)

/-- The ranges found in a text hold whole lines of it, and each ends before the next starts. -/
theorem ranges_wellFormed (text : JsString) :
    Apart (scanTextForBlockRanges text) ∧ ∀ range ∈ scanTextForBlockRanges text, LineAligned text range := by
  have aligned := scanned_aligned text
  exact ⟨mergeRanges_apart fun range mem => (aligned range mem).nonempty,
    fun range mem => aligned range (mergeRanges_mem range mem)⟩

/- A fence inside an element goes with the element. -/
example : scanTextForBlockRanges (js "a\n<b>\n```\n<c>\n```\n</b>\nd") = [⟨2,22⟩] := by decide

end Shake

/- Shaking: whole tool results and large blocks of a branch are located, and later replaced in place.
   Entries are named by their index in the branch; an index -1 of a block, for content that is one
   text, is written `none`. -/
namespace Shake
open JsText JsJson Conversation OrderedMap Session

structure ShakeConfig where
  protectTokens : Int
  minSavings : Int
  protectedTools : List ProtectedToolMatcher
  fenceMinTokens : Int

def defaultShakeConfig : ShakeConfig :=
  ⟨16000,4000,[.tool (js "skill"), .predicate isSkillReadToolResult],400⟩

def aggressiveShakeConfig : ShakeConfig :=
  ⟨0,0,[.tool (js "skill"), .predicate isSkillReadToolResult],400⟩

def placeholderTokenEstimate : Nat := 16

structure ToolResultShakeRegion where
  entry : Nat
  tokens : Nat
  originalText : JsString
  label : JsString
  deriving DecidableEq

structure BlockShakeRegion where
  entry : Nat
  blockIndex : Option Nat
  start : Nat
  stop : Nat
  tokens : Nat
  originalText : JsString
  label : JsString
  deriving DecidableEq

inductive ShakeRegion where
  | toolResult (region : ToolResultShakeRegion)
  | block (region : BlockShakeRegion)
  deriving DecidableEq

namespace ShakeRegion

def entry : ShakeRegion → Nat
  | .toolResult region => region.entry
  | .block region => region.entry

def tokens : ShakeRegion → Nat
  | .toolResult region => region.tokens
  | .block region => region.tokens

def originalText : ShakeRegion → JsString
  | .toolResult region => region.originalText
  | .block region => region.originalText

end ShakeRegion

/- Texts of an entry -/

/-- The content that a text block is looked for in. -/
inductive EntryContent where
  | message (content : MessageContent)
  | blocks (content : List AssistantBlock)

def bodyContent : EntryBody → Option EntryContent
  | .message (.user message) => some (.message message.content)
  | .message (.developer message) => some (.message message.content)
  | .message (.assistant message _) => some (.blocks message.content)
  | .message (.toolResult message) => some (.message (.parts message.content))
  | .message (.custom message) => some (.message message.content)
  | .message (.hookMessage message) => some (.message message.content)
  | .customMessage _ content _ _ _ => some (.message content)
  | _ => none

def setContent : EntryBody → EntryContent → EntryBody
  | .message (.user message), .message content => .message (.user { message with content })
  | .message (.developer message), .message content => .message (.developer { message with content })
  | .message (.assistant message usage), .blocks content => .message (.assistant { message with content } usage)
  | .message (.toolResult message), .message (.parts content) => .message (.toolResult { message with content })
  | .message (.custom message), .message content => .message (.custom { message with content })
  | .message (.hookMessage message), .message content => .message (.hookMessage { message with content })
  | .customMessage customType _ display details attribution, .message content =>
      .customMessage customType content display details attribution
  | body, _ => body

def partText : ContentPart → Option JsString
  | .text block => some block.text
  | .image _ => none

def blockText : AssistantBlock → Option JsString
  | .text block => some block.text
  | _ => none

def setPartText (value : JsString) : ContentPart → ContentPart
  | .text block => .text { block with text := value }
  | part => part

def setBlockText (value : JsString) : AssistantBlock → AssistantBlock
  | .text block => .text { block with text := value }
  | block => block

/- `read` and `write` of the text slot at a block index. -/
def readText : EntryContent → Option Nat → Option JsString
  | .message (.plain text), none => some text
  | .message (.parts parts), some blockIndex => (parts[blockIndex]?).bind partText
  | .blocks blocks, some blockIndex => (blocks[blockIndex]?).bind blockText
  | _, _ => none

def writeText (value : JsString) : EntryContent → Option Nat → EntryContent
  | .message (.plain _), none => .message (.plain value)
  | .message (.parts parts), some blockIndex => .message (.parts (parts.modify blockIndex (setPartText value)))
  | .blocks blocks, some blockIndex => .blocks (blocks.modify blockIndex (setBlockText value))
  | content, _ => content

/- `getBlockTextSlot` -/
def readSlot (e : StampedEntry) (blockIndex : Option Nat) : Option JsString :=
  (bodyContent e.entry.body).bind fun content => readText content blockIndex

def writeSlot (e : StampedEntry) (blockIndex : Option Nat) (value : JsString) : StampedEntry :=
  match bodyContent e.entry.body with
  | some content => { e with entry := { e.entry with body := setContent e.entry.body (writeText value content blockIndex) } }
  | none => e

/- Collecting -/

def toolResultText (message : ToolResultMessage) : JsString := joinLines (message.content.filterMap partText)

section Collect
variable (countTokens : List JsString → Nat) (config : ShakeConfig)

def entryTokens (e : StampedEntry) : Nat :=
  match e.entry.body with
  | .message message => estimateTokens countTokens message
  | .customMessage _ (.plain text) _ _ _ => if text = [] then 0 else countTokens [text]
  | .customMessage _ (.parts parts) _ _ _ => countFragments countTokens (parts.filterMap partText)
  | _ => 0

def blockRegion (entry : Nat) (blockIndex : Option Nat) (text label : JsString) (range : BlockRange) :
    Option ShakeRegion :=
  let slice := (text.take range.stop).drop range.start
  let tokens := countTokens [slice]
  if slice = [] ∨ (tokens : Int) < config.fenceMinTokens then none
  else some (.block ⟨entry,blockIndex,range.start,range.stop,tokens,slice,label⟩)

def pushBlockRegions (entry : Nat) (blockIndex : Option Nat) (text label : JsString) : List ShakeRegion :=
  (scanTextForBlockRanges text).filterMap (blockRegion countTokens config entry blockIndex text label)

/- The loop over the blocks of a content, whose texts are given. -/
def pushTexts (entry : Nat) (label : JsString) : Nat → List (Option JsString) → List ShakeRegion
  | _, [] => []
  | blockIndex, none :: rest => pushTexts entry label (blockIndex + 1) rest
  | blockIndex, some text :: rest =>
      pushBlockRegions countTokens config entry (some blockIndex) text label ++
        pushTexts entry label (blockIndex + 1) rest

def scanContentBlocks (entry : Nat) (content : MessageContent) (label : JsString) : List ShakeRegion :=
  match content with
  | .plain text => pushBlockRegions countTokens config entry none text label
  | .parts parts => pushTexts countTokens config entry label 0 (parts.map partText)

def collectBlockRegions (entry : Nat) (e : StampedEntry) : List ShakeRegion :=
  match e.entry.body with
  | .message (.assistant message _) => pushTexts countTokens config entry (js "assistant") 0 (message.content.map blockText)
  | .message (.user message) => scanContentBlocks countTokens config entry message.content (js "user")
  | .message (.developer message) => scanContentBlocks countTokens config entry message.content (js "developer")
  | .customMessage customType content _ _ _ => scanContentBlocks countTokens config entry content customType
  | _ => []

variable (toolCallsById : OMap JsString ToolCall)

/- Tokens of the entries behind. -/
def accumulatedAfter (later : List StampedEntry) : Nat := (later.map (entryTokens countTokens)).sum

def entryRegions (entry : Nat) (e : StampedEntry) (later : List StampedEntry) : List ShakeRegion :=
  if (accumulatedAfter countTokens later : Int) < config.protectTokens then []
  else
    match getToolResultMessage e.entry with
    | some message =>
        let text := toolResultText message
        if e.prunedAt.isSome then []
        else if isProtectedToolResult message (get? toolCallsById message.toolCallId) config.protectedTools then []
        else if text = [] then []
        else [.toolResult ⟨entry,estimateTokens countTokens (.toolResult message),text,message.toolName⟩]
    | none => collectBlockRegions countTokens config entry e

def branchRegions : Nat → List StampedEntry → List ShakeRegion
  | _, [] => []
  | entry, e :: later =>
      entryRegions countTokens config toolCallsById entry e later ++ branchRegions (entry + 1) later

def savings (regions : List ShakeRegion) : Nat :=
  (regions.map fun region => region.tokens - placeholderTokenEstimate).sum

def collectShakeRegions (entries : List StampedEntry) : List ShakeRegion :=
  let regions := branchRegions countTokens config (collectToolCallsById (entries.map StampedEntry.entry)) 0 entries
  if (savings regions : Int) < config.minSavings then [] else regions

end Collect

/- Replacing -/

def applyToEntry (now : ShakeRegion → Int) (region : ShakeRegion) (replacement : JsString) (e : StampedEntry) :
    StampedEntry :=
  match region with
  | .toolResult _ => e.replaceResult replacement (now region)
  | .block block =>
      match readSlot e block.blockIndex with
      | some text => writeSlot e block.blockIndex (text.take block.start ++ replacement ++ text.drop block.stop)
      | none => e

/- `now` gives the time at which a region is replaced. -/
def applyShakeRegion (now : ShakeRegion → Int) (entries : List StampedEntry) (item : ShakeRegion × JsString) :
    List StampedEntry :=
  entries.modify item.1.entry (applyToEntry now item.1 item.2)

def regionStart : ShakeRegion → Int
  | .block region => region.start
  | .toolResult _ => -1

def applyOrder (items : List (ShakeRegion × JsString)) : List (ShakeRegion × JsString) :=
  items.insertionSort fun a b => regionStart b.1 ≤ regionStart a.1

def applyShakeRegions (now : ShakeRegion → Int) (items : List (ShakeRegion × JsString)) (entries : List StampedEntry) :
    List StampedEntry :=
  (applyOrder items).foldl (applyShakeRegion now) entries

end Shake
