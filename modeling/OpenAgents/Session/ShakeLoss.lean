import OpenAgents.Session.ShakeLocal

/- What shaking takes out of a branch, and whether the texts handed to the caller still hold it. Of a
   tool result only the texts are handed over, so its images are lost. -/
namespace Shake
open JsText JsJson Conversation OrderedMap Session FlatEdits

/- An entry without the texts in its slots -/

def blankContent : EntryContent → EntryContent
  | .message (.plain _) => .message (.plain [])
  | .message (.parts parts) => .message (.parts (parts.map (setPartText [])))
  | .blocks blocks => .blocks (blocks.map (setBlockText []))

def withoutTexts (e : StampedEntry) : StampedEntry :=
  match bodyContent e.entry.body with
  | some content => { e with entry := { e.entry with body := setContent e.entry.body (blankContent content) } }
  | none => e

theorem blank_shape (content : EntryContent) : SameShape content (blankContent content) := by
  cases content with
  | message content => cases content <;> trivial
  | blocks content => trivial

theorem map_modify {α β : Type} {f : α → α} {g : α → β} (same : ∀ x, g (f x) = g x) (xs : List α) (i : Nat) :
    (xs.modify i f).map g = xs.map g := by
  apply List.ext_getElem?
  intro j
  rw [List.getElem?_map, List.getElem?_map, List.getElem?_modify]
  by_cases here : i = j
  · cases there : xs[j]? <;> simp [here, same]
  · simp [here]

theorem blank_write (value : JsString) (content : EntryContent) (blockIndex : Option Nat) :
    blankContent (writeText value content blockIndex) = blankContent content := by
  have parts : ∀ (parts : List ContentPart) i,
      (parts.modify i (setPartText value)).map (setPartText []) = parts.map (setPartText []) :=
    fun parts i => map_modify (fun part => setPartText_twice value [] part) parts i
  have blocks : ∀ (blocks : List AssistantBlock) i,
      (blocks.modify i (setBlockText value)).map (setBlockText []) = blocks.map (setBlockText []) :=
    fun blocks i => map_modify (fun block => setBlockText_twice value [] block) blocks i
  cases content with
  | message content => cases content <;> cases blockIndex <;> simp [writeText, blankContent, parts]
  | blocks content => cases blockIndex <;> simp [writeText, blankContent, blocks]

theorem withoutTexts_write (e : StampedEntry) (blockIndex : Option Nat) (value : JsString) :
    withoutTexts (writeSlot e blockIndex value) = withoutTexts e := by
  cases holds : bodyContent e.entry.body with
  | none => rw [writeSlot, holds]
  | some content =>
    have fits := shape_fits holds (blank_shape content)
    rw [withoutTexts, writeSlot_content holds, withoutTexts, holds]
    simp only [blank_write, writeSlot_holds holds, setContent_twice fits]

/- What is handed over -/

/- A text that stands in what is handed over for an entry. -/
def Offloaded (regions : List ShakeRegion) (entry : Nat) (piece : JsString) : Prop :=
  ∃ region ∈ regions, region.entry = entry ∧ piece <:+: region.originalText

/- A block that can be read back from what is handed over. -/
def PartOffloaded (regions : List ShakeRegion) (entry : Nat) : ContentPart → Prop
  | .text block => Offloaded regions entry block.text
  | .image image => Offloaded regions entry image.data ∧ Offloaded regions entry image.mimeType

/-- Of a tool result, each block is still there or handed over; of any other entry, nothing but pieces of its
    texts is gone, and each piece is handed over. -/
def KeptOrOffloaded (regions : List ShakeRegion) (entry : Nat) (e e' : StampedEntry) : Prop :=
  match getToolResultMessage e.entry with
  | some before =>
      ∃ after, getToolResultMessage e'.entry = some after ∧ after = { before with content := after.content } ∧
        ∀ part ∈ before.content, part ∈ after.content ∨ PartOffloaded regions entry part
  | none =>
      withoutTexts e' = withoutTexts e ∧
        ∀ blockIndex text, readSlot e blockIndex = some text →
          ∃ left, readSlot e' blockIndex = some left ∧ Spliced (Offloaded regions entry) text left

def LosesNothing (regions : List ShakeRegion) (before after : List StampedEntry) : Prop :=
  after.length = before.length ∧
    ∀ i e e', before[i]? = some e → after[i]? = some e' → KeptOrOffloaded regions i e e'

/- What goes, read off the entries -/

section Eligible
variable (countTokens : List JsString → Nat) (config : ShakeConfig) (toolCallsById : OMap JsString ToolCall)

/- Older than the protected tokens, not replaced before, unprotected, and with a text. -/
def eligibleResult (e : StampedEntry) (later : List StampedEntry) (message : ToolResultMessage) : Bool :=
  !decide ((accumulatedAfter countTokens later : Int) < config.protectTokens) && e.prunedAt.isNone &&
    !isProtectedToolResult message (get? toolCallsById message.toolCallId) config.protectedTools &&
      !decide (toolResultText message = [])

/- The texts that are searched for blocks. -/
def contentTexts : MessageContent → List JsString
  | .plain text => [text]
  | .parts parts => parts.filterMap partText

def searchedTexts (e : StampedEntry) : List JsString :=
  match e.entry.body with
  | .message (.assistant message _) => message.content.filterMap blockText
  | .message (.user message) => contentTexts message.content
  | .message (.developer message) => contentTexts message.content
  | .customMessage _ content _ _ _ => contentTexts content
  | _ => []

def rangeSavings (text : JsString) (range : BlockRange) : Nat :=
  let slice := (text.take range.stop).drop range.start
  if slice = [] ∨ (countTokens [slice] : Int) < config.fenceMinTokens then 0
  else countTokens [slice] - placeholderTokenEstimate

def textSavings (text : JsString) : Nat := ((scanTextForBlockRanges text).map (rangeSavings countTokens config text)).sum

def entrySavings (e : StampedEntry) (later : List StampedEntry) : Nat :=
  match getToolResultMessage e.entry with
  | some message =>
      if eligibleResult countTokens config toolCallsById e later message then
        estimateTokens countTokens (.toolResult message) - placeholderTokenEstimate
      else 0
  | none =>
      if (accumulatedAfter countTokens later : Int) < config.protectTokens then 0
      else ((searchedTexts e).map (textSavings countTokens config)).sum

def branchSavings : List StampedEntry → Nat
  | [] => 0
  | e :: later => entrySavings countTokens config toolCallsById e later + branchSavings later

/- Every image of an eligible tool result is spelled out in the texts of the result. -/
def ImagesSpelled (entries : List StampedEntry) : Prop :=
  ∀ i e message image, entries[i]? = some e → getToolResultMessage e.entry = some message →
    eligibleResult countTokens config toolCallsById e (entries.drop (i + 1)) message = true →
      .image image ∈ message.content →
        image.data <:+: toolResultText message ∧ image.mimeType <:+: toolResultText message

end Eligible

/- The regions of a branch -/

section Regions
variable {countTokens : List JsString → Nat} {config : ShakeConfig} {toolCallsById : OMap JsString ToolCall}

theorem entryRegions_result {entry : Nat} {e : StampedEntry} {later : List StampedEntry} {message : ToolResultMessage}
    (result : getToolResultMessage e.entry = some message) :
    entryRegions countTokens config toolCallsById entry e later =
      if eligibleResult countTokens config toolCallsById e later message then
        [.toolResult ⟨entry,estimateTokens countTokens (.toolResult message),toolResultText message,message.toolName⟩]
      else [] := by
  unfold entryRegions eligibleResult
  rw [result]
  by_cases recent : (accumulatedAfter countTokens later : Int) < config.protectTokens
  · simp [recent]
  · cases stamped : e.prunedAt with
    | some time => simp
    | none =>
      cases shielded : isProtectedToolResult message (get? toolCallsById message.toolCallId) config.protectedTools <;>
        by_cases empty : toolResultText message = [] <;> simp [recent, empty, shielded]

theorem savings_append (front back : List ShakeRegion) : savings (front ++ back) = savings front + savings back := by
  simp [savings]

theorem savings_pushed (entry : Nat) (blockIndex : Option Nat) (text label : JsString) :
    savings (pushBlockRegions countTokens config entry blockIndex text label) = textSavings countTokens config text := by
  unfold pushBlockRegions textSavings
  induction scanTextForBlockRanges text with
  | nil => rfl
  | cons range rest ih =>
    rw [List.map_cons, List.sum_cons, ← ih]
    by_cases skipped : (text.take range.stop).drop range.start = [] ∨
        (countTokens [(text.take range.stop).drop range.start] : Int) < config.fenceMinTokens
    · have none' : blockRegion countTokens config entry blockIndex text label range = none := if_pos skipped
      have nothing : rangeSavings countTokens config text range = 0 := if_pos skipped
      rw [List.filterMap_cons_none none', nothing, Nat.zero_add]
    · have some' : blockRegion countTokens config entry blockIndex text label range =
          some (.block ⟨entry,blockIndex,range.start,range.stop,_,_,label⟩) := if_neg skipped
      have saved : rangeSavings countTokens config text range = _ := if_neg skipped
      rw [List.filterMap_cons_some some', saved]
      rfl

theorem savings_texts (entry : Nat) (label : JsString) (texts : List (Option JsString)) (blockIndex : Nat) :
    savings (pushTexts countTokens config entry label blockIndex texts) =
      ((texts.filterMap id).map (textSavings countTokens config)).sum := by
  induction texts generalizing blockIndex with
  | nil => rfl
  | cons text rest ih =>
    cases text with
    | none => rw [pushTexts, ih, List.filterMap_cons_none rfl]
    | some text =>
      rw [pushTexts, savings_append, ih, savings_pushed]
      rfl

theorem savings_content (entry : Nat) (content : MessageContent) (label : JsString) :
    savings (scanContentBlocks countTokens config entry content label) =
      ((contentTexts content).map (textSavings countTokens config)).sum := by
  cases content with
  | plain text => simp [scanContentBlocks, contentTexts, savings_pushed]
  | parts parts => simp [scanContentBlocks, contentTexts, savings_texts, List.filterMap_map]

theorem savings_blocks (entry : Nat) (e : StampedEntry) :
    savings (collectBlockRegions countTokens config entry e) =
      ((searchedTexts e).map (textSavings countTokens config)).sum := by
  unfold collectBlockRegions searchedTexts
  cases e.entry.body with
  | message message =>
    cases message with
    | assistant message usage => simp [savings_texts, List.filterMap_map]
    | user message => exact savings_content _ _ _
    | developer message => exact savings_content _ _ _
    | _ => rfl
  | customMessage customType content display details attribution => exact savings_content _ _ _
  | _ => rfl

theorem savings_entry (entry : Nat) (e : StampedEntry) (later : List StampedEntry) :
    savings (entryRegions countTokens config toolCallsById entry e later) =
      entrySavings countTokens config toolCallsById e later := by
  unfold entrySavings
  cases result : getToolResultMessage e.entry with
  | some message =>
    rw [entryRegions_result result]
    simp only
    split <;> simp [savings, ShakeRegion.tokens]
  | none =>
    unfold entryRegions
    rw [result]
    simp only
    split
    · rfl
    · exact savings_blocks entry e

/-- What the collector counts is read off the entries. -/
theorem savings_branch (entry : Nat) (entries : List StampedEntry) :
    savings (branchRegions countTokens config toolCallsById entry entries) =
      branchSavings countTokens config toolCallsById entries := by
  induction entries generalizing entry with
  | nil => rfl
  | cons e later ih => rw [branchRegions, savings_append, savings_entry, ih, branchSavings]

/- A region of an entry lies in one of its slots, and is cut out of the text there. -/
def Located (countTokens : List JsString → Nat) (config : ShakeConfig) (entry : Nat) (e : StampedEntry) (region : ShakeRegion) : Prop :=
  ∃ blockIndex text label, readSlot e blockIndex = some text ∧
    region ∈ pushBlockRegions countTokens config entry blockIndex text label

/- Regions of one slot do not overlap. -/
def Clear (a b : ShakeRegion) : Prop :=
  ∀ entry blockIndex, InSlot entry blockIndex a → InSlot entry blockIndex b → RegionsApart a b

theorem clear_symm {a b : ShakeRegion} (clear : Clear a b) : Clear b a :=
  fun entry blockIndex first second => regionsApart_symm (clear entry blockIndex second first)

theorem clear_other {entry other : Nat} {first second : Option Nat} {a b : ShakeRegion} (left : InSlot entry first a)
    (right : InSlot other second b) (apart : first ≠ second) : Clear a b := by
  intro _ _ one two
  obtain ⟨x,rfl,rfl,rfl⟩ := left
  obtain ⟨y,rfl,rfl,rfl⟩ := right
  obtain ⟨_,same,-,inOne⟩ := one
  obtain ⟨_,other,-,inTwo⟩ := two
  cases same
  cases other
  exact absurd (inOne.trans inTwo.symm) apart

theorem texts_clear (entry : Nat) (label : JsString) (texts : List (Option JsString)) (blockIndex : Nat) :
    (∀ region ∈ pushTexts countTokens config entry label blockIndex texts, ∃ i text, texts[i]? = some (some text) ∧
        region ∈ pushBlockRegions countTokens config entry (some (blockIndex + i)) text label) ∧
      (pushTexts countTokens config entry label blockIndex texts).Pairwise Clear := by
  induction texts generalizing blockIndex with
  | nil => exact ⟨by simp [pushTexts],List.Pairwise.nil⟩
  | cons text rest ih =>
    obtain ⟨placed,clear⟩ := ih (blockIndex + 1)
    have later : ∀ region ∈ pushTexts countTokens config entry label (blockIndex + 1) rest,
        ∃ i found, (text :: rest)[i]? = some (some found) ∧ blockIndex < blockIndex + i ∧
          region ∈ pushBlockRegions countTokens config entry (some (blockIndex + i)) found label := by
      intro region mem
      obtain ⟨i,found,there,pushed⟩ := placed region mem
      refine ⟨i + 1,found,there,by omega,?_⟩
      rwa [show blockIndex + (i + 1) = blockIndex + 1 + i by omega]
    cases text with
    | none =>
      rw [pushTexts]
      refine ⟨?_,clear⟩
      intro region mem
      obtain ⟨i,found,there,-,pushed⟩ := later region mem
      exact ⟨i,found,there,pushed⟩
    | some text =>
      rw [pushTexts]
      constructor
      · intro region mem
        rcases List.mem_append.mp mem with first | behind
        · exact ⟨0,text,rfl,first⟩
        · obtain ⟨i,found,there,-,pushed⟩ := later region behind
          exact ⟨i,found,there,pushed⟩
      · rw [List.pairwise_append]
        refine ⟨pushed_apart.imp fun apart _ _ _ _ => apart,clear,?_⟩
        intro a first b behind
        obtain ⟨i,found,there,beyond,pushed⟩ := later b behind
        apply clear_other (pushed_within first []).1 (pushed_within pushed []).1
        intro same
        have := Option.some.inj same
        omega

theorem content_clear (entry : Nat) (content : MessageContent) (label : JsString) :
    (∀ region ∈ scanContentBlocks countTokens config entry content label, ∃ blockIndex text,
        readText (.message content) blockIndex = some text ∧
          region ∈ pushBlockRegions countTokens config entry blockIndex text label) ∧
      (scanContentBlocks countTokens config entry content label).Pairwise Clear := by
  cases content with
  | plain text => exact ⟨fun region mem => ⟨none,text,rfl,mem⟩,pushed_apart.imp fun apart _ _ _ _ => apart⟩
  | parts parts =>
    obtain ⟨placed,clear⟩ := @texts_clear countTokens config entry label (parts.map partText) 0
    refine ⟨?_,clear⟩
    intro region mem
    obtain ⟨i,text,there,pushed⟩ := placed region mem
    rw [List.getElem?_map, Option.map_eq_some_iff] at there
    obtain ⟨part,here,holds⟩ := there
    refine ⟨some i,text,?_,by rwa [Nat.zero_add] at pushed⟩
    rw [readText, here]
    exact holds

theorem blocks_clear (entry : Nat) (e : StampedEntry) :
    (∀ region ∈ collectBlockRegions countTokens config entry e, Located countTokens config entry e region) ∧
      (collectBlockRegions countTokens config entry e).Pairwise Clear := by
  have placed : ∀ content label, bodyContent e.entry.body = some (.message content) →
      ∀ region ∈ scanContentBlocks countTokens config entry content label,
        Located countTokens config entry e region := by
    intro content label holds region mem
    obtain ⟨blockIndex,text,reads,pushed⟩ := (content_clear entry content label).1 region mem
    refine ⟨blockIndex,text,label,?_,pushed⟩
    rw [readSlot, holds]
    exact reads
  unfold collectBlockRegions
  cases body : e.entry.body with
  | message message =>
    cases message with
    | assistant message usage =>
      obtain ⟨located,clear⟩ := @texts_clear countTokens config entry (js "assistant") (message.content.map blockText) 0
      refine ⟨?_,clear⟩
      intro region mem
      obtain ⟨i,text,there,pushed⟩ := located region mem
      rw [List.getElem?_map, Option.map_eq_some_iff] at there
      obtain ⟨block,here,holds⟩ := there
      refine ⟨some i,text,js "assistant",?_,by rwa [Nat.zero_add] at pushed⟩
      rw [readSlot, body]
      simp [bodyContent, readText, here, holds]
    | user message => exact ⟨placed _ _ (by rw [body]; rfl),(content_clear _ _ _).2⟩
    | developer message => exact ⟨placed _ _ (by rw [body]; rfl),(content_clear _ _ _).2⟩
    | _ => exact ⟨by simp,List.Pairwise.nil⟩
  | customMessage customType content display details attribution =>
    exact ⟨placed _ _ (by rw [body]; rfl),(content_clear _ _ _).2⟩
  | _ => exact ⟨by simp,List.Pairwise.nil⟩

theorem located_entry {entry : Nat} {e : StampedEntry} {region : ShakeRegion}
    (located : Located countTokens config entry e region) : region.entry = entry := by
  obtain ⟨blockIndex,text,label,-,pushed⟩ := located
  obtain ⟨block,rfl,inEntry,-⟩ := pushed_mem pushed
  exact inEntry

theorem region_entry {entry : Nat} {e : StampedEntry} {later : List StampedEntry} {region : ShakeRegion}
    (mem : region ∈ entryRegions countTokens config toolCallsById entry e later) : region.entry = entry := by
  cases result : getToolResultMessage e.entry with
  | some message =>
    rw [entryRegions_result result] at mem
    split at mem
    · rw [List.mem_singleton.mp mem]
      rfl
    · cases mem
  | none =>
    unfold entryRegions at mem
    rw [result] at mem
    split at mem
    · cases mem
    · exact located_entry ((blocks_clear entry e).1 region mem)

theorem branch_later {entry : Nat} {entries : List StampedEntry} {region : ShakeRegion}
    (mem : region ∈ branchRegions countTokens config toolCallsById entry entries) : entry ≤ region.entry := by
  induction entries generalizing entry with
  | nil => cases mem
  | cons e later ih =>
    rcases List.mem_append.mp mem with own | other
    · rw [region_entry own]
    · have := ih other
      omega

/-- The regions of one entry. -/
theorem branch_filter {entry i : Nat} {entries : List StampedEntry} {e : StampedEntry} (there : entries[i]? = some e) :
    (branchRegions countTokens config toolCallsById entry entries).filter (fun region => region.entry = entry + i) =
      entryRegions countTokens config toolCallsById (entry + i) e (entries.drop (i + 1)) := by
  induction entries generalizing entry i with
  | nil => cases there
  | cons first later ih =>
    rw [branchRegions, List.filter_append]
    cases i with
    | zero =>
      obtain rfl := Option.some.inj there
      have own : (entryRegions countTokens config toolCallsById entry first later).filter
          (fun region => region.entry = entry + 0) = entryRegions countTokens config toolCallsById entry first later := by
        rw [List.filter_eq_self]
        intro region mem
        rw [decide_eq_true_iff]
        exact region_entry mem
      have others : (branchRegions countTokens config toolCallsById (entry + 1) later).filter
          (fun region => region.entry = entry + 0) = [] := by
        rw [List.filter_eq_nil_iff]
        intro region mem
        have := branch_later mem
        rw [decide_eq_true_iff]
        omega
      rw [own, others, List.append_nil]
      rfl
    | succ i =>
      have none' : (entryRegions countTokens config toolCallsById entry first later).filter
          (fun region => region.entry = entry + (i + 1)) = [] := by
        rw [List.filter_eq_nil_iff]
        intro region mem
        have := region_entry mem
        rw [decide_eq_true_iff]
        omega
      have shifted : entry + (i + 1) = entry + 1 + i := by omega
      rw [none', List.nil_append, shifted]
      exact @ih (entry + 1) i there

end Regions

/- Replacing within one entry -/

section Entry
variable (now : ShakeRegion → Int)

/-- Each slot sees only the items of its own regions. -/
theorem run_slots {entry : Nat} {items : List (ShakeRegion × JsString)} {e : StampedEntry}
    (blocks : ∀ item ∈ items, ∃ blockIndex, InSlot entry blockIndex item.1) :
    withoutTexts (items.foldl (fun e item => applyToEntry now item.1 item.2 e) e) = withoutTexts e ∧
      ∀ blockIndex text, readSlot e blockIndex = some text →
        ∃ own : List (ShakeRegion × JsString), own.Sublist items ∧ (∀ item ∈ own, InSlot entry blockIndex item.1) ∧
          readSlot (items.foldl (fun e item => applyToEntry now item.1 item.2 e) e) blockIndex =
            some ((own.map itemEdit).foldl applyEdit text) := by
  induction items generalizing e with
  | nil => exact ⟨rfl,fun blockIndex text found => ⟨[],List.Sublist.refl _,by simp,found⟩⟩
  | cons item rest ih =>
    rw [List.forall_mem_cons] at blocks
    obtain ⟨⟨place,inSlot⟩,others⟩ := blocks
    rw [List.foldl_cons]
    cases reads : readSlot e place with
    | none =>
      have skipped : applyToEntry now item.1 item.2 e = e := by
        obtain ⟨region,replacement⟩ := item
        obtain ⟨block,rfl,rfl,rfl⟩ := inSlot
        simp only [applyToEntry, reads]
      rw [skipped]
      obtain ⟨frame,slots⟩ := @ih e others
      refine ⟨frame,?_⟩
      intro blockIndex text found
      obtain ⟨own,sub,inOwn,left⟩ := slots blockIndex text found
      exact ⟨own,sub.cons item,inOwn,left⟩
    | some whole =>
      have written := applyToEntry_slot now inSlot reads
      rw [written]
      obtain ⟨frame,slots⟩ := @ih (writeSlot e place (applyEdit whole (itemEdit item))) others
      refine ⟨frame.trans (withoutTexts_write e place _),?_⟩
      intro blockIndex text found
      by_cases here : blockIndex = place
      · subst here
        rw [reads] at found
        obtain rfl := Option.some.inj found
        obtain ⟨own,sub,inOwn,left⟩ := slots blockIndex _ (readSlot_write reads _)
        refine ⟨item :: own,sub.cons_cons item,?_,left⟩
        rw [List.forall_mem_cons]
        exact ⟨inSlot,inOwn⟩
      · have same := (readSlot_other here (applyEdit whole (itemEdit item))).trans found
        obtain ⟨own,sub,inOwn,left⟩ := slots blockIndex text same
        exact ⟨own,sub.cons item,inOwn,left⟩

theorem run_length (items : List (ShakeRegion × JsString)) (entries : List StampedEntry) :
    (items.foldl (applyShakeRegion now) entries).length = entries.length := by
  induction items generalizing entries with
  | nil => rfl
  | cons item rest ih => rw [List.foldl_cons, ih, applyShakeRegion, List.length_modify]

end Entry

/- The whole batch -/

/- The savings estimated for a branch. -/
def estimatedSavings (countTokens : List JsString → Nat) (config : ShakeConfig) (entries : List StampedEntry) : Nat :=
  branchSavings countTokens config (collectToolCallsById (entries.map StampedEntry.entry)) entries

section Batch
variable {countTokens : List JsString → Nat} {config : ShakeConfig} {entries : List StampedEntry}
  {items : List (ShakeRegion × JsString)} {i : Nat} {e : StampedEntry}

theorem collected_own (there : entries[i]? = some e) :
    (collectShakeRegions countTokens config entries).filter (fun region => region.entry = i) =
      if (estimatedSavings countTokens config entries : Int) < config.minSavings then []
      else entryRegions countTokens config (collectToolCallsById (entries.map StampedEntry.entry)) i e (entries.drop (i + 1)) := by
  unfold collectShakeRegions estimatedSavings
  simp only [savings_branch]
  split
  · rfl
  · have own := @branch_filter countTokens config (collectToolCallsById (entries.map StampedEntry.entry)) 0 i entries e there
    rwa [Nat.zero_add] at own

theorem line_inside {lines : List JsString} {line : JsString} (mem : line ∈ lines) : line <:+: joinLines lines := by
  obtain ⟨front,after,rfl⟩ := List.append_of_mem mem
  have parts := @TextLines.join_block front [line] (by simp) after
  rw [List.append_assoc, List.singleton_append, TextLines.join_cons line []] at parts
  rw [parts]
  exact ⟨TextLines.terminate front,TextLines.precede after,by simp [TextLines.precede]⟩

theorem replaced_result {message : ToolResultMessage} (result : getToolResultMessage e.entry = some message)
    (text : JsString) (now : Int) :
    getToolResultMessage (e.replaceResult text now).entry = some { message with content := [.text ⟨text,none⟩] } := by
  unfold getToolResultMessage at result
  split at result
  · rename_i own body
    cases result
    simp [StampedEntry.replaceResult, body, getToolResultMessage]
  · cases result

/-- The items of an entry as they are applied, by their regions. -/
theorem applied_own (items : List (ShakeRegion × JsString)) (i : Nat) :
    (((applyOrder items).filter fun item => item.1.entry = i).map Prod.fst).Perm
      ((items.map Prod.fst).filter fun region => region.entry = i) := by
  rw [List.filter_map]
  exact ((applyOrder_perm items).filter _).map _

variable {now : ShakeRegion → Int} {blockIndex : Option Nat}

/-- An entry whose regions are not among the batch's stays as it is. -/
theorem kept_untouched {message : ToolResultMessage} (regions : List ShakeRegion)
    (result : getToolResultMessage e.entry = some message)
    (none' : (items.map Prod.fst).filter (fun region => region.entry = i) = []) :
    KeptOrOffloaded regions i e
      (((applyOrder items).filter fun item => item.1.entry = i).foldl (fun e item => applyToEntry now item.1 item.2 e) e) := by
  have perm := applied_own items i
  rw [none'] at perm
  rw [List.map_eq_nil_iff.mp (List.perm_nil.mp perm), List.foldl_nil]
  unfold KeptOrOffloaded
  rw [result]
  exact ⟨message,rfl,rfl,fun part mem => Or.inl mem⟩

/-- A replaced tool result has nothing left but the replacement, and what is handed over are its texts. -/
theorem kept_replaced_iff {message : ToolResultMessage} {tokens : Nat} {label : JsString}
    (result : getToolResultMessage e.entry = some message)
    (single : (items.map Prod.fst).filter (fun region => region.entry = i) =
      [.toolResult ⟨i,tokens,toolResultText message,label⟩]) :
    KeptOrOffloaded (items.map Prod.fst) i e
        (((applyOrder items).filter fun item => item.1.entry = i).foldl (fun e item => applyToEntry now item.1 item.2 e) e) ↔
      ∀ image, .image image ∈ message.content →
        image.data <:+: toolResultText message ∧ image.mimeType <:+: toolResultText message := by
  have perm := applied_own items i
  rw [single] at perm
  obtain ⟨⟨region,replacement⟩,only,same⟩ := List.map_eq_singleton_iff.mp (List.perm_singleton.mp perm)
  have after : ((applyOrder items).filter fun item => item.1.entry = i).foldl
      (fun e item => applyToEntry now item.1 item.2 e) e = e.replaceResult replacement (now region) := by
    rw [only, List.foldl_cons, List.foldl_nil]
    obtain rfl : region = _ := same
    rfl
  have handed : ∀ piece, Offloaded (items.map Prod.fst) i piece ↔ piece <:+: toolResultText message := by
    intro piece
    have found : Offloaded (items.map Prod.fst) i piece ↔
        ∃ region ∈ (items.map Prod.fst).filter (fun region => region.entry = i), piece <:+: region.originalText := by
      simp only [Offloaded, List.mem_filter, decide_eq_true_iff, and_assoc]
    rw [found, single]
    simp [ShakeRegion.originalText]
  rw [after]
  unfold KeptOrOffloaded
  rw [result, replaced_result result]
  constructor
  · rintro ⟨left,shape,-,kept⟩ image mem
    obtain rfl := Option.some.inj shape
    rcases kept (.image image) mem with there | ⟨data,mimeType⟩
    · simp at there
    · exact ⟨(handed _).mp data,(handed _).mp mimeType⟩
  · intro spelled
    refine ⟨_,rfl,rfl,?_⟩
    intro part mem
    right
    cases part with
    | text block =>
      have line : block.text ∈ message.content.filterMap partText := List.mem_filterMap.mpr ⟨_,mem,rfl⟩
      exact (handed _).mpr (line_inside line)
    | image image =>
      obtain ⟨data,mimeType⟩ := spelled image mem
      exact ⟨(handed _).mpr data,(handed _).mpr mimeType⟩

theorem kept_result {message : ToolResultMessage} (all : items.map Prod.fst = collectShakeRegions countTokens config entries)
    (there : entries[i]? = some e) (result : getToolResultMessage e.entry = some message) :
    KeptOrOffloaded (items.map Prod.fst) i e
        (((applyOrder items).filter fun item => item.1.entry = i).foldl (fun e item => applyToEntry now item.1 item.2 e) e) ↔
      ((estimatedSavings countTokens config entries : Int) < config.minSavings ∨
        (eligibleResult countTokens config (collectToolCallsById (entries.map StampedEntry.entry)) e (entries.drop (i + 1))
            message = true →
          ∀ image, .image image ∈ message.content →
            image.data <:+: toolResultText message ∧ image.mimeType <:+: toolResultText message)) := by
  have own := @collected_own countTokens config entries i e there
  rw [← all] at own
  by_cases below : (estimatedSavings countTokens config entries : Int) < config.minSavings
  · rw [if_pos below] at own
    exact iff_of_true (kept_untouched _ result own) (Or.inl below)
  rw [if_neg below, entryRegions_result result] at own
  by_cases eligible : eligibleResult countTokens config (collectToolCallsById (entries.map StampedEntry.entry)) e
      (entries.drop (i + 1)) message = true
  · rw [if_pos eligible] at own
    rw [kept_replaced_iff result own]
    constructor
    · exact fun spelled => Or.inr fun _ => spelled
    · exact fun either => either.resolve_left below eligible
  · rw [if_neg eligible] at own
    exact iff_of_true (kept_untouched _ result own) (Or.inr fun holds => absurd holds eligible)

/-- The items of an entry that is no tool result lie in its texts, and those of one text do not overlap. -/
theorem applied_located (all : items.map Prod.fst = collectShakeRegions countTokens config entries)
    (there : entries[i]? = some e) (other : getToolResultMessage e.entry = none) :
    (∀ item ∈ (applyOrder items).filter (fun item => item.1.entry = i), Located countTokens config i e item.1) ∧
      (((applyOrder items).filter fun item => item.1.entry = i).map Prod.fst).Pairwise Clear := by
  have perm := applied_own items i
  have own := @collected_own countTokens config entries i e there
  have regions : (∀ region ∈ (items.map Prod.fst).filter (fun region => region.entry = i), Located countTokens config i e region) ∧
      ((items.map Prod.fst).filter fun region => region.entry = i).Pairwise Clear := by
    rw [all, own]
    unfold entryRegions
    rw [other]
    simp only
    split
    · exact ⟨by simp,List.Pairwise.nil⟩
    · split
      · exact ⟨by simp,List.Pairwise.nil⟩
      · exact blocks_clear i e
  refine ⟨?_,regions.2.perm perm.symm clear_symm⟩
  intro item mem
  exact regions.1 item.1 (perm.mem_iff.mp (List.mem_map_of_mem mem))

/-- Located items of one slot are cut out of its text. -/
theorem located_cut {text : JsString} {item : ShakeRegion × JsString} (located : Located countTokens config i e item.1)
    (inSlot : InSlot i blockIndex item.1) (found : readSlot e blockIndex = some text) :
    ∃ label, item.1 ∈ pushBlockRegions countTokens config i blockIndex text label := by
  obtain ⟨place,whole,label,reads,pushed⟩ := located
  obtain ⟨block,same,-,here⟩ := inSlot
  obtain ⟨block',same',-,there'⟩ := (pushed_within pushed []).1
  rw [same] at same'
  cases same'
  obtain rfl : blockIndex = place := here.symm.trans there'
  rw [found] at reads
  obtain rfl := Option.some.inj reads
  exact ⟨label,pushed⟩

theorem located_slot {text : JsString} {chosen : List (ShakeRegion × JsString)}
    (located : ∀ item ∈ chosen, Located countTokens config i e item.1) (clear : (chosen.map Prod.fst).Pairwise Clear)
    (inSlot : ∀ item ∈ chosen, InSlot i blockIndex item.1) (found : readSlot e blockIndex = some text) :
    SlotItems i blockIndex text chosen := by
  refine ⟨inSlot,?_,?_⟩
  · intro edit mem
    obtain ⟨item,given,rfl⟩ := List.mem_map.mp mem
    obtain ⟨label,pushed⟩ := located_cut (located item given) (inSlot item given) found
    exact (pushed_within pushed item.2).2
  · apply clear.imp_of_mem
    intro a b first second apart
    obtain ⟨x,memX,rfl⟩ := List.mem_map.mp first
    obtain ⟨y,memY,rfl⟩ := List.mem_map.mp second
    exact apart i blockIndex (inSlot x memX) (inSlot y memY)

/-- An entry that is no tool result loses nothing. -/
theorem kept_texts (all : items.map Prod.fst = collectShakeRegions countTokens config entries) (there : entries[i]? = some e)
    (other : getToolResultMessage e.entry = none) :
    KeptOrOffloaded (items.map Prod.fst) i e
      (((applyOrder items).filter fun item => item.1.entry = i).foldl (fun e item => applyToEntry now item.1 item.2 e) e) := by
  obtain ⟨located,clear⟩ := applied_located all there other
  have descends := (applyOrder_descends items).filter fun item => item.1.entry = i
  have blocks : ∀ item ∈ (applyOrder items).filter (fun item => item.1.entry = i), ∃ blockIndex, InSlot i blockIndex item.1 := by
    intro item mem
    obtain ⟨blockIndex,text,label,-,pushed⟩ := located item mem
    exact ⟨blockIndex,(pushed_within pushed []).1⟩
  obtain ⟨frame,slots⟩ := @run_slots now i _ e blocks
  unfold KeptOrOffloaded
  rw [other]
  refine ⟨frame,?_⟩
  intro blockIndex text found
  obtain ⟨chosen,sub,inSlot,left⟩ := slots blockIndex text found
  refine ⟨_,left,?_⟩
  have own := located_slot (fun item mem => located item (sub.subset mem)) (clear.sublist (sub.map Prod.fst)) inSlot found
  apply spliced_sequential (slot_valid own) (slot_follows own (descends.sublist sub))
  intro edit mem
  obtain ⟨item,given,rfl⟩ := List.mem_map.mp mem
  obtain ⟨label,pushed⟩ := located_cut (located item (sub.subset given)) (inSlot item given) found
  obtain ⟨block,same,inEntry,-,-,original⟩ := pushed_mem pushed
  have handed : item ∈ items := (applyOrder_perm items).mem_iff.mp (List.mem_filter.mp (sub.subset given)).1
  refine ⟨item.1,List.mem_map_of_mem handed,?_,?_⟩
  · rw [same]
    exact inEntry
  · rw [itemEdit, same]
    simp only [ShakeRegion.originalText, original]
    exact List.infix_refl _

/-- A batch loses nothing exactly when it saves too little to be carried out, or every image of a tool result
    that it replaces is spelled out in the texts of that result. -/
theorem shake_loses_nothing_iff (countTokens : List JsString → Nat) (config : ShakeConfig) (now : ShakeRegion → Int)
    (entries : List StampedEntry) (items : List (ShakeRegion × JsString))
    (all : items.map Prod.fst = collectShakeRegions countTokens config entries) :
    LosesNothing (items.map Prod.fst) entries (applyShakeRegions now items entries) ↔
      ((estimatedSavings countTokens config entries : Int) < config.minSavings ∨
        ImagesSpelled countTokens config (collectToolCallsById (entries.map StampedEntry.entry)) entries) := by
  have entry : ∀ i e, entries[i]? = some e → (applyShakeRegions now items entries)[i]? =
      some (((applyOrder items).filter fun item => item.1.entry = i).foldl (fun e item => applyToEntry now item.1 item.2 e) e) := by
    intro i e there
    rw [applyShakeRegions, run_entry, there, Option.map_some]
  constructor
  · rintro ⟨-,kept⟩
    by_cases below : (estimatedSavings countTokens config entries : Int) < config.minSavings
    · exact Or.inl below
    · right
      intro i e message image there result eligible mem
      have own := (kept_result all there result).mp (kept i e _ there (entry i e there))
      exact own.resolve_left below eligible image mem
  · intro condition
    constructor
    · exact run_length now (applyOrder items) entries
    · intro i e e' there left
      rw [entry i e there] at left
      obtain rfl := Option.some.inj left
      cases result : getToolResultMessage e.entry with
      | none => exact kept_texts all there result
      | some message =>
        apply (kept_result all there result).mpr
        rcases condition with below | spelled
        · exact Or.inl below
        · exact Or.inr fun eligible image mem => spelled i e message image there result eligible mem

end Batch

/- A tool result that is a caption and a picture. -/
def pictureResult : StampedEntry :=
  ⟨⟨js "r",none,0,.message (.toolResult ⟨js "c",js "read",
    [.text ⟨js "Read image file [image/png]",none⟩, .image ⟨js "iVBORw0K",js "image/png"⟩],false,0⟩)⟩,none⟩

def pictureRegion : ShakeRegion := .toolResult ⟨0,1227,js "Read image file [image/png]",js "read"⟩

theorem picture_collected : collectShakeRegions unitCount aggressiveShakeConfig [pictureResult] = [pictureRegion] := by
  decide +kernel

theorem picture_lost :
    collectShakeRegions unitCount aggressiveShakeConfig [pictureResult] = [pictureRegion] ∧
      ¬ LosesNothing [pictureRegion] [pictureResult]
          (applyShakeRegions (fun _ => 0) [(pictureRegion, js "[shaken]")] [pictureResult]) := by
  refine ⟨picture_collected,?_⟩
  rintro ⟨-,kept⟩
  obtain ⟨after,shape,-,parts⟩ := kept 0 pictureResult _ rfl rfl
  cases shape
  rcases parts (.image ⟨js "iVBORw0K",js "image/png"⟩) (by decide +kernel) with there | ⟨⟨region,mem,-,data⟩,-⟩
  · exact absurd there (by decide +kernel)
  · obtain rfl := List.mem_singleton.mp mem
    exact absurd data (by decide +kernel)

theorem shake_loses_nothing_iff_picture :
    LosesNothing [pictureRegion] [pictureResult]
        (applyShakeRegions (fun _ => 0) [(pictureRegion, js "[shaken]")] [pictureResult]) ↔
      ((estimatedSavings unitCount aggressiveShakeConfig [pictureResult] : Int) < aggressiveShakeConfig.minSavings ∨
        ImagesSpelled unitCount aggressiveShakeConfig (collectToolCallsById [pictureResult.entry]) [pictureResult]) :=
  shake_loses_nothing_iff unitCount aggressiveShakeConfig (fun _ => 0) [pictureResult] [(pictureRegion, js "[shaken]")]
    picture_collected.symm

end Shake
