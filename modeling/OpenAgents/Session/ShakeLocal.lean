import OpenAgents.Session.Shake

/- Replacing regions of one text changes nothing but these regions, in whatever order they are given:
   the slots of an entry are independent, and within a slot the ranges are replaced from the last to
   the first. -/
namespace Shake
open JsText JsJson Conversation OrderedMap Session FlatEdits

theorem modify_same {α : Type} {f : α → α} {xs : List α} {i : Nat} (fixed : ∀ x, xs[i]? = some x → f x = x) :
    xs.modify i f = xs := by
  apply List.ext_getElem?
  intro j
  rw [List.getElem?_modify]
  by_cases here : i = j
  · cases there : xs[j]? with
    | none => rfl
    | some x => simp [here, fixed x (here ▸ there)]
  · simp [here]

/- Slots -/

theorem setPartText_text {part : ContentPart} {text : JsString} (found : partText part = some text) (value : JsString) :
    partText (setPartText value part) = some value := by
  cases part with
  | text block => rfl
  | image block => cases found

theorem setBlockText_text {block : AssistantBlock} {text : JsString} (found : blockText block = some text) (value : JsString) :
    blockText (setBlockText value block) = some value := by
  cases block with
  | text content => rfl
  | thinking content => cases found
  | redactedThinking content => cases found
  | toolCall call => cases found

theorem setPartText_same {part : ContentPart} {text : JsString} (found : partText part = some text) :
    setPartText text part = part := by
  cases part with
  | text block => cases found; rfl
  | image block => cases found

theorem setBlockText_same {block : AssistantBlock} {text : JsString} (found : blockText block = some text) :
    setBlockText text block = block := by
  cases block with
  | text content => cases found; rfl
  | thinking content => cases found
  | redactedThinking content => cases found
  | toolCall call => cases found

theorem setPartText_twice (first second : JsString) (part : ContentPart) :
    setPartText second (setPartText first part) = setPartText second part := by
  cases part <;> rfl

theorem setBlockText_twice (first second : JsString) (block : AssistantBlock) :
    setBlockText second (setBlockText first block) = setBlockText second block := by
  cases block <;> rfl

section Content
variable {content : EntryContent} {blockIndex : Option Nat} {text : JsString}

theorem readText_write (found : readText content blockIndex = some text) (value : JsString) :
    readText (writeText value content blockIndex) blockIndex = some value := by
  unfold readText at found
  split at found
  · rfl
  · rename_i parts index
    obtain ⟨part,there,holds⟩ := Option.bind_eq_some_iff.mp found
    simp [writeText, readText, there, setPartText_text holds]
  · rename_i blocks index
    obtain ⟨block,there,holds⟩ := Option.bind_eq_some_iff.mp found
    simp [writeText, readText, there, setBlockText_text holds]
  · cases found

theorem readText_other {other : Option Nat} (apart : other ≠ blockIndex) (value : JsString) :
    readText (writeText value content blockIndex) other = readText content other := by
  cases content with
  | message content =>
    cases content with
    | plain whole =>
      cases blockIndex with
      | none =>
        cases other with
        | none => exact absurd rfl apart
        | some i => rfl
      | some k => rfl
    | parts parts =>
      cases blockIndex with
      | none => rfl
      | some k =>
        cases other with
        | none => rfl
        | some i =>
          have distinct : k ≠ i := fun same => apart (by rw [same])
          simp [writeText, readText, distinct]
  | blocks blocks =>
    cases blockIndex with
    | none => rfl
    | some k =>
      cases other with
      | none => rfl
      | some i =>
        have distinct : k ≠ i := fun same => apart (by rw [same])
        simp [writeText, readText, distinct]

theorem writeText_same (found : readText content blockIndex = some text) : writeText text content blockIndex = content := by
  unfold readText at found
  split at found
  · cases found
    rfl
  · rename_i parts index
    obtain ⟨part,there,holds⟩ := Option.bind_eq_some_iff.mp found
    have same : parts.modify index (setPartText text) = parts :=
      modify_same fun other here => by
        rw [there] at here
        cases here
        exact setPartText_same holds
    rw [writeText, same]
  · rename_i blocks index
    obtain ⟨block,there,holds⟩ := Option.bind_eq_some_iff.mp found
    have same : blocks.modify index (setBlockText text) = blocks :=
      modify_same fun other here => by
        rw [there] at here
        cases here
        exact setBlockText_same holds
    rw [writeText, same]
  · cases found

theorem writeText_twice (first second : JsString) :
    writeText second (writeText first content blockIndex) blockIndex = writeText second content blockIndex := by
  have parts : ∀ i (parts : List ContentPart), (parts.modify i (setPartText first)).modify i (setPartText second) =
      parts.modify i (setPartText second) := by
    intro i parts
    rw [List.modify_modify_eq]
    congr 1
    funext part
    exact setPartText_twice first second part
  have blocks : ∀ i (blocks : List AssistantBlock), (blocks.modify i (setBlockText first)).modify i (setBlockText second) =
      blocks.modify i (setBlockText second) := by
    intro i blocks
    rw [List.modify_modify_eq]
    congr 1
    funext block
    exact setBlockText_twice first second block
  cases content with
  | message content => cases content <;> cases blockIndex <;> simp [writeText, parts]
  | blocks content => cases blockIndex <;> simp [writeText, blocks]

end Content

def SameShape : EntryContent → EntryContent → Prop
  | .message (.plain _), .message (.plain _) => True
  | .message (.parts _), .message (.parts _) => True
  | .blocks _, .blocks _ => True
  | _, _ => False

/- A content of the kind that the body holds. -/
def Fits (body : EntryBody) (content : EntryContent) : Prop := bodyContent (setContent body content) = some content

section Bodies
variable {body : EntryBody} {content : EntryContent}

theorem writeText_shape (value : JsString) (content : EntryContent) (blockIndex : Option Nat) :
    SameShape content (writeText value content blockIndex) := by
  cases content with
  | message content => cases content <;> cases blockIndex <;> trivial
  | blocks content => cases blockIndex <;> trivial

theorem shape_fits {other : EntryContent} (holds : bodyContent body = some content) (shape : SameShape content other) :
    Fits body other := by
  unfold bodyContent at holds
  split at holds
  case h_3 message usage =>
    cases holds
    cases other with
    | message other => exact shape.elim
    | blocks other => rfl
  case h_4 message =>
    cases holds
    cases other with
    | message other =>
      cases other with
      | plain text => exact shape.elim
      | parts parts => rfl
    | blocks other => exact shape.elim
  case h_7 customType whole display details attribution =>
    cases holds
    cases other with
    | message other => rfl
    | blocks other => cases whole <;> exact shape.elim
  case h_8 => cases holds
  all_goals
    rename_i message
    cases holds
    cases other with
    | message other => rfl
    | blocks other => cases kind : message.content <;> rw [kind] at shape <;> exact shape.elim

theorem written_fits (holds : bodyContent body = some content) (value : JsString) (blockIndex : Option Nat) :
    Fits body (writeText value content blockIndex) :=
  shape_fits holds (writeText_shape value content blockIndex)

theorem setContent_own (holds : bodyContent body = some content) : setContent body content = body := by
  unfold bodyContent at holds
  split at holds <;> cases holds <;> rfl

theorem setContent_twice {later : EntryContent} (fits : Fits body later) :
    setContent (setContent body content) later = setContent body later := by
  unfold Fits at fits
  cases body with
  | message message =>
    cases message with
    | toolResult message =>
      -- only parts fit a tool result
      cases later with
      | blocks later => cases fits
      | message later =>
        cases later with
        | plain text => cases fits
        | parts parts =>
          cases content with
          | blocks content => rfl
          | message content => cases content <;> rfl
    | _ => cases content <;> cases later <;> first | rfl | cases fits
  | customMessage customType whole display details attribution => cases content <;> cases later <;> first | rfl | cases fits
  | _ => rfl

end Bodies

section Slots
variable {e : StampedEntry} {blockIndex : Option Nat} {text : JsString}

theorem readSlot_some (found : readSlot e blockIndex = some text) :
    ∃ content, bodyContent e.entry.body = some content ∧ readText content blockIndex = some text :=
  Option.bind_eq_some_iff.mp found

theorem writeSlot_holds {content : EntryContent} (holds : bodyContent e.entry.body = some content) (value : JsString) :
    writeSlot e blockIndex value =
      { e with entry := { e.entry with body := setContent e.entry.body (writeText value content blockIndex) } } := by
  rw [writeSlot, holds]

theorem writeSlot_content {content : EntryContent} (holds : bodyContent e.entry.body = some content) (value : JsString) :
    bodyContent (writeSlot e blockIndex value).entry.body = some (writeText value content blockIndex) := by
  rw [writeSlot_holds holds]
  exact written_fits holds value blockIndex

theorem readSlot_write (found : readSlot e blockIndex = some text) (value : JsString) :
    readSlot (writeSlot e blockIndex value) blockIndex = some value := by
  obtain ⟨content,holds,reads⟩ := readSlot_some found
  rw [readSlot, writeSlot_content holds, Option.bind_some]
  exact readText_write reads value

theorem readSlot_other {other : Option Nat} (apart : other ≠ blockIndex) (value : JsString) :
    readSlot (writeSlot e blockIndex value) other = readSlot e other := by
  cases holds : bodyContent e.entry.body with
  | none => rw [writeSlot, holds]
  | some content => rw [readSlot, writeSlot_content holds, readSlot, holds, Option.bind_some, Option.bind_some, readText_other apart]

theorem writeSlot_same (found : readSlot e blockIndex = some text) : writeSlot e blockIndex text = e := by
  obtain ⟨content,holds,reads⟩ := readSlot_some found
  rw [writeSlot_holds holds, writeText_same reads, setContent_own holds]

theorem writeSlot_twice (found : readSlot e blockIndex = some text) (first second : JsString) :
    writeSlot (writeSlot e blockIndex first) blockIndex second = writeSlot e blockIndex second := by
  obtain ⟨content,holds,reads⟩ := readSlot_some found
  have fits := written_fits holds second blockIndex
  rw [writeSlot_holds (writeSlot_content holds first), writeSlot_holds holds, writeSlot_holds holds, writeText_twice]
  simp only [setContent_twice fits]

end Slots

/- What an item does to the text that its region lies in. -/
def itemEdit (item : ShakeRegion × JsString) : Edit CodeUnit :=
  match item.1 with
  | .block region => ⟨region.start,region.stop,item.2⟩
  | .toolResult _ => ⟨0,0,[]⟩

/- A region of the text at a block index of an entry. -/
def InSlot (entry : Nat) (blockIndex : Option Nat) (region : ShakeRegion) : Prop :=
  ∃ block, region = .block block ∧ block.entry = entry ∧ block.blockIndex = blockIndex

section Runs
variable (now : ShakeRegion → Int)

theorem applyToEntry_slot {entry : Nat} {blockIndex : Option Nat} {item : ShakeRegion × JsString} {e : StampedEntry}
    {text : JsString} (inSlot : InSlot entry blockIndex item.1) (found : readSlot e blockIndex = some text) :
    applyToEntry now item.1 item.2 e = writeSlot e blockIndex (applyEdit text (itemEdit item)) := by
  obtain ⟨region,replacement⟩ := item
  obtain ⟨block,rfl,rfl,rfl⟩ := inSlot
  simp only [applyToEntry, found]
  rfl

/-- Items of one slot, one after the other. -/
theorem run_slot {entry : Nat} {blockIndex : Option Nat} {items : List (ShakeRegion × JsString)} {e : StampedEntry}
    {text : JsString} (inSlot : ∀ item ∈ items, InSlot entry blockIndex item.1) (found : readSlot e blockIndex = some text) :
    items.foldl (fun e item => applyToEntry now item.1 item.2 e) e =
      writeSlot e blockIndex ((items.map itemEdit).foldl applyEdit text) := by
  induction items generalizing e text with
  | nil => exact (writeSlot_same found).symm
  | cons item rest ih =>
    rw [List.forall_mem_cons] at inSlot
    have first := applyToEntry_slot now inSlot.1 found
    have reads := readSlot_write found (applyEdit text (itemEdit item))
    rw [List.foldl_cons, first, ih inSlot.2 reads, writeSlot_twice found]
    rfl

/-- Each entry sees only the items of its own regions. -/
theorem run_entry (items : List (ShakeRegion × JsString)) (entries : List StampedEntry) (i : Nat) :
    (items.foldl (applyShakeRegion now) entries)[i]? =
      (entries[i]?).map ((items.filter fun item => item.1.entry = i).foldl fun e item => applyToEntry now item.1 item.2 e) := by
  induction items generalizing entries with
  | nil => simp
  | cons item rest ih =>
    rw [List.foldl_cons, ih, applyShakeRegion, List.getElem?_modify, List.filter_cons]
    by_cases here : item.1.entry = i
    · cases there : entries[i]? <;> simp [here]
    · cases there : entries[i]? <;> simp [here]

end Runs

/- The order of application -/

theorem applyOrder_perm (items : List (ShakeRegion × JsString)) : (applyOrder items).Perm items := List.perm_insertionSort _ items

theorem applyOrder_descends (items : List (ShakeRegion × JsString)) :
    (applyOrder items).Pairwise fun a b => regionStart b.1 ≤ regionStart a.1 := by
  have : Std.Total fun a b : ShakeRegion × JsString => regionStart b.1 ≤ regionStart a.1 := ⟨fun a b => Int.le_total _ _⟩
  have : IsTrans _ fun a b : ShakeRegion × JsString => regionStart b.1 ≤ regionStart a.1 :=
    ⟨fun a b c first second => Int.le_trans second first⟩
  exact List.pairwise_insertionSort _ items

/- Regions whose ranges do not overlap. -/
def RegionsApart (a b : ShakeRegion) : Prop := ∀ first second, Disjoint (itemEdit (a, first)) (itemEdit (b, second))

/- The range lies within the text and holds something. -/
def Within (text : JsString) (edit : Edit CodeUnit) : Prop := edit.start < edit.stop ∧ edit.stop ≤ text.length

/-- Items of one text of an entry, whose ranges lie in the text and do not overlap. -/
structure SlotItems (entry : Nat) (blockIndex : Option Nat) (text : JsString) (items : List (ShakeRegion × JsString)) :
    Prop where
  inSlot : ∀ item ∈ items, InSlot entry blockIndex item.1
  within : ∀ edit ∈ items.map itemEdit, Within text edit
  apart : (items.map Prod.fst).Pairwise RegionsApart

section Order
variable {entry : Nat} {blockIndex : Option Nat} {text : JsString} {items others : List (ShakeRegion × JsString)}

theorem regionsApart_symm {a b : ShakeRegion} (apart : RegionsApart a b) : RegionsApart b a :=
  fun first second => disjoint_symm (apart second first)

theorem slot_perm (own : SlotItems entry blockIndex text items) (perm : others.Perm items) :
    SlotItems entry blockIndex text others := by
  have edits : (others.map itemEdit).Perm (items.map itemEdit) := perm.map _
  have regions : (others.map Prod.fst).Perm (items.map Prod.fst) := perm.map _
  refine ⟨?_,?_,own.apart.perm regions.symm regionsApart_symm⟩
  · intro item mem
    exact own.inSlot item (perm.mem_iff.mp mem)
  · intro edit mem
    exact own.within edit (edits.mem_iff.mp mem)

theorem slot_disjoint (own : SlotItems entry blockIndex text items) : (items.map itemEdit).Pairwise Disjoint := by
  have apart := own.apart
  rw [List.pairwise_map] at apart ⊢
  exact apart.imp fun clear => clear _ _

theorem slot_descends (own : SlotItems entry blockIndex text items)
    (descends : items.Pairwise fun a b => regionStart b.1 ≤ regionStart a.1) :
    (items.map itemEdit).Pairwise fun a b => b.start ≤ a.start := by
  rw [List.pairwise_map]
  apply descends.imp_of_mem
  intro a b first second le
  obtain ⟨one,same,-,-⟩ := own.inSlot a first
  obtain ⟨two,other,-,-⟩ := own.inSlot b second
  rw [same, other] at le
  rw [itemEdit, itemEdit, same, other]
  exact Int.ofNat_le.mp le

/-- Items by descending start are replacements from the last range to the first. -/
theorem slot_follows (own : SlotItems entry blockIndex text items)
    (descends : items.Pairwise fun a b => regionStart b.1 ≤ regionStart a.1) : (items.map itemEdit).Pairwise Follows :=
  disjoint_follows (fun edit mem => (own.within edit mem).1) (slot_disjoint own) (slot_descends own descends)

theorem slot_valid (own : SlotItems entry blockIndex text items) :
    ∀ edit ∈ items.map itemEdit, edit.start ≤ edit.stop ∧ edit.stop ≤ text.length := by
  intro edit mem
  obtain ⟨least,inside⟩ := own.within edit mem
  exact ⟨by omega,inside⟩

/-- The replacements as they are made give what all of them at once give. -/
theorem slot_simultaneous (own : SlotItems entry blockIndex text items) :
    ((applyOrder items).map itemEdit).foldl applyEdit text = simultaneous (items.map itemEdit) text := by
  have ordered := slot_perm own (applyOrder_perm items)
  have edits : ((applyOrder items).map itemEdit).Perm (items.map itemEdit) := (applyOrder_perm items).map _
  rw [sequential_eq (slot_valid ordered) (slot_follows ordered (applyOrder_descends items))]
  symm
  apply simultaneous_perm _ (fun edit mem => (own.within edit mem).1) (slot_disjoint own)
  exact edits.symm.trans (List.reverse_perm _).symm

/-- Nothing but the text of the slot changes, by all replacements at once. -/
theorem slot_applied {entries : List StampedEntry} {e : StampedEntry} (now : ShakeRegion → Int)
    (own : SlotItems entry blockIndex text items) (there : entries[entry]? = some e) (found : readSlot e blockIndex = some text) :
    applyShakeRegions now items entries =
      entries.set entry (writeSlot e blockIndex (simultaneous (items.map itemEdit) text)) := by
  have slots := (slot_perm own (applyOrder_perm items)).inSlot
  apply List.ext_getElem?
  intro i
  rw [applyShakeRegions, run_entry, List.getElem?_set]
  by_cases here : entry = i
  · have all : (applyOrder items).filter (fun item => item.1.entry = i) = applyOrder items := by
      rw [List.filter_eq_self]
      intro item mem
      obtain ⟨block,same,inEntry,-⟩ := slots item mem
      rw [same, decide_eq_true_iff, ← here]
      exact inEntry
    obtain ⟨bound,-⟩ := List.getElem?_eq_some_iff.mp there
    rw [all, ← here, there, Option.map_some, run_slot now slots found, slot_simultaneous own, if_pos rfl, if_pos bound]
  · have none' : (applyOrder items).filter (fun item => item.1.entry = i) = [] := by
      rw [List.filter_eq_nil_iff]
      intro item mem
      obtain ⟨block,same,inEntry,-⟩ := slots item mem
      rw [same, decide_eq_true_iff]
      intro other
      exact here (inEntry.symm.trans other)
    rw [none', if_neg here]
    simp

end Order

/- The regions of a text -/

section Regions
variable {countTokens : List JsString → Nat} {config : ShakeConfig} {entry : Nat} {blockIndex : Option Nat}
  {text label : JsString}

theorem blockRegion_some {range : BlockRange} {region : ShakeRegion}
    (found : blockRegion countTokens config entry blockIndex text label range = some region) :
    ∃ block, region = .block block ∧ block.entry = entry ∧ block.blockIndex = blockIndex ∧ block.start = range.start ∧
      block.stop = range.stop ∧ block.originalText = (text.take range.stop).drop range.start := by
  unfold blockRegion at found
  simp only at found
  split at found
  · cases found
  · cases found
    exact ⟨_,rfl,rfl,rfl,rfl,rfl,rfl⟩

theorem pushed_mem {region : ShakeRegion} (mem : region ∈ pushBlockRegions countTokens config entry blockIndex text label) :
    ∃ block, region = .block block ∧ block.entry = entry ∧ block.blockIndex = blockIndex ∧
      ⟨block.start,block.stop⟩ ∈ scanTextForBlockRanges text ∧
        block.originalText = (text.take block.stop).drop block.start := by
  obtain ⟨range,scanned,found⟩ := List.mem_filterMap.mp mem
  obtain ⟨block,same,inEntry,inBlock,start,stop,original⟩ := blockRegion_some found
  refine ⟨block,same,inEntry,inBlock,?_,?_⟩
  · rw [start, stop]
    exact scanned
  · rw [original, start, stop]

theorem pushed_apart : (pushBlockRegions countTokens config entry blockIndex text label).Pairwise RegionsApart := by
  apply List.Pairwise.filterMap _ _ (ranges_wellFormed text).1
  intro earlier later clear a foundA b foundB first second
  obtain ⟨blockA,rfl,-,-,-,stop,-⟩ := blockRegion_some foundA
  obtain ⟨blockB,rfl,-,-,start,-,-⟩ := blockRegion_some foundB
  left
  show blockA.stop ≤ blockB.start
  omega

theorem pushed_within {region : ShakeRegion} (mem : region ∈ pushBlockRegions countTokens config entry blockIndex text label)
    (replacement : JsString) : InSlot entry blockIndex region ∧ Within text (itemEdit (region, replacement)) := by
  obtain ⟨block,rfl,inEntry,inBlock,scanned,-⟩ := pushed_mem mem
  have aligned := (ranges_wellFormed text).2 _ scanned
  exact ⟨⟨block,rfl,inEntry,inBlock⟩,aligned.nonempty,aligned.inside⟩

/-- Some of the regions of a text. -/
theorem pushed_slot {items : List (ShakeRegion × JsString)}
    (subset : (items.map Prod.fst).Subperm (pushBlockRegions countTokens config entry blockIndex text label)) :
    SlotItems entry blockIndex text items := by
  obtain ⟨chosen,perm,sub⟩ := subset
  have member : ∀ item ∈ items, item.1 ∈ pushBlockRegions countTokens config entry blockIndex text label := by
    intro item mem
    exact sub.subset (perm.mem_iff.mpr (List.mem_map_of_mem mem))
  refine ⟨fun item mem => (pushed_within (member item mem) []).1,?_,(pushed_apart.sublist sub).perm perm regionsApart_symm⟩
  intro edit mem
  obtain ⟨item,given,rfl⟩ := List.mem_map.mp mem
  exact (pushed_within (member item given) item.2).2

end Regions

/-- Every text has its ranges in order, apart, of whole lines and inside the text; and replacing some of the
    regions of one text of an entry, given in any order, leaves a branch in which only that text differs,
    by exactly these ranges. -/
theorem shake_is_local (text : JsString) :
    Apart (scanTextForBlockRanges text) ∧ (∀ range ∈ scanTextForBlockRanges text, LineAligned text range) ∧
      ∀ (countTokens : List JsString → Nat) (config : ShakeConfig) (now : ShakeRegion → Int) (label : JsString)
        (entries : List StampedEntry) (entry : Nat) (e : StampedEntry) (blockIndex : Option Nat)
        (items : List (ShakeRegion × JsString)), entries[entry]? = some e → readSlot e blockIndex = some text →
        (items.map Prod.fst).Subperm (pushBlockRegions countTokens config entry blockIndex text label) →
          applyShakeRegions now items entries =
            entries.set entry (writeSlot e blockIndex (simultaneous (items.map itemEdit) text)) := by
  refine ⟨(ranges_wellFormed text).1,(ranges_wellFormed text).2,?_⟩
  intro countTokens config now label entries entry e blockIndex items there found subset
  exact slot_applied now (pushed_slot subset) there found

def unitCount (fragments : List JsString) : Nat := (fragments.map List.length).sum

def twoFences : JsString := js "a\n```\nb\n```\nc\n```\nd\n```"

theorem shake_is_local_fences :
    pushBlockRegions unitCount ⟨0,0,[],1⟩ 0 none twoFences (js "user") =
        [.block ⟨0,none,2,11,9,js "```\nb\n```",js "user"⟩, .block ⟨0,none,14,23,9,js "```\nd\n```",js "user"⟩] ∧
      applyShakeRegions (fun _ => 0)
          [(.block ⟨0,none,2,11,9,js "```\nb\n```",js "user"⟩, js "[first]"),
            (.block ⟨0,none,14,23,9,js "```\nd\n```",js "user"⟩, js "[second]")]
          [⟨userEntry (js "u") none twoFences,none⟩] =
        [⟨userEntry (js "u") none (js "a\n[first]\nc\n[second]"),none⟩] := by
  have regions : pushBlockRegions unitCount ⟨0,0,[],1⟩ 0 none twoFences (js "user") =
      [.block ⟨0,none,2,11,9,js "```\nb\n```",js "user"⟩, .block ⟨0,none,14,23,9,js "```\nd\n```",js "user"⟩] := by
    decide
  refine ⟨regions,?_⟩
  have edited := (shake_is_local twoFences).2.2 unitCount ⟨0,0,[],1⟩ (fun _ => 0) (js "user")
    [⟨userEntry (js "u") none twoFences,none⟩] 0 ⟨userEntry (js "u") none twoFences,none⟩ none
    [(.block ⟨0,none,2,11,9,js "```\nb\n```",js "user"⟩, js "[first]"),
      (.block ⟨0,none,14,23,9,js "```\nd\n```",js "user"⟩, js "[second]")] rfl rfl
    (by rw [regions]; exact List.Subperm.refl _)
  exact edited.trans (by decide)

end Shake
