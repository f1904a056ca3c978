import OpenAgents.Secrets.Obfuscator

/- Which secrets leave in messages: those in a message whose content is a plain string, and
   those that come up around a placeholder. -/
namespace SecretLeaks
open JsText TextReplace Conversation Secrets

/- All texts of a message: its text blocks, or its plain content. -/
def partTexts (parts : List ContentPart) : List JsString :=
  parts.filterMap fun part => match part with
    | .text content => some content.text
    | _ => none

def blockTexts (blocks : List AssistantBlock) : List JsString :=
  blocks.filterMap fun block => match block with
    | .text content => some content.text
    | _ => none

def contentTexts : MessageContent → List JsString
  | .plain text => [text]
  | .parts parts => partTexts parts

def texts : Message → List JsString
  | .user m => contentTexts m.content
  | .developer m => contentTexts m.content
  | .assistant m => blockTexts m.content
  | .toolResult m => partTexts m.content

def plainText? : Message → Option JsString
  | .user ⟨.plain text,_⟩ => some text
  | .developer ⟨.plain text,_⟩ => some text
  | _ => none

/- A proper end of the one is a proper beginning of the other. -/
def OverlapsEdge (secret placeholder : JsString) : Prop :=
  ∃ shared, shared ≠ [] ∧ shared ≠ secret ∧ shared ≠ placeholder ∧
    ((shared <:+ secret ∧ shared <+: placeholder) ∨ (shared <+: secret ∧ shared <:+ placeholder))

instance (secret placeholder : JsString) : Decidable (OverlapsEdge secret placeholder) :=
  decidable_of_iff (∃ shared ∈ secret.tails ++ secret.inits, shared ≠ [] ∧ shared ≠ secret ∧ shared ≠ placeholder ∧
      ((shared <:+ secret ∧ shared <+: placeholder) ∨ (shared <+: secret ∧ shared <:+ placeholder))) (by
    constructor
    · intro ⟨shared,_,overlaps⟩
      exact ⟨shared,overlaps⟩
    · intro ⟨shared,some',own,other,sides⟩
      refine ⟨shared,?_,some',own,other,sides⟩
      rw [List.mem_append, List.mem_tails, List.mem_inits]
      exact sides.imp And.left And.left)

/- No secret is part of a placeholder or overlaps the edge of one. -/
def Unmixed (runtime : Runtime) (secrets : List JsString) : Prop :=
  ∀ secret ∈ secrets, ∀ i < secrets.length,
    ¬ secret <:+: buildPlaceholder runtime i ∧ ¬ OverlapsEdge secret (buildPlaceholder runtime i)

instance (runtime : Runtime) (secrets : List JsString) : Decidable (Unmixed runtime secrets) :=
  inferInstanceAs (Decidable (∀ secret ∈ secrets, ∀ i < secrets.length,
    ¬ secret <:+: buildPlaceholder runtime i ∧ ¬ OverlapsEdge secret (buildPlaceholder runtime i)))

/- No secret contains the placeholder of a secret that a text holds. -/
def NoneAround (runtime : Runtime) (secrets : List JsString) (text : JsString) : Prop :=
  ∀ pair ∈ orderedPairs runtime secrets, pair.1 <:+: text → ∀ secret ∈ secrets, ¬ pair.2 <:+: secret

instance (runtime : Runtime) (secrets : List JsString) (text : JsString) : Decidable (NoneAround runtime secrets text) :=
  inferInstanceAs (Decidable (∀ pair ∈ orderedPairs runtime secrets, pair.1 <:+: text → ∀ secret ∈ secrets, ¬ pair.2 <:+: secret))

def NoLeak (secrets : List JsString) (messages : List Message) : Prop :=
  ∀ message ∈ messages, ∀ text ∈ texts message, ∀ secret ∈ secrets, ¬ secret <:+: text

instance (secrets : List JsString) (messages : List Message) : Decidable (NoLeak secrets messages) :=
  inferInstanceAs (Decidable (∀ message ∈ messages, ∀ text ∈ texts message, ∀ secret ∈ secrets, ¬ secret <:+: text))

def PlainClean (secrets : List JsString) (messages : List Message) : Prop :=
  ∀ message ∈ messages, ∀ text ∈ plainText? message, ∀ secret ∈ secrets, ¬ secret <:+: text

instance (secrets : List JsString) (messages : List Message) : Decidable (PlainClean secrets messages) :=
  inferInstanceAs (Decidable (∀ message ∈ messages, ∀ text ∈ plainText? message, ∀ secret ∈ secrets, ¬ secret <:+: text))

theorem apart_of_unmixed {runtime : Runtime} {secrets : List JsString} (unmixed : Unmixed runtime secrets)
    {secret : JsString} (mem : secret ∈ secrets) {i : Nat} (inside : i < secrets.length)
    (notAround : ¬ buildPlaceholder runtime i <:+: secret) : Apart secret (buildPlaceholder runtime i) := by
  obtain ⟨notInside,noEdge⟩ := unmixed secret mem i inside
  refine ⟨?_,notInside,notAround,?_,?_⟩
  · intro empty
    rw [empty] at notInside
    exact notInside (List.nil_infix)
  · intro shared some' ending beginning
    refine noEdge ⟨shared,some',?_,?_,.inl ⟨ending,beginning⟩⟩
    · intro same
      rw [same] at beginning
      exact notInside beginning.isInfix
    · intro same
      rw [same] at ending
      exact notAround ending.isInfix
  · intro shared some' beginning ending
    refine noEdge ⟨shared,some',?_,?_,.inr ⟨beginning,ending⟩⟩
    · intro same
      rw [same] at ending
      exact notInside ending.isInfix
    · intro same
      rw [same] at beginning
      exact notAround beginning.isInfix

section pairs
variable {all : List (JsString × JsString)} {start : JsString}

/- The secrets of the original text are the only ones that any later text holds. -/
def Held (all : List (JsString × JsString)) (start text : JsString) : Prop := ∀ pair ∈ all, pair.1 <:+: text → pair.1 <:+: start

variable (apart : ∀ one ∈ all, ∀ other ∈ all, other.1 <:+: start → Apart one.1 other.2)
include apart

theorem replace_keeps {pair one : JsString × JsString} (mem : pair ∈ all) (inside : one ∈ all) {text : JsString}
    (held : Held all start text) (absent : ¬ one.1 <:+: text) : ¬ one.1 <:+: replaceAll text pair.1 pair.2 := by
  by_cases here : pair.1 <:+: text
  · have original := held pair mem here
    exact replace_keeps_absent (apart pair mem pair mem original).some' (apart one inside pair mem original) absent
  · have some' : pair.1 ≠ [] := by
      intro empty
      rw [empty] at here
      exact here List.nil_infix
    rw [replaceAll_none some' (firstAt_none_iff.mpr here)]
    exact absent

variable {pair : JsString × JsString} {pairs : List (JsString × JsString)}

theorem held_replace (mem : pair ∈ all) {text : JsString} (held : Held all start text) :
    Held all start (replaceAll text pair.1 pair.2) := by
  intro one inside occurs
  apply held one inside
  by_contra absent
  exact replace_keeps apart mem inside held absent occurs

theorem replacePairs_keeps (within : ∀ pair ∈ pairs, pair ∈ all) {one : JsString × JsString} (inside : one ∈ all)
    {text : JsString} (held : Held all start text) (absent : ¬ one.1 <:+: text) : ¬ one.1 <:+: replacePairs pairs text := by
  induction pairs generalizing text with
  | nil => exact absent
  | cons pair rest ih =>
    rw [List.forall_mem_cons] at within
    exact ih within.2 (held_replace apart within.1 held) (replace_keeps apart within.1 inside held absent)

theorem replace_clears_held (mem : pair ∈ all) {text : JsString} (held : Held all start text) :
    ¬ pair.1 <:+: replaceAll text pair.1 pair.2 := by
  by_cases here : pair.1 <:+: text
  · exact replace_clears (apart pair mem pair mem (held pair mem here)) text
  · exact replace_keeps apart mem mem held here

theorem replacePairs_clears (within : ∀ pair ∈ pairs, pair ∈ all) {text : JsString} (held : Held all start text) : ∀ pair ∈ pairs, ¬ pair.1 <:+: replacePairs pairs text := by
  induction pairs generalizing text with
  | nil => simp
  | cons pair rest ih =>
    obtain ⟨mem,later⟩ := List.forall_mem_cons.mp within
    have held' := held_replace apart mem held
    intro one inside
    change ¬ one.1 <:+: replacePairs rest (replaceAll text pair.1 pair.2)
    rcases List.mem_cons.mp inside with same | other
    · rw [same]
      exact replacePairs_keeps apart later mem held' (replace_clears_held apart mem held)
    · exact ih later held' one other

end pairs

theorem obfuscated_clean {runtime : Runtime} {secrets : List JsString} (unmixed : Unmixed runtime secrets) {text : JsString}
    (noneAround : NoneAround runtime secrets text) :
    ∀ secret ∈ secrets, ¬ secret <:+: (obfuscate runtime text (ofSecrets runtime secrets)).1 := by
  intro secret mem
  have apart : ∀ one ∈ orderedPairs runtime secrets, ∀ other ∈ orderedPairs runtime secrets, other.1 <:+: text →
      Apart one.1 other.2 := by
    intro one first other second held
    obtain ⟨i,there,_⟩ := mem_orderedPairs first
    obtain ⟨j,here,is⟩ := mem_orderedPairs second
    have inside := List.mem_of_getElem? there
    have away := noneAround other second held one.1 inside
    rw [is] at away ⊢
    exact apart_of_unmixed unmixed inside (List.getElem?_eq_some_iff.mp here).1 away
  obtain ⟨pair,inside,same⟩ := secret_ordered mem
  rw [obfuscate_eq, ← same]
  exact replacePairs_clears apart (fun _ other => other) (fun _ _ occurs => occurs) pair inside

/-- A loop of actions that leave the obfuscator alone. -/
theorem mapM_still {α β : Type} {f : α → Obfuscating β} {o : Obfuscator} {g : α → β} (items : List α)
    (still : ∀ item ∈ items, f item o = (g item, o)) : items.mapM f o = (items.map g, o) := by
  induction items with
  | nil => rfl
  | cons item rest ih =>
    rw [List.forall_mem_cons] at still
    rw [List.mapM_cons]
    change ((f item >>= fun b => rest.mapM f >>= fun bs => pure (b :: bs)) o) = _
    change ((rest.mapM f >>= fun bs => pure ((f item o).1 :: bs)) (f item o).2) = _
    rw [still.1]
    change (((g item, o).1 :: (rest.mapM f o).1), (rest.mapM f o).2) = _
    rw [ih still.2]
    rfl

section messages
variable (runtime : Runtime) (secrets : List JsString)

/- The text that goes out for a text block. -/
def hide (text : JsString) : JsString := (obfuscate runtime text (ofSecrets runtime secrets)).1

def hidePart : ContentPart → ContentPart
  | .text content => .text { content with text := hide runtime secrets content.text }
  | other => other

def hideBlock : AssistantBlock → AssistantBlock
  | .text content => .text { content with text := hide runtime secrets content.text }
  | other => other

def hideContent : MessageContent → MessageContent
  | .plain text => .plain text
  | .parts parts => .parts (parts.map (hidePart runtime secrets))

def hideMessage : Message → Message
  | .user m => .user { m with content := hideContent runtime secrets m.content }
  | .developer m => .developer { m with content := hideContent runtime secrets m.content }
  | .assistant m => .assistant { m with content := m.content.map (hideBlock runtime secrets) }
  | .toolResult m => .toolResult { m with content := m.content.map (hidePart runtime secrets) }

theorem obfuscate_still (text : JsString) : obfuscate runtime text (ofSecrets runtime secrets) =
    (hide runtime secrets text, ofSecrets runtime secrets) := by
  rw [hide, obfuscate_eq]

theorem part_still (part : ContentPart) : obfuscatePart runtime part (ofSecrets runtime secrets) =
    (hidePart runtime secrets part, ofSecrets runtime secrets) := by
  cases part with
  | image content => rfl
  | text content =>
    change (ContentPart.text { content with text := (obfuscate runtime content.text (ofSecrets runtime secrets)).1 },
      (obfuscate runtime content.text (ofSecrets runtime secrets)).2) = _
    rw [obfuscate_still]
    rfl

theorem block_still (block : AssistantBlock) : obfuscateBlock runtime block (ofSecrets runtime secrets) =
    (hideBlock runtime secrets block, ofSecrets runtime secrets) := by
  cases block with
  | text content =>
    change (AssistantBlock.text { content with text := (obfuscate runtime content.text (ofSecrets runtime secrets)).1 },
      (obfuscate runtime content.text (ofSecrets runtime secrets)).2) = _
    rw [obfuscate_still]
    rfl
  | thinking content => rfl
  | redactedThinking content => rfl
  | toolCall call => rfl

theorem content_still (content : MessageContent) : obfuscateContent runtime content (ofSecrets runtime secrets) =
    (hideContent runtime secrets content, ofSecrets runtime secrets) := by
  cases content with
  | plain text => rfl
  | parts parts =>
    change (MessageContent.parts (parts.mapM (obfuscatePart runtime) (ofSecrets runtime secrets)).1,
      (parts.mapM (obfuscatePart runtime) (ofSecrets runtime secrets)).2) = _
    rw [mapM_still parts fun part _ => part_still runtime secrets part]
    rfl

theorem message_still (message : Message) : obfuscateMessage runtime message (ofSecrets runtime secrets) =
    (hideMessage runtime secrets message, ofSecrets runtime secrets) := by
  cases message with
  | user m =>
    change (Message.user { m with content := (obfuscateContent runtime m.content (ofSecrets runtime secrets)).1 },
      (obfuscateContent runtime m.content (ofSecrets runtime secrets)).2) = _
    rw [content_still]
    rfl
  | developer m =>
    change (Message.developer { m with content := (obfuscateContent runtime m.content (ofSecrets runtime secrets)).1 },
      (obfuscateContent runtime m.content (ofSecrets runtime secrets)).2) = _
    rw [content_still]
    rfl
  | assistant m =>
    change (Message.assistant { m with content := (m.content.mapM (obfuscateBlock runtime) (ofSecrets runtime secrets)).1 },
      (m.content.mapM (obfuscateBlock runtime) (ofSecrets runtime secrets)).2) = _
    rw [mapM_still m.content fun block _ => block_still runtime secrets block]
    rfl
  | toolResult m =>
    change (Message.toolResult { m with content := (m.content.mapM (obfuscatePart runtime) (ofSecrets runtime secrets)).1 },
      (m.content.mapM (obfuscatePart runtime) (ofSecrets runtime secrets)).2) = _
    rw [mapM_still m.content fun part _ => part_still runtime secrets part]
    rfl

theorem messages_hidden (messages : List Message) : (obfuscateMessages runtime messages (ofSecrets runtime secrets)).1 =
    messages.map (hideMessage runtime secrets) := by
  rw [obfuscateMessages, mapM_still messages fun message _ => message_still runtime secrets message]

variable {runtime secrets}

theorem mem_partTexts {parts : List ContentPart} {text : JsString} (mem : text ∈ partTexts (parts.map (hidePart runtime secrets))) :
    ∃ original ∈ partTexts parts, text = hide runtime secrets original := by
  obtain ⟨part,inside,is⟩ := List.mem_filterMap.mp mem
  obtain ⟨own,there,made⟩ := List.mem_map.mp inside
  rw [← made] at is
  cases own with
  | image content => contradiction
  | text content => exact ⟨content.text,List.mem_filterMap.mpr ⟨_,there,rfl⟩,(Option.some.inj is).symm⟩

theorem mem_blockTexts {blocks : List AssistantBlock} {text : JsString}
    (mem : text ∈ blockTexts (blocks.map (hideBlock runtime secrets))) :
    ∃ original ∈ blockTexts blocks, text = hide runtime secrets original := by
  obtain ⟨block,inside,is⟩ := List.mem_filterMap.mp mem
  obtain ⟨own,there,made⟩ := List.mem_map.mp inside
  rw [← made] at is
  cases own with
  | text content => exact ⟨content.text,List.mem_filterMap.mpr ⟨_,there,rfl⟩,(Option.some.inj is).symm⟩
  | thinking content => contradiction
  | redactedThinking content => contradiction
  | toolCall call => contradiction

/-- A text that goes out is obfuscated, or is the content of a message with plain content. -/
theorem texts_hidden {message : Message} {text : JsString} (mem : text ∈ texts (hideMessage runtime secrets message)) :
    (∃ original ∈ texts message, text = hide runtime secrets original) ∨ plainText? message = some text := by
  cases message with
  | user m =>
    obtain ⟨content,timestamp⟩ := m
    cases content with
    | plain own => exact .inr (congrArg some (List.mem_singleton.mp mem).symm)
    | parts parts => exact .inl (mem_partTexts mem)
  | developer m =>
    obtain ⟨content,timestamp⟩ := m
    cases content with
    | plain own => exact .inr (congrArg some (List.mem_singleton.mp mem).symm)
    | parts parts => exact .inl (mem_partTexts mem)
  | assistant m => exact .inl (mem_blockTexts mem)
  | toolResult m => exact .inl (mem_partTexts mem)

theorem plain_stays {message : Message} {text : JsString} (plain : plainText? message = some text) :
    text ∈ texts (hideMessage runtime secrets message) := by
  cases message with
  | user m =>
    obtain ⟨content,timestamp⟩ := m
    cases content with
    | plain own => exact List.mem_singleton.mpr (Option.some.inj plain).symm
    | parts parts => contradiction
  | developer m =>
    obtain ⟨content,timestamp⟩ := m
    cases content with
    | plain own => exact List.mem_singleton.mpr (Option.some.inj plain).symm
    | parts parts => contradiction
  | assistant m => contradiction
  | toolResult m => contradiction

end messages

/- The one secret comes up around the placeholder of the other. -/
example : (obfuscate seeded (js "xabcy") (ofSecrets seeded [js "abc", js "x#XRRS#y"])).1 = js "x#XRRS#y" := by decide +kernel

section again
variable {runtime : Runtime} {secrets : List JsString} {parts : List ContentPart} {blocks : List AssistantBlock}

theorem replacePairs_absent {pairs : List (JsString × JsString)} {text : JsString} (absent : ∀ pair ∈ pairs, ¬ pair.1 <:+: text) :
    replacePairs pairs text = text := by
  induction pairs with
  | nil => rfl
  | cons pair rest ih =>
    obtain ⟨here,later⟩ := List.forall_mem_cons.mp absent
    have some' : pair.1 ≠ [] := fun empty => here (empty ▸ List.nil_infix)
    rw [replacePairs, List.foldl_cons, replaceAll_none some' (firstAt_none_iff.mpr here)]
    exact ih later

/-- An obfuscated text is left alone. -/
theorem hide_again (unmixed : Unmixed runtime secrets) {text : JsString} (noneAround : NoneAround runtime secrets text) :
    hide runtime secrets (hide runtime secrets text) = hide runtime secrets text := by
  have clean : ∀ secret ∈ secrets, ¬ secret <:+: hide runtime secrets text := obfuscated_clean unmixed noneAround
  nth_rewrite 1 [hide]
  rw [obfuscate_eq]
  refine replacePairs_absent fun pair inside => ?_
  obtain ⟨i,there,-⟩ := mem_orderedPairs inside
  exact clean pair.1 (List.mem_of_getElem? there)

variable (unmixed : Unmixed runtime secrets)
include unmixed

theorem parts_again (noneAround : ∀ text ∈ partTexts parts, NoneAround runtime secrets text) :
    (parts.map (hidePart runtime secrets)).map (hidePart runtime secrets) = parts.map (hidePart runtime secrets) := by
  rw [List.map_map]
  refine List.map_congr_left fun part mem => ?_
  cases part with
  | image content => rfl
  | text content =>
    have again := hide_again unmixed (noneAround content.text (List.mem_filterMap.mpr ⟨_,mem,rfl⟩))
    exact congrArg (fun text => ContentPart.text { content with text }) again

theorem blocks_again (noneAround : ∀ text ∈ blockTexts blocks, NoneAround runtime secrets text) :
    (blocks.map (hideBlock runtime secrets)).map (hideBlock runtime secrets) = blocks.map (hideBlock runtime secrets) := by
  rw [List.map_map]
  refine List.map_congr_left fun block mem => ?_
  cases block with
  | text content =>
    have again := hide_again unmixed (noneAround content.text (List.mem_filterMap.mpr ⟨_,mem,rfl⟩))
    exact congrArg (fun text => AssistantBlock.text { content with text }) again
  | _ => rfl

/-- Messages that were obfuscated for one request go out unchanged with the next. -/
theorem obfuscation_settles (messages : List Message)
    (noneAround : ∀ message ∈ messages, ∀ text ∈ texts message, NoneAround runtime secrets text) :
    let sent := (obfuscateMessages runtime messages (ofSecrets runtime secrets)).1
    (obfuscateMessages runtime sent (ofSecrets runtime secrets)).1 = sent := by
  intro sent
  rw [messages_hidden, show sent = messages.map (hideMessage runtime secrets) from messages_hidden runtime secrets messages, List.map_map]
  refine List.map_congr_left fun message mem => ?_
  have settled := noneAround message mem
  rcases message with ⟨⟨text⟩ | ⟨parts⟩,_⟩ | ⟨⟨text⟩ | ⟨parts⟩,_⟩ | m | m
  · rfl
  · exact congrArg (fun parts => Message.user ⟨.parts parts,_⟩) (parts_again unmixed settled)
  · rfl
  · exact congrArg (fun parts => Message.developer ⟨.parts parts,_⟩) (parts_again unmixed settled)
  · exact congrArg (fun content => Message.assistant { m with content }) (blocks_again unmixed settled)
  · exact congrArg (fun content => Message.toolResult { m with content }) (parts_again unmixed settled)

end again

theorem obfuscation_settles_listed :
    let sent := (obfuscateMessages seeded [.user ⟨.parts [.text ⟨js "use hunter-2!",none⟩],0⟩] (ofSecrets seeded [js "hunter-2"])).1
    (obfuscateMessages seeded sent (ofSecrets seeded [js "hunter-2"])).1 = sent :=
  obfuscation_settles (by decide +kernel) _ (by decide +kernel)

end SecretLeaks
