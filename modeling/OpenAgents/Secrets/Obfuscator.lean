import OpenAgents.Lib.OrderedMap
import OpenAgents.Lib.TextReplace
import OpenAgents.Conversation.Messages
import Mathlib.Data.List.Sort

/- Secrets, the placeholders that stand for them, and the messages that go out with placeholders.
   The two hash functions and the regular expressions are the runtime's. -/
namespace Secrets
open JsText OrderedMap TextReplace Conversation

structure Runtime where
  /- Of the index in decimal, with the seed of the placeholders. -/
  xxHash32 : Nat → Nat
  hash : JsString → Nat

inductive SecretMode where
  | obfuscate
  | replace
  deriving DecidableEq

/-- A compiled pattern finds the different matches in a text that are not empty; a pattern that does
    not compile is `none`. -/
inductive SecretEntry where
  | plain (content : JsString) (mode : SecretMode) (replacement : Option JsString)
  | regex (compiled : Option (JsString → List JsString)) (mode : SecretMode) (replacement : Option JsString)

def replacementChars : JsString := js "ABCDEFGHIJKLMNOPQRSTUVWXYZabcdefghijklmnopqrstuvwxyz0123456789"

def replacementFrom : Nat → Nat → Nat → JsString
  | 0, _, _ => []
  | count + 1, i, h =>
      let mixed := h ^^^ ((i + 1) * 0x9e3779b97f4a7c15)
      replacementChars.getD (mixed % replacementChars.length) 0 :: replacementFrom count (i + 1) mixed

def generateDeterministicReplacement (runtime : Runtime) (secret : JsString) : JsString :=
  replacementFrom secret.length 0 (runtime.hash secret)

def hashChars : JsString := js "ABCDEFGHIJKLMNOPQRSTUVWXYZ0123456789"

def numberSign : CodeUnit := 35

def tagFrom : Nat → Nat → JsString
  | 0, _ => []
  | count + 1, v => hashChars.getD (v % hashChars.length) 0 :: tagFrom count (v / hashChars.length)

def buildPlaceholder (runtime : Runtime) (index : Nat) : JsString :=
  numberSign :: (tagFrom 4 (runtime.xxHash32 index) ++ [numberSign])

structure Mapping where
  secret : JsString
  placeholder : JsString

structure RegexEntry where
  find : JsString → List JsString
  mode : SecretMode
  replacement : Option JsString

structure Obfuscator where
  plainMappings : OMap JsString Nat
  regexEntries : List RegexEntry
  obfuscateMappings : OMap Nat Mapping
  replaceMappings : OMap JsString JsString
  deobfuscateMap : OMap JsString JsString
  nextIndex : Nat
  hasAny : Bool

def addEntry (runtime : Runtime) (o : Obfuscator) : SecretEntry → Obfuscator
  | .plain content .obfuscate _ =>
      let placeholder := buildPlaceholder runtime o.nextIndex
      { o with
        plainMappings := put o.plainMappings content o.nextIndex
        obfuscateMappings := put o.obfuscateMappings o.nextIndex ⟨content,placeholder⟩
        deobfuscateMap := put o.deobfuscateMap placeholder content
        nextIndex := o.nextIndex + 1 }
  | .plain content .replace replacement =>
      { o with
        replaceMappings := put o.replaceMappings content
          (replacement.getD (generateDeterministicReplacement runtime content)) }
  | .regex (some find) mode replacement => { o with regexEntries := o.regexEntries ++ [⟨find,mode,replacement⟩] }
  | .regex none _ _ => o

def secretObfuscator (runtime : Runtime) (entries : List SecretEntry) : Obfuscator :=
  entries.foldl (addEntry runtime) ⟨[],[],[],[],[],0,!entries.isEmpty⟩

/- Longer texts first, and otherwise in the order of the map. -/
def byLength {α : Type} (entries : List (JsString × α)) : List (JsString × α) :=
  entries.insertionSort fun a b => b.1.length ≤ a.1.length

def findObfuscateIndex (o : Obfuscator) (secret : JsString) : Option Nat :=
  (get? o.plainMappings secret).or ((o.obfuscateMappings.find? fun entry => entry.2.secret = secret).map Prod.fst)

def placeholderAt (o : Obfuscator) (index : Nat) : JsString := ((get? o.obfuscateMappings index).map Mapping.placeholder).getD []

/- A match that is not known yet gets the next index. -/
def indexFor (runtime : Runtime) (o : Obfuscator) (secret : JsString) : Nat × Obfuscator :=
  match findObfuscateIndex o secret with
  | some index => (index, o)
  | none =>
      let placeholder := buildPlaceholder runtime o.nextIndex
      (o.nextIndex,
        { o with
          obfuscateMappings := put o.obfuscateMappings o.nextIndex ⟨secret,placeholder⟩
          deobfuscateMap := put o.deobfuscateMap placeholder secret
          nextIndex := o.nextIndex + 1 })

abbrev Obfuscating := StateM Obfuscator

def replaceMatch (runtime : Runtime) (entry : RegexEntry) (result matchValue : JsString) : Obfuscating JsString := do
  match entry.mode with
  | .replace =>
      return replaceAll result matchValue (entry.replacement.getD (generateDeterministicReplacement runtime matchValue))
  | .obfuscate =>
      let index ← modifyGet fun o => indexFor runtime o matchValue
      return replaceAll result matchValue (placeholderAt (← get) index)

def replaceEntry (runtime : Runtime) (result : JsString) (entry : RegexEntry) : Obfuscating JsString :=
  (entry.find result).foldlM (replaceMatch runtime entry) result

/- The plain secrets, replaced one after the other. -/
def replacePlain (o : Obfuscator) (text : JsString) : JsString :=
  (byLength o.plainMappings).foldl (fun result entry => replaceAll result entry.1 (placeholderAt o entry.2))
    ((byLength o.replaceMappings).foldl (fun result entry => replaceAll result entry.1 entry.2) text)

def obfuscate (runtime : Runtime) (text : JsString) : Obfuscating JsString := do
  let o ← get
  if o.hasAny then o.regexEntries.foldlM (replaceEntry runtime) (replacePlain o text) else return text

def isTagChar (c : CodeUnit) : Bool := (65 ≤ c && c ≤ 90) || (48 ≤ c && c ≤ 57)

/- `#[A-Z0-9]{4}#` -/
def isToken : JsString → Bool
  | [a, b, c, d, e, f] => a == numberSign && isTagChar b && isTagChar c && isTagChar d && isTagChar e && f == numberSign
  | _ => false

/- The global replacement of `PLACEHOLDER_RE`: tokens from left to right, each behind the last one. -/
def replaceTokens (lookup : JsString → Option JsString) : JsString → JsString
  | a :: b :: c :: d :: e :: f :: rest =>
      if isToken [a, b, c, d, e, f] then (lookup [a, b, c, d, e, f]).getD [a, b, c, d, e, f] ++ replaceTokens lookup rest
      else a :: replaceTokens lookup (b :: c :: d :: e :: f :: rest)
  | short => short

def deobfuscate (o : Obfuscator) (text : JsString) : JsString :=
  if !o.hasAny || !text.contains numberSign then text else replaceTokens (get? o.deobfuscateMap) text

def obfuscatePart (runtime : Runtime) : ContentPart → Obfuscating ContentPart
  | .text content => do return .text { content with text := ← obfuscate runtime content.text }
  | other => return other

def obfuscateBlock (runtime : Runtime) : AssistantBlock → Obfuscating AssistantBlock
  | .text content => do return .text { content with text := ← obfuscate runtime content.text }
  | other => return other

/- Content that is no list is left as it is. -/
def obfuscateContent (runtime : Runtime) : MessageContent → Obfuscating MessageContent
  | .plain text => return .plain text
  | .parts parts => do return .parts (← parts.mapM (obfuscatePart runtime))

def obfuscateMessage (runtime : Runtime) : Message → Obfuscating Message
  | .user m => do return .user { m with content := ← obfuscateContent runtime m.content }
  | .developer m => do return .developer { m with content := ← obfuscateContent runtime m.content }
  | .assistant m => do return .assistant { m with content := ← m.content.mapM (obfuscateBlock runtime) }
  | .toolResult m => do return .toolResult { m with content := ← m.content.mapM (obfuscatePart runtime) }

def obfuscateMessages (runtime : Runtime) (messages : List Message) : Obfuscating (List Message) :=
  messages.mapM (obfuscateMessage runtime)

/- Secrets that are all plain and to be obfuscated. -/
def ofSecrets (runtime : Runtime) (secrets : List JsString) : Obfuscator :=
  secretObfuscator runtime (secrets.map fun secret => .plain secret .obfuscate none)

/-- What the constructor leaves behind for such secrets. -/
structure Built (runtime : Runtime) (secrets : List JsString) (o : Obfuscator) : Prop where
  noReplace : o.replaceMappings = []
  noRegex : o.regexEntries = []
  next : o.nextIndex = secrets.length
  plain : ∀ entry ∈ o.plainMappings, secrets[entry.2]? = some entry.1
  all : ∀ secret ∈ secrets, secret ∈ o.plainMappings.map Prod.fst
  mappings : ∀ i secret, secrets[i]? = some secret → get? o.obfuscateMappings i = some ⟨secret,buildPlaceholder runtime i⟩
  known : ∀ placeholder secret, get? o.deobfuscateMap placeholder = some secret →
    ∃ i, secrets[i]? = some secret ∧ placeholder = buildPlaceholder runtime i
  listed : ∀ i secret, secrets[i]? = some secret → ∃ other, get? o.deobfuscateMap (buildPlaceholder runtime i) = some other

variable {κ ν : Type} {runtime : Runtime} {secrets : List JsString}

theorem get_put [DecidableEq κ] (m : OMap κ ν) (k : κ) (v : ν) (j : κ) :
    get? (put m k v) j = if k = j then some v else get? m j := by
  induction m with
  | nil => by_cases same : k = j <;> simp [put, get?, same]
  | cons entry rest ih =>
    rw [put]
    split
    · rename_i here
      by_cases same : k = j
      · simp [get?, same]
      · have other : ¬ entry.1 = j := fun equal => same (here.symm.trans equal)
        simp [get?, same, other]
    · rename_i other
      by_cases first : entry.1 = j
      · have differ : ¬ k = j := fun equal => other (first.trans equal.symm)
        simp [get?, first, differ]
      · simpa [get?, first] using ih

theorem built_add {o : Obfuscator} (built : Built runtime secrets o) (secret : JsString) : Built runtime (secrets ++ [secret]) (addEntry runtime o (.plain secret .obfuscate none)) where
  noReplace := built.noReplace
  noRegex := built.noRegex
  next := by
    rw [addEntry, built.next, List.length_append]
    rfl
  plain := by
    intro entry mem
    rcases mem_put mem with new | old
    · rw [new, built.next]
      simp
    · have before := built.plain entry old
      have inside : entry.2 < secrets.length := (List.getElem?_eq_some_iff.mp before).1
      rw [List.getElem?_append_left inside]
      exact before
  all := by
    intro other mem
    rw [addEntry]
    dsimp only
    rw [mem_put_keys]
    rcases List.mem_append.mp mem with old | new
    · exact .inr (built.all other old)
    · exact .inl (List.mem_singleton.mp new)
  mappings := by
    intro i other there
    rw [addEntry]
    dsimp only
    rw [get_put, built.next]
    split
    · rename_i last
      rw [← last] at there
      simp only [List.getElem?_concat_length, Option.some.injEq] at there
      rw [← there, last]
    · rename_i before
      have inside : i < secrets.length := by
        have bound := (List.getElem?_eq_some_iff.mp there).1
        rw [List.length_append, List.length_singleton] at bound
        omega
      rw [List.getElem?_append_left inside] at there
      exact built.mappings i other there
  known := by
    intro placeholder other found
    rw [addEntry] at found
    dsimp only at found
    rw [get_put] at found
    split at found
    · rename_i same
      cases found
      refine ⟨secrets.length,List.getElem?_concat_length,?_⟩
      rw [← same, built.next]
    · obtain ⟨i,there,is⟩ := built.known placeholder other found
      have inside : i < secrets.length := (List.getElem?_eq_some_iff.mp there).1
      exact ⟨i,by rw [List.getElem?_append_left inside]; exact there,is⟩
  listed := by
    intro i other there
    rw [addEntry]
    dsimp only
    rw [get_put, built.next]
    split
    · exact ⟨secret,rfl⟩
    · rename_i differ
      have notLast : i ≠ secrets.length := by
        intro same
        rw [same] at differ
        exact differ rfl
      have bound := (List.getElem?_eq_some_iff.mp there).1
      rw [List.length_append, List.length_singleton] at bound
      rw [List.getElem?_append_left (by omega)] at there
      exact built.listed i other there

theorem ofSecrets_built (runtime : Runtime) (secrets : List JsString) : Built runtime secrets (ofSecrets runtime secrets) := by
  have build : ∀ (rest done : List JsString) (o : Obfuscator), Built runtime done o →
      Built runtime (done ++ rest) ((rest.map fun secret => SecretEntry.plain secret .obfuscate none).foldl (addEntry runtime) o) := by
    intro rest
    induction rest with
    | nil =>
      intro done o built
      rw [List.append_nil]
      exact built
    | cons secret rest ih =>
      intro done o built
      have next := ih (done ++ [secret]) _ (built_add built secret)
      rw [List.append_assoc] at next
      exact next
  apply build secrets []
  constructor <;> simp [get?]

theorem ofSecrets_hasAny (runtime : Runtime) (secrets : List JsString) : (ofSecrets runtime secrets).hasAny = !secrets.isEmpty := by
  have kept : ∀ (rest : List JsString) (o : Obfuscator),
      ((rest.map fun secret => SecretEntry.plain secret .obfuscate none).foldl (addEntry runtime) o).hasAny = o.hasAny := by
    intro rest
    induction rest with
    | nil => exact fun _ => rfl
    | cons secret rest ih => exact fun o => ih (addEntry runtime o (.plain secret .obfuscate none))
  rw [ofSecrets, secretObfuscator, kept, List.isEmpty_map]

/- The secrets with their placeholders, in the order in which they are replaced. -/
def orderedPairs (runtime : Runtime) (secrets : List JsString) : List (JsString × JsString) :=
  (byLength (ofSecrets runtime secrets).plainMappings).map fun entry => (entry.1, buildPlaceholder runtime entry.2)

theorem mem_orderedPairs {pair : JsString × JsString} (mem : pair ∈ orderedPairs runtime secrets) : ∃ i, secrets[i]? = some pair.1 ∧ pair.2 = buildPlaceholder runtime i := by
  obtain ⟨entry,inside,is⟩ := List.mem_map.mp mem
  rw [byLength, List.mem_insertionSort] at inside
  rw [← is]
  exact ⟨entry.2,(ofSecrets_built runtime secrets).plain entry inside,rfl⟩

theorem secret_ordered {secret : JsString} (mem : secret ∈ secrets) :
    ∃ pair ∈ orderedPairs runtime secrets, pair.1 = secret := by
  obtain ⟨entry,inside,same⟩ := List.mem_map.mp ((ofSecrets_built runtime secrets).all secret mem)
  refine ⟨(entry.1, buildPlaceholder runtime entry.2),?_,same⟩
  apply List.mem_map.mpr
  exact ⟨entry,by rw [byLength, List.mem_insertionSort]; exact inside,rfl⟩

def replacePairs (pairs : List (JsString × JsString)) (text : JsString) : JsString :=
  pairs.foldl (fun result pair => replaceAll result pair.1 pair.2) text

/-- Without patterns the obfuscator stays as it is. -/
theorem obfuscate_eq (runtime : Runtime) (secrets : List JsString) (text : JsString) :
    obfuscate runtime text (ofSecrets runtime secrets) =
      (replacePairs (orderedPairs runtime secrets) text, ofSecrets runtime secrets) := by
  have built := ofSecrets_built runtime secrets
  have pairs : replacePlain (ofSecrets runtime secrets) text = replacePairs (orderedPairs runtime secrets) text := by
    rw [replacePlain, built.noReplace, replacePairs, orderedPairs, List.foldl_map]
    apply List.foldl_ext
    intro result entry mem
    rw [byLength, List.mem_insertionSort] at mem
    rw [placeholderAt, built.mappings entry.2 entry.1 (built.plain entry mem)]
    rfl
  have run : obfuscate runtime text (ofSecrets runtime secrets) =
      if (ofSecrets runtime secrets).hasAny then
        (ofSecrets runtime secrets).regexEntries.foldlM (replaceEntry runtime) (replacePlain (ofSecrets runtime secrets) text)
          (ofSecrets runtime secrets)
      else (text, ofSecrets runtime secrets) := by
    change (if (ofSecrets runtime secrets).hasAny then
        (ofSecrets runtime secrets).regexEntries.foldlM (replaceEntry runtime) (replacePlain (ofSecrets runtime secrets) text)
      else pure text : Obfuscating JsString) (ofSecrets runtime secrets) = _
    split <;> rfl
  rw [run, built.noRegex, pairs]
  split
  · rfl
  · rename_i none'
    rw [ofSecrets_hasAny] at none'
    cases secrets with
    | nil => rfl
    | cons secret rest => exact absurd rfl none'

/- The first four values of the hash, for texts without generated replacements. -/
def seeded : Runtime where
  xxHash32 := fun i => [842350091, 3830983177, 2480567035, 2707882129].getD i 0
  hash := fun _ => 0

end Secrets
