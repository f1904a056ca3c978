import OpenAgents.Commit.Changelog
import OpenAgents.Lib.FallibleState

/- What stands in the unreleased section, whether or not the parser takes it up, and what the parser
   makes of it. -/
namespace Changelog
open JsText JsJson JsObject

/- One line of the section below its heading, without the bullet. -/
structure Item where
  heading : JsString
  text : JsString
  deriving DecidableEq, Repr

/- Empty lines and empty bullets are no items. -/
def readItems (counts : JsString → JsString → Bool) : JsString → List JsString → List Item
  | _, [] => []
  | heading, line :: rest =>
      match sectionMatch line with
      | some group => readItems counts (trim group) rest
      | none =>
          let text := withoutBullet (trim line)
          if counts heading (trim line) && !text.isEmpty then ⟨heading,text⟩ :: readItems counts heading rest
          else readItems counts heading rest

def anyLine (_ _ : JsString) : Bool := true

/- What the parser takes up. -/
def dashed (heading trimmed : JsString) : Bool := !heading.isEmpty && startsWith trimmed (js "-")

def unreleasedBounds (lines : List JsString) : Option (Nat × Nat) :=
  (lines.findIdx? fun line => isUnreleasedHeading (trim line)).map fun startIndex => (startIndex, sectionEnd lines startIndex)

def sectionLines (lines : List JsString) : List JsString :=
  match unreleasedBounds lines with
  | none => []
  | some (startIndex, endIndex) => (lines.take endIndex).drop (startIndex + 1)

def sectionItems (content : JsString) : List Item := readItems anyLine [] (sectionLines (splitLines content))
def bulletItems (content : JsString) : List Item := readItems dashed [] (sectionLines (splitLines content))

def textsUnder (heading : JsString) (items : List Item) : List JsString :=
  (items.filter fun item => item.heading = heading).map Item.text

/- The sections the parser keeps, with or without entries. -/
def openedNames (lines : List JsString) : List JsString :=
  ((lines.filterMap sectionMatch).map trim).filter fun name => name ≠ [] ∧ name ≠ js "__proto__"

def Ordinary (name : JsString) : Prop := name ∉ inheritedNames

instance (name : JsString) : Decidable (Ordinary name) := inferInstanceAs (Decidable (name ∉ inheritedNames))

theorem ordinary_proto {name : JsString} (ordinary : Ordinary name) : name ≠ js "__proto__" := by
  intro same
  rw [same] at ordinary
  exact ordinary (by decide +kernel)

theorem textsUnder_cons (heading : JsString) (item : Item) (items : List Item) :
    textsUnder heading (item :: items) =
      if item.heading = heading then item.text :: textsUnder heading items else textsUnder heading items := by
  rw [textsUnder, List.filter_cons]
  by_cases same : item.heading = heading
  · rw [if_pos (decide_eq_true same), if_pos same]
    rfl
  · rw [if_neg (by simpa using same), if_neg same]
    rfl

theorem mem_textsUnder {heading text : JsString} {items : List Item} : text ∈ textsUnder heading items ↔ ⟨heading,text⟩ ∈ items := by
  rw [textsUnder, List.mem_map]
  constructor
  · rintro ⟨item,mem,rfl⟩
    rw [List.mem_filter, decide_eq_true_eq] at mem
    rw [← mem.2]
    exact mem.1
  · intro mem
    exact ⟨⟨heading,text⟩,List.mem_filter.mpr ⟨mem,decide_eq_true rfl⟩,rfl⟩

/-- Own properties hold lists unless their names are those of functions every object has. -/
def Honest (entries : Sections) : Prop := ∀ name value, getField entries name = some value → (value ≠ none ↔ Ordinary name)

/- The section that is open has been entered. -/
structure Tracked (state : ParseState) : Prop where
  honest : Honest state.entries
  distinct : (state.entries.map Prod.fst).Nodup
  entered : state.current = [] ∨ state.current = js "__proto__" ∨ state.current ∈ state.entries.map Prod.fst

theorem mem_keys {entries : Sections} {name : JsString} : name ∈ entries.map Prod.fst ↔ getField entries name ≠ none := by
  rw [ne_eq, get_none_iff, not_not]

section open'
variable {entries : Sections} {name : JsString}

theorem open_proto : openSection entries (js "__proto__") = entries := by
  rw [openSection, assignField, if_pos rfl]

theorem open_get (named : name ≠ js "__proto__") (other : JsString) :
    getField (openSection entries name) other =
      if name = other then some ((getField entries name).getD (if inheritedNames.contains name then none else some []))
      else getField entries other := get_assign _ named other

theorem open_honest (honest : Honest entries) : Honest (openSection entries name) := by
  intro other value found
  by_cases named : name = js "__proto__"
  · rw [named, open_proto] at found
    exact honest other value found
  · rw [open_get named] at found
    split at found
    · rename_i same
      rw [same] at found
      cases known : getField entries other with
      | some own =>
        rw [known] at found
        cases found
        exact honest other own known
      | none =>
        rw [known] at found
        cases found
        rw [Option.getD_none, Ordinary]
        by_cases inherited : other ∈ inheritedNames <;> simp [inherited]
    · exact honest other value found

theorem open_items (heading : JsString) : renderedItems (openSection entries name) heading = renderedItems entries heading := by
  by_cases named : name = js "__proto__"
  · rw [named, open_proto]
  · rw [renderedItems, open_get named, renderedItems]
    split
    · rename_i same
      rw [same]
      cases getField entries heading with
      | some own => rfl
      | none =>
        rw [Option.getD_none, Option.getD_some, Option.getD_none]
        split <;> rfl
    · rfl

theorem open_keys (other : JsString) : other ∈ (openSection entries name).map Prod.fst ↔
    other ∈ entries.map Prod.fst ∨ other = name ∧ name ≠ js "__proto__" := by
  by_cases named : name = js "__proto__"
  · rw [named, open_proto]
    simp
  · rw [mem_keys, mem_keys, open_get named]
    by_cases same : name = other
    · rw [if_pos same]
      exact iff_of_true (Option.some_ne_none _) (.inr ⟨same.symm,named⟩)
    · rw [if_neg same]
      exact ⟨.inl,fun known => known.resolve_right fun here => same here.1.symm⟩

end open'

/-- An entry is pushed onto a list, not onto a function. -/
theorem push_iff {state : ParseState} (tracked : Tracked state) (some' : state.current ≠ []) (entry : JsString) :
    (∃ entries, pushEntry state.entries state.current entry = .ok entries) ↔ Ordinary state.current := by
  rw [pushEntry]
  cases known : getField state.entries state.current with
  | none =>
    have proto : state.current = js "__proto__" := by
      rcases tracked.entered with empty | proto | mem
      · exact absurd empty some'
      · exact proto
      · exact absurd known (mem_keys.mp mem)
    constructor
    · rintro ⟨_,ends⟩
      contradiction
    · intro ordinary
      exact absurd proto (ordinary_proto ordinary)
  | some value =>
    have honest := tracked.honest state.current value known
    cases value with
    | none =>
      constructor
      · rintro ⟨_,ends⟩
        contradiction
      · intro ordinary
        exact absurd rfl (honest.mpr ordinary)
    | some items => exact ⟨fun _ => honest.mp (by simp),fun _ => ⟨_,rfl⟩⟩

theorem push_get {entries pushed : Sections} {name entry : JsString} (ordinary : Ordinary name)
    (ok : pushEntry entries name entry = .ok pushed) : ∃ items, getField entries name = some (some items) ∧
      ∀ other, getField pushed other = if name = other then some (some (items ++ [entry])) else getField entries other := by
  rw [pushEntry] at ok
  split at ok
  · rename_i items known
    cases ok
    exact ⟨items,known,get_assign _ (ordinary_proto ordinary)⟩
  · contradiction

section steps
variable {state next : ParseState} {line : JsString}

/- The state behind a heading. -/
def headed (state : ParseState) (name : JsString) : ParseState :=
  ⟨name,if name.isEmpty then state.entries else openSection state.entries name⟩

theorem parse_heading {group : JsString} (is : sectionMatch line = some group) :
    parseLine state line = .ok (headed state (trim group)) := by
  rw [parseLine, is, headed]
  dsimp only
  by_cases empty : (trim group).isEmpty = true
  · rw [if_pos empty, if_pos empty, List.isEmpty_iff.mp empty]
  · rw [if_neg empty, if_neg empty]

theorem headed_tracked (tracked : Tracked state) (name : JsString) : Tracked (headed state name) := by
  rw [headed]
  by_cases empty : name.isEmpty = true
  · rw [if_pos empty]
    exact ⟨tracked.honest,tracked.distinct,.inl (List.isEmpty_iff.mp empty)⟩
  · rw [if_neg empty]
    refine ⟨open_honest tracked.honest,assign_nodup tracked.distinct _ _,?_⟩
    by_cases proto : name = js "__proto__"
    · exact .inr (.inl proto)
    · exact .inr (.inr ((open_keys name).mpr (.inr ⟨rfl,proto⟩)))

theorem headed_items (name heading : JsString) :
    renderedItems (headed state name).entries heading = renderedItems state.entries heading := by
  rw [headed]
  dsimp only
  split
  · rfl
  · exact open_items heading

theorem headed_keys (name other : JsString) : other ∈ (headed state name).entries.map Prod.fst ↔
    other ∈ state.entries.map Prod.fst ∨ other = name ∧ name ≠ [] ∧ name ≠ js "__proto__" := by
  rw [headed]
  dsimp only
  by_cases empty : name.isEmpty = true
  · rw [if_pos empty, List.isEmpty_iff.mp empty]
    simp
  · have some' : name ≠ [] := by simpa using empty
    rw [if_neg empty, open_keys]
    simp [some']

/- What the parser makes of a line that is no heading. -/
theorem parse_line (is : sectionMatch line = none) : parseLine state line =
    if dashed state.current (trim line) && !(withoutBullet (trim line)).isEmpty then do
      let entries ← pushEntry state.entries state.current (withoutBullet (trim line))
      .ok ⟨state.current,entries⟩
    else .ok state := by
  rw [parseLine, is]
  dsimp only
  rw [dashed]
  cases state.current.isEmpty <;> cases startsWith (trim line) (js "-") <;> cases (withoutBullet (trim line)).isEmpty <;> rfl

theorem pushed_tracked {entries : Sections} {entry : JsString} (tracked : Tracked state) (ordinary : Ordinary state.current)
    (ok : pushEntry state.entries state.current entry = .ok entries) : Tracked ⟨state.current,entries⟩ := by
  obtain ⟨items,known,get⟩ := push_get ordinary ok
  refine ⟨?_,?_,?_⟩
  · intro name value found
    rw [get] at found
    split at found
    · rename_i same
      cases found
      rw [← same]
      exact iff_of_true (Option.some_ne_none _) ordinary
    · exact tracked.honest name value found
  · rw [pushEntry, known] at ok
    cases ok
    exact assign_nodup tracked.distinct _ _
  · right
    right
    rw [mem_keys, get, if_pos rfl]
    exact Option.some_ne_none _

theorem pushed_items {entries : Sections} {entry : JsString} (ordinary : Ordinary state.current)
    (ok : pushEntry state.entries state.current entry = .ok entries) (heading : JsString) :
    renderedItems entries heading =
      renderedItems state.entries heading ++ if state.current = heading then [entry] else [] := by
  obtain ⟨items,known,get⟩ := push_get ordinary ok
  rw [renderedItems, get, renderedItems]
  by_cases same : state.current = heading
  · rw [if_pos same, if_pos same, ← same, known]
    rfl
  · rw [if_neg same, if_neg same, List.append_nil]

theorem pushed_keys {entries : Sections} {entry : JsString} (ordinary : Ordinary state.current)
    (ok : pushEntry state.entries state.current entry = .ok entries) (name : JsString) :
    name ∈ entries.map Prod.fst ↔ name ∈ state.entries.map Prod.fst := by
  obtain ⟨items,known,get⟩ := push_get ordinary ok
  rw [mem_keys, mem_keys, get]
  by_cases same : state.current = name
  · rw [if_pos same, ← same, known]
    exact iff_of_true (Option.some_ne_none _) (Option.some_ne_none _)
  · rw [if_neg same]

end steps

theorem opened_cons (line : JsString) (rest : List JsString) (name : JsString) : name ∈ openedNames (line :: rest) ↔
    (∃ group, sectionMatch line = some group ∧ name = trim group ∧ trim group ≠ [] ∧ trim group ≠ js "__proto__") ∨
      name ∈ openedNames rest := by
  rw [openedNames, openedNames, List.filterMap_cons]
  cases is : sectionMatch line with
  | none => simp
  | some group =>
    rw [List.map_cons, List.filter_cons]
    by_cases named : trim group ≠ [] ∧ trim group ≠ js "__proto__"
    · rw [if_pos (decide_eq_true named), List.mem_cons]
      exact or_congr_left ⟨fun same => ⟨group,rfl,same,named⟩,fun ⟨_,here,same,_⟩ => by cases here; exact same⟩
    · rw [if_neg (by simpa using named)]
      exact ⟨.inr,fun known => known.resolve_left fun ⟨_,here,_,other⟩ => by cases here; exact named other⟩

/-- What the parser has read behind some lines. -/
structure Read (state : ParseState) (lines : List JsString) (last : ParseState) : Prop where
  honest : Honest last.entries
  distinct : (last.entries.map Prod.fst).Nodup
  items : ∀ heading, renderedItems last.entries heading =
    renderedItems state.entries heading ++ textsUnder heading (readItems dashed state.current lines)
  keys : ∀ name, name ∈ last.entries.map Prod.fst ↔ name ∈ state.entries.map Prod.fst ∨ name ∈ openedNames lines
  ordinary : ∀ item ∈ readItems dashed state.current lines, Ordinary item.heading

theorem dashed_named {heading trimmed : JsString} (is : dashed heading trimmed = true) : heading ≠ [] := by
  rw [dashed, Bool.and_eq_true] at is
  simpa using is.1

theorem parse_reads {lines : List JsString} {state last : ParseState} (tracked : Tracked state)
    (run : lines.foldlM parseLine state = .ok last) : Read state lines last := by
  induction lines generalizing state with
  | nil =>
    obtain rfl : state = last := by simpa [pure, Except.pure] using run
    exact ⟨tracked.honest,tracked.distinct,fun _ => (List.append_nil _).symm,by simp [openedNames],fun _ mem => nomatch mem⟩
  | cons line rest ih =>
    rw [List.foldlM_cons] at run
    obtain ⟨next,step,later⟩ := ExceptRun.bind_ok.mp run
    cases is : sectionMatch line with
    | some group =>
      rw [parse_heading is] at step
      cases step
      have read := ih (headed_tracked tracked (trim group)) later
      have same : readItems dashed state.current (line :: rest) = readItems dashed (trim group) rest := by
        rw [readItems, is]
      refine ⟨read.honest,read.distinct,?_,?_,?_⟩
      · intro heading
        rw [read.items, headed_items, same]
        rfl
      · intro name
        rw [read.keys, headed_keys, opened_cons, or_assoc]
        simp [is]
      · rw [same]
        exact read.ordinary
    | none =>
      have names : ∀ name, name ∈ openedNames (line :: rest) ↔ name ∈ openedNames rest := by
        intro name
        rw [opened_cons]
        simp [is]
      rw [parse_line is] at step
      by_cases bullet : (dashed state.current (trim line) && !(withoutBullet (trim line)).isEmpty) = true
      · rw [if_pos bullet] at step
        obtain ⟨entries,pushed,done⟩ := ExceptRun.bind_ok.mp step
        cases done
        rw [Bool.and_eq_true] at bullet
        have ordinary := (push_iff tracked (dashed_named bullet.1) _).mp ⟨entries,pushed⟩
        have read := ih (pushed_tracked tracked ordinary pushed) later
        have same : readItems dashed state.current (line :: rest) =
            ⟨state.current,withoutBullet (trim line)⟩ :: readItems dashed state.current rest := by
          rw [readItems, is]
          dsimp only
          rw [if_pos (by rw [bullet.1, bullet.2]; rfl)]
        refine ⟨read.honest,read.distinct,?_,?_,?_⟩
        · intro heading
          rw [read.items, pushed_items ordinary pushed, same, textsUnder_cons, List.append_assoc]
          dsimp only
          split <;> rfl
        · intro name
          rw [read.keys, pushed_keys ordinary pushed, names]
        · rw [same, List.forall_mem_cons]
          exact ⟨ordinary,read.ordinary⟩
      · rw [if_neg bullet] at step
        cases step
        have read := ih tracked later
        have same : readItems dashed state.current (line :: rest) = readItems dashed state.current rest := by
          rw [readItems, is]
          dsimp only
          rw [if_neg bullet]
        refine ⟨read.honest,read.distinct,?_,?_,?_⟩
        · intro heading
          rw [read.items, same]
        · intro name
          rw [read.keys, names]
        · rw [same]
          exact read.ordinary

theorem parse_ends (lines : List JsString) {state : ParseState} (tracked : Tracked state)
    (ordinary : ∀ item ∈ readItems dashed state.current lines, Ordinary item.heading) :
    ∃ last, lines.foldlM parseLine state = .ok last := by
  induction lines generalizing state with
  | nil => exact ⟨state,rfl⟩
  | cons line rest ih =>
    rw [List.foldlM_cons]
    cases is : sectionMatch line with
    | some group =>
      rw [readItems, is] at ordinary
      rw [parse_heading is]
      exact ih (headed_tracked tracked (trim group)) ordinary
    | none =>
      rw [readItems, is] at ordinary
      dsimp only at ordinary
      rw [parse_line is]
      by_cases bullet : (dashed state.current (trim line) && !(withoutBullet (trim line)).isEmpty) = true
      · rw [if_pos bullet, List.forall_mem_cons] at ordinary
        have some' := dashed_named (Bool.and_eq_true _ _ ▸ bullet).1
        obtain ⟨entries,pushed⟩ := (push_iff tracked some' (withoutBullet (trim line))).mpr ordinary.1
        rw [if_pos bullet, pushed]
        exact ih (pushed_tracked tracked ordinary.1 pushed) ordinary.2
      · rw [if_neg bullet] at ordinary ⊢
        exact ih tracked ordinary

theorem tracked_start : Tracked ⟨[],[]⟩ := ⟨fun _ _ found => (nomatch found),List.nodup_nil,.inl rfl⟩

section content
variable {content : JsString} {startIndex endIndex : Nat}
  (bounds : unreleasedBounds (splitLines content) = some (startIndex, endIndex))
include bounds

theorem parse_content : parseUnreleasedSection content =
    (sectionLines (splitLines content)).foldlM parseLine ⟨[],[]⟩ >>= fun state =>
      .ok ⟨startIndex,endIndex,state.entries⟩ := by
  rw [sectionLines, bounds]
  rw [unreleasedBounds, Option.map_eq_some_iff] at bounds
  obtain ⟨i,first,same⟩ := bounds
  cases same
  rw [parseUnreleasedSection]
  dsimp only
  rw [first]

/-- The parser gives back what it reads. -/
theorem parse_gives {unreleased : UnreleasedSection} (ok : parseUnreleasedSection content = .ok unreleased) :
    unreleased.startLine = startIndex ∧ unreleased.endLine = endIndex ∧
      Read ⟨[],[]⟩ (sectionLines (splitLines content)) ⟨[],unreleased.entries⟩ := by
  rw [parse_content bounds] at ok
  obtain ⟨last,run,same⟩ := ExceptRun.bind_ok.mp ok
  cases same
  have read := parse_reads tracked_start run
  exact ⟨rfl,rfl,read.honest,read.distinct,read.items,read.keys,read.ordinary⟩

theorem parse_iff : (∃ unreleased, parseUnreleasedSection content = .ok unreleased) ↔
    ∀ item ∈ bulletItems content, Ordinary item.heading := by
  constructor
  · rintro ⟨unreleased,ok⟩
    exact (parse_gives bounds ok).2.2.ordinary
  · intro ordinary
    obtain ⟨last,run⟩ := parse_ends (sectionLines (splitLines content)) tracked_start ordinary
    rw [parse_content bounds, run]
    exact ⟨_,rfl⟩

end content

end Changelog
