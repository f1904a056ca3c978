import OpenAgents.Commit.ChangelogRead

/- What deleting, merging and rendering make of the entries that were read: the text of the updated
   changelog, heading by heading. -/
namespace Changelog
open JsText JsJson JsObject

section
variable (toLowerCase : JsString → JsString)

/- A deletion names an entry under its heading, in whatever case. -/
def namedBy (deletions : Option EntryMap) (item : Item) : Bool :=
  match deletions with
  | none => false
  | some deletions => hasLower toLowerCase ((getField deletions item.heading).getD []) item.text

def proposedUnder (entries : EntryMap) (heading : JsString) : List JsString := (getField entries heading).getD []

def keptTexts (deletions : Option EntryMap) (texts : JsString → List JsString) (heading : JsString) : List JsString :=
  (texts heading).filter fun text => !namedBy toLowerCase deletions ⟨heading,text⟩

def addedTexts (entries : EntryMap) (kept : JsString → List JsString) (heading : JsString) : List JsString :=
  (proposedUnder entries heading).filter fun text => !hasLower toLowerCase (kept heading) text

/- The entries under a heading once a proposal has been applied. -/
def updatedTexts (entries : EntryMap) (deletions : Option EntryMap) (texts : JsString → List JsString) (heading : JsString) :
    List JsString :=
  keptTexts toLowerCase deletions texts heading ++ addedTexts toLowerCase entries (keptTexts toLowerCase deletions texts) heading

end

def renderTexts (texts : JsString → List JsString) : List JsString :=
  let lines := [[]] ++ changelogCategories.flatMap fun heading => renderSection (texts heading) heading
  if lines.getLast? = some [] then lines.dropLast else lines

theorem items_cons (field : JsString × Option (List JsString)) (fields : Sections) (heading : JsString) :
    renderedItems (field :: fields) heading = if field.1 = heading then field.2.getD [] else renderedItems fields heading := by
  rw [renderedItems, get_cons]
  split <;> rfl

theorem items_none {fields : Sections} {heading : JsString} (absent : heading ∉ fields.map Prod.fst) :
    renderedItems fields heading = [] := by
  rw [renderedItems, get_none_iff.mpr absent]
  rfl

theorem items_assign {fields : Sections} {key : JsString} (ordinary : Ordinary key) (items : List JsString) (heading : JsString) :
    renderedItems (assignField fields key (some items)) heading = if key = heading then items else renderedItems fields heading := by
  rw [renderedItems, get_assign _ (ordinary_proto ordinary)]
  split <;> rfl

theorem honest_assign {fields : Sections} (honest : Honest fields) {key : JsString} (ordinary : Ordinary key) (items : List JsString) :
    Honest (assignField fields key (some items)) := by
  intro name value found
  rw [get_assign _ (ordinary_proto ordinary)] at found
  split at found
  · rename_i same
    cases found
    rw [← same]
    exact iff_of_true (Option.some_ne_none _) ordinary
  · exact honest name value found

section deletions
variable {toLowerCase : JsString → JsString} {deletions : EntryMap}

theorem deletionsAt_ordinary {heading : JsString} (ordinary : Ordinary heading) :
    deletionsAt deletions heading = .ok ((getField deletions heading).getD []) := by
  rw [deletionsAt]
  cases getField deletions heading with
  | some items => rfl
  | none => exact if_neg fun mem => ordinary (List.contains_iff_mem.mp mem)

/- The entries of a section that no deletion names. -/
def undeleted (toLowerCase : JsString → JsString) (deletions : EntryMap) (heading : JsString) (items : List JsString) : List JsString :=
  items.filter fun item => !namedBy toLowerCase (some deletions) ⟨heading,item⟩

section one
variable {result : Sections} {heading : JsString} (kept : List JsString) (ordinary : Ordinary heading)
  (fresh : heading ∉ result.map Prod.fst)

/- A section that runs empty is dropped. -/
def putKept (result : Sections) (heading : JsString) (kept : List JsString) : Sections :=
  if 0 < kept.length then assignField result heading (some kept) else result

include ordinary

theorem put_honest (honest : Honest result) : Honest (putKept result heading kept) := by
  rw [putKept]
  split
  · exact honest_assign honest ordinary kept
  · exact honest

theorem put_keys (name : JsString) (mem : name ∈ (putKept result heading kept).map Prod.fst) :
    name = heading ∨ name ∈ result.map Prod.fst := by
  rw [putKept] at mem
  split at mem
  · rw [mem_keys, get_assign _ (ordinary_proto ordinary)] at mem
    by_cases same : heading = name
    · exact .inl same.symm
    · rw [if_neg same] at mem
      exact .inr (mem_keys.mpr mem)
  · exact .inr mem

include fresh

theorem put_items (other : JsString) : renderedItems (putKept result heading kept) other =
    renderedItems result other ++ if heading = other then kept else [] := by
  rw [putKept]
  by_cases same : heading = other
  · rw [if_pos same, ← same, items_none fresh, List.nil_append]
    split
    · rw [items_assign ordinary, if_pos rfl]
    · rename_i none'
      rw [items_none fresh, List.length_eq_zero_iff.mp (Nat.eq_zero_of_not_pos none')]
  · rw [if_neg same, List.append_nil]
    split
    · rw [items_assign ordinary, if_neg same]
    · rfl

end one

theorem delete_ordinary (result : Sections) {heading : JsString} (items : List JsString) (ordinary : Ordinary heading) :
    deleteFrom toLowerCase deletions result (heading, some items) =
      .ok (putKept result heading (undeleted toLowerCase deletions heading items)) := by
  rw [deleteFrom, deletionsAt_ordinary ordinary]
  rfl

theorem delete_foreign (result : Sections) (heading : JsString) :
    deleteFrom toLowerCase deletions result (heading, none) = .error .typeError := by
  rw [deleteFrom, deletionsAt]
  cases getField deletions heading with
  | some items => rfl
  | none =>
    dsimp only
    split <;> rfl

/-- Deleting filters the entries under each heading, unless a section has the name of a function. -/
theorem delete_run {fields : Sections} (result : Sections) (distinct : (fields.map Prod.fst).Nodup)
    (listed : ∀ field ∈ fields, field.2 ≠ none ↔ Ordinary field.1) :
    ((∃ last, fields.foldlM (deleteFrom toLowerCase deletions) result = .ok last) ↔ ∀ field ∈ fields, Ordinary field.1) ∧
      ∀ last, fields.foldlM (deleteFrom toLowerCase deletions) result = .ok last → Honest result →
        (∀ field ∈ fields, field.1 ∉ result.map Prod.fst) → Honest last ∧ ∀ heading,
          renderedItems last heading =
            renderedItems result heading ++ undeleted toLowerCase deletions heading (renderedItems fields heading) := by
  induction fields generalizing result with
  | nil =>
    refine ⟨⟨fun _ _ mem => (nomatch mem),fun _ => ⟨result,rfl⟩⟩,?_⟩
    intro last run honest _
    obtain rfl : result = last := by simpa [pure, Except.pure] using run
    exact ⟨honest,fun _ => (List.append_nil _).symm⟩
  | cons field rest ih =>
    obtain ⟨heading,value⟩ := field
    rw [List.map_cons, List.nodup_cons] at distinct
    rw [List.forall_mem_cons] at listed
    rw [List.foldlM_cons, List.forall_mem_cons]
    cases value with
    | none =>
      have inherited : ¬ Ordinary heading := fun ordinary => absurd rfl (listed.1.mpr ordinary)
      rw [delete_foreign]
      exact ⟨⟨fun ⟨_,ends⟩ => (nomatch ends),fun all => absurd all.1 inherited⟩,fun _ ends => (nomatch ends)⟩
    | some items =>
      have ordinary : Ordinary heading := listed.1.mp (Option.some_ne_none _)
      rw [delete_ordinary result items ordinary]
      obtain ⟨ends,later⟩ := ih (putKept result heading (undeleted toLowerCase deletions heading items)) distinct.2 listed.2
      refine ⟨ends.trans ⟨fun all => ⟨ordinary,all⟩,fun all => all.2⟩,?_⟩
      intro last run honest fresh
      rw [List.forall_mem_cons] at fresh
      have others : ∀ field ∈ rest, field.1 ∉ (putKept result heading (undeleted toLowerCase deletions heading items)).map Prod.fst := by
        intro field mem known
        rcases put_keys _ ordinary field.1 known with same | old
        · exact distinct.1 (List.mem_map.mpr ⟨field,mem,same⟩)
        · exact fresh.2 field mem old
      obtain ⟨honest',read⟩ := later last run (put_honest _ ordinary honest) others
      refine ⟨honest',?_⟩
      intro other
      rw [read, put_items _ ordinary fresh.1, items_cons, List.append_assoc]
      by_cases same : heading = other
      · rw [if_pos same, if_pos same, ← same, items_none distinct.1]
        simp [undeleted]
      · rw [if_neg same, if_neg same, List.nil_append]

end deletions

section merge
variable {toLowerCase : JsString → JsString}

theorem currentAt_iff {merged : Sections} (honest : Honest merged) (heading : JsString) (current : List JsString) :
    currentAt merged heading = .ok current ↔ Ordinary heading ∧ renderedItems merged heading = current := by
  rw [currentAt, renderedItems]
  cases found : getField merged heading with
  | some value =>
    have listed := honest heading value found
    cases value with
    | none =>
      have inherited : ¬ Ordinary heading := fun ordinary => absurd rfl (listed.mpr ordinary)
      simp [inherited]
    | some items => simp [listed.mp (Option.some_ne_none _)]
  | none =>
    by_cases ordinary : Ordinary heading
    · have unknown : heading ∉ inheritedNames := ordinary
      simp [ordinary, unknown, eq_comm]
    · have known : heading ∈ inheritedNames := by simpa [Ordinary] using ordinary
      simp [ordinary, known]

theorem proposed_cons (field : JsString × List JsString) (entries : EntryMap) (heading : JsString) :
    proposedUnder (field :: entries) heading = if field.1 = heading then field.2 else proposedUnder entries heading := by
  rw [proposedUnder, get_cons]
  split <;> rfl

/-- Merging adds to each heading the proposed entries that are not there in any case. -/
theorem merge_run {entries : EntryMap} (distinct : (entries.map Prod.fst).Nodup) {merged : Sections} (honest : Honest merged) :
    ((∃ last, mergeEntries toLowerCase merged entries = .ok last) ↔ ∀ field ∈ entries, Ordinary field.1) ∧
      ∀ last, mergeEntries toLowerCase merged entries = .ok last → ∀ heading,
        renderedItems last heading =
          renderedItems merged heading ++ addedTexts toLowerCase entries (renderedItems merged) heading := by
  induction entries generalizing merged with
  | nil =>
    refine ⟨⟨fun _ _ mem => (nomatch mem),fun _ => ⟨merged,rfl⟩⟩,?_⟩
    intro last run heading
    obtain rfl : merged = last := by simpa [mergeEntries, pure, Except.pure] using run
    exact (List.append_nil _).symm
  | cons field rest ih =>
    rw [List.map_cons, List.nodup_cons] at distinct
    rw [List.forall_mem_cons, mergeEntries, List.foldlM_cons, mergeInto]
    by_cases ordinary : Ordinary field.1
    · rw [(currentAt_iff honest field.1 _).mpr ⟨ordinary,rfl⟩]
      let more := renderedItems merged field.1 ++
        field.2.filter fun item => !hasLower toLowerCase (renderedItems merged field.1) item
      obtain ⟨ends,later⟩ := ih distinct.2 (honest_assign honest ordinary more)
      refine ⟨ends.trans ⟨fun all => ⟨ordinary,all⟩,fun all => all.2⟩,?_⟩
      intro last run heading
      rw [later last run heading, items_assign ordinary, addedTexts, addedTexts, proposed_cons, items_assign ordinary]
      by_cases same : field.1 = heading
      · have absent : proposedUnder rest heading = [] := by
          rw [proposedUnder, ← same, get_none_iff.mpr distinct.1]
          rfl
        rw [if_pos same, if_pos same, absent, ← same]
        exact List.append_nil _
      · rw [if_neg same, if_neg same]
    · have fails : ∀ current, currentAt merged field.1 ≠ .ok current := fun current ok =>
        ordinary ((currentAt_iff honest field.1 current).mp ok).1
      cases current : currentAt merged field.1 with
      | ok items => exact absurd current (fails items)
      | error e => exact ⟨⟨fun ⟨_,ends⟩ => (nomatch ends),fun all => absurd all.1 ordinary⟩,fun _ ends => (nomatch ends)⟩

end merge

/-- Normalizing assigns, heading by heading, entries that have been trimmed. -/
theorem normalize_keeps {inv : EntryMap → Prop} (begins : inv [])
    (step : ∀ result heading (trimmed : List JsString), inv result → (∀ text ∈ trimmed, ∃ item, text = withoutPeriod (trim item) ∧ 0 < text.length) →
      inv (assignField result heading (trimmed.map trim).eraseDups)) (entries : EntryMap) : inv (normalizeEntries entries) := by
  apply List.foldlRecOn entries _ begins
  intro result holds field _
  dsimp only
  split
  · exact holds
  · apply step result field.1 _ holds
    intro text mem
    rw [List.mem_filter, List.mem_map, decide_eq_true_eq] at mem
    obtain ⟨⟨item,_,same⟩,some'⟩ := mem
    exact ⟨item,same.symm,some'⟩

theorem normalize_distinct (entries : EntryMap) : ((normalizeEntries entries).map Prod.fst).Nodup :=
  @normalize_keeps (fun result => (result.map Prod.fst).Nodup) List.nodup_nil (fun _ _ _ once _ => assign_nodup once _ _) entries

section update
variable {toLowerCase : JsString → JsString} {content : JsString} {entries : EntryMap} {deletions : Option EntryMap}
  {startIndex endIndex : Nat}

/-- No name in use is that of a function every object has. -/
structure OrdinaryNames (content : JsString) (entries : EntryMap) (deletions : Option EntryMap) : Prop where
  bullets : ∀ item ∈ bulletItems content, Ordinary item.heading
  sections : deletions ≠ none → ∀ name ∈ openedNames (sectionLines (splitLines content)), Ordinary name
  proposed : ∀ field ∈ normalizeEntries entries, Ordinary field.1

def writtenTexts (toLowerCase : JsString → JsString) (content : JsString) (entries : EntryMap) (deletions : Option EntryMap) :
    JsString → List JsString :=
  updatedTexts toLowerCase (normalizeEntries entries) (deletions.map normalizeEntries) fun heading =>
    textsUnder heading (bulletItems content)

/- What is left of the sections that were read. -/
def baseOf (toLowerCase : JsString → JsString) (sections : Sections) (deletions : Option EntryMap) : Except Failure Sections :=
  match deletions with
  | none => .ok sections
  | some deletions => applyDeletions toLowerCase sections deletions

theorem base_run {lines : List JsString} {sections : Sections} (read : Read ⟨[],[]⟩ lines ⟨[],sections⟩) (deletions : Option EntryMap) :
    ((∃ base, baseOf toLowerCase sections deletions = .ok base) ↔
        (deletions ≠ none → ∀ name ∈ openedNames lines, Ordinary name)) ∧
      ∀ base, baseOf toLowerCase sections deletions = .ok base → Honest base ∧ ∀ heading, renderedItems base heading =
        keptTexts toLowerCase deletions (fun heading => textsUnder heading (readItems dashed [] lines)) heading := by
  have texts : ∀ heading, renderedItems sections heading = textsUnder heading (readItems dashed [] lines) := read.items
  cases deletions with
  | none =>
    refine ⟨⟨fun _ given => absurd rfl given,fun _ => ⟨sections,rfl⟩⟩,?_⟩
    intro base run
    cases run
    refine ⟨read.honest,?_⟩
    intro heading
    rw [texts, keptTexts]
    simp [namedBy]
  | some deletions =>
    have listed : ∀ field ∈ sections, field.2 ≠ none ↔ Ordinary field.1 := fun field mem =>
      read.honest field.1 field.2 (get_of_mem read.distinct mem)
    obtain ⟨ends,later⟩ := @delete_run toLowerCase deletions sections [] read.distinct listed
    constructor
    · refine ends.trans ⟨?_,?_⟩
      · intro all _ name mem
        obtain ⟨field,known,same⟩ := List.mem_map.mp ((read.keys name).mpr (.inr mem))
        rw [← same]
        exact all field known
      · intro all field mem
        have opened := ((read.keys field.1).mp (List.mem_map_of_mem mem)).resolve_left List.not_mem_nil
        exact all (Option.some_ne_none _) field.1 opened
    · intro base run
      obtain ⟨honest,items⟩ := later base run (fun _ _ found => nomatch found) (fun _ _ => List.not_mem_nil)
      refine ⟨honest,?_⟩
      intro heading
      rw [items, texts]
      rfl

/-- The updated changelog, and when there is one. -/
theorem update_run (bounds : unreleasedBounds (splitLines content) = some (startIndex, endIndex)) :
    ((∃ out, updateChangelog toLowerCase content entries deletions = .ok out) ↔ OrdinaryNames content entries deletions) ∧
      ∀ out, updateChangelog toLowerCase content entries deletions = .ok out →
        out = joinLines ((splitLines content).take (startIndex + 1) ++
          renderTexts (writtenTexts toLowerCase content entries deletions) ++ (splitLines content).drop endIndex) := by
  have parses := parse_iff bounds
  rw [updateChangelog]
  cases parsed : parseUnreleasedSection content with
  | error e =>
    rw [parsed] at parses
    have fails : ¬ ∀ item ∈ bulletItems content, Ordinary item.heading := fun all => nomatch parses.mpr all
    exact ⟨⟨fun ⟨_,ends⟩ => (nomatch ends),fun names => absurd names.bullets fails⟩,fun _ ends => (nomatch ends)⟩
  | ok unreleased =>
    obtain ⟨start,stop,read⟩ := parse_gives bounds parsed
    have bullets := parses.mp ⟨unreleased,parsed⟩
    obtain ⟨baseEnds,baseItems⟩ := @base_run toLowerCase _ _ read (deletions.map normalizeEntries)
    have applied : applyChangelogEntries toLowerCase content unreleased (normalizeEntries entries) (deletions.map normalizeEntries) =
        baseOf toLowerCase unreleased.entries (deletions.map normalizeEntries) >>= fun base =>
          mergeEntries toLowerCase base (normalizeEntries entries) >>= fun merged =>
            .ok (joinLines ((splitLines content).take (startIndex + 1) ++ renderUnreleasedSections merged ++
              (splitLines content).drop endIndex)) := by
      rw [← start, ← stop]
      cases deletions <;> rfl
    have given : deletions.map normalizeEntries ≠ none ↔ deletions ≠ none := by simp
    rw [given] at baseEnds
    change ((∃ out, applyChangelogEntries _ _ _ _ _ = .ok out) ↔ _) ∧ ∀ out, applyChangelogEntries _ _ _ _ _ = .ok out → _
    rw [applied]
    cases deleted : baseOf toLowerCase unreleased.entries (deletions.map normalizeEntries) with
    | error e =>
      rw [deleted] at baseEnds
      have fails : ¬ (deletions ≠ none → ∀ name ∈ openedNames (sectionLines (splitLines content)), Ordinary name) := fun all =>
        nomatch baseEnds.mpr all
      exact ⟨⟨fun ⟨_,ends⟩ => (nomatch ends),fun names => absurd names.sections fails⟩,fun _ ends => (nomatch ends)⟩
    | ok base =>
      obtain ⟨honest,kept⟩ := baseItems base deleted
      obtain ⟨mergeEnds,mergeItems⟩ := @merge_run toLowerCase _ (normalize_distinct entries) base honest
      constructor
      · constructor
        · rintro ⟨out,ends⟩
          obtain ⟨_,is,rest⟩ := ExceptRun.bind_ok.mp ends
          cases is
          obtain ⟨merged,run,_⟩ := ExceptRun.bind_ok.mp rest
          exact ⟨bullets,baseEnds.mp ⟨base,deleted⟩,mergeEnds.mp ⟨merged,run⟩⟩
        · intro names
          obtain ⟨merged,run⟩ := mergeEnds.mpr names.proposed
          exact ⟨_,ExceptRun.bind_ok.mpr ⟨base,rfl,ExceptRun.bind_ok.mpr ⟨merged,run,rfl⟩⟩⟩
      · intro out ends
        obtain ⟨_,is,rest⟩ := ExceptRun.bind_ok.mp ends
        cases is
        obtain ⟨merged,run,same⟩ := ExceptRun.bind_ok.mp rest
        cases same
        have texts : renderedItems merged = writtenTexts toLowerCase content entries deletions := by
          funext heading
          rw [mergeItems merged run, funext kept]
          rfl
        rw [← texts]
        rfl

/-- What is written for a proposal is the updated changelog. -/
theorem proposal_updates {out : JsString}
    (written : applyChangelogProposal toLowerCase content entries deletions = .ok (some out)) :
    updateChangelog toLowerCase content entries deletions = .ok out := by
  rw [applyChangelogProposal] at written
  split at written
  · cases written
  · rw [updateChangelog]
    cases parsed : parseUnreleasedSection content with
    | error e =>
      rw [parsed] at written
      cases written
    | ok unreleased =>
      rw [parsed] at written
      dsimp only at written
      split at written
      · cases written
      · cases applied : applyChangelogEntries toLowerCase content unreleased (normalizeEntries entries)
          (deletions.map normalizeEntries) with
        | error e =>
          rw [applied] at written
          cases written
        | ok text =>
          rw [applied] at written
          cases written
          exact applied

end update

end Changelog
