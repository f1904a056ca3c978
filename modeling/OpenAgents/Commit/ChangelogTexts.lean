import OpenAgents.Commit.ChangelogWritten

/- The entries under each heading: what a proposal makes of them when it is applied again, and that what is
   written is read again. -/
namespace Changelog
open JsText JsJson JsObject

/-- Elements with a property come last just when no other one is behind them. -/
theorem partition_last {α : Type} (p : α → Bool) (xs : List α) :
    (xs.filter fun x => !p x) ++ xs.filter p = xs ↔ xs.Pairwise fun a b => p a = true → p b = true := by
  induction xs with
  | nil => simp
  | cons x xs ih =>
    rw [List.pairwise_cons, List.filter_cons, List.filter_cons]
    cases holds : p x with
    | false =>
      simp only [Bool.not_false, if_true, Bool.false_eq_true, if_false, List.cons_append, List.cons.injEq, true_and]
      rw [ih]
      simp
    | true =>
      simp only [Bool.not_true, Bool.false_eq_true, if_false, if_true, forall_const]
      constructor
      · intro same
        have rest : ∀ y ∈ xs, p y = true := by
          cases front : xs.filter fun x => !p x with
          | nil =>
            intro y mem
            simpa using List.filter_eq_nil_iff.mp front y mem
          | cons z zs =>
            have other : z ∈ xs.filter fun x => !p x := by
              rw [front]
              exact List.mem_cons_self
            rw [front, List.cons_append] at same
            rw [(List.cons.inj same).1, List.mem_filter, holds] at other
            exact absurd other.2 Bool.false_ne_true
        exact ⟨rest,List.pairwise_of_forall_mem_list fun _ _ b mem _ => rest b mem⟩
      · intro both
        have front : xs.filter (fun x => !p x) = [] := by
          rw [List.filter_eq_nil_iff]
          intro y mem
          simpa using both.1 y mem
        rw [front, List.nil_append, List.filter_eq_self.mpr both.1]

section texts
variable {toLowerCase : JsString → JsString}

theorem hasLower_append (first second : List JsString) (item : JsString) :
    hasLower toLowerCase (first ++ second) item = (hasLower toLowerCase first item || hasLower toLowerCase second item) := by
  rw [hasLower, List.map_append, List.contains_append]
  rfl

variable {item other heading : JsString}

theorem hasLower_iff {items : List JsString} :
    hasLower toLowerCase items item = true ↔ ∃ other ∈ items, toLowerCase other = toLowerCase item := by
  rw [hasLower, List.contains_iff_mem, List.mem_map]

/- Entries that differ in their case only. -/
def sameText (toLowerCase : JsString → JsString) (item other : JsString) : Bool := toLowerCase other == toLowerCase item

theorem count_lower (items : List JsString) (item : JsString) :
    items.countP (sameText toLowerCase item) = 0 ↔ ¬ hasLower toLowerCase items item = true := by
  rw [List.countP_eq_zero, hasLower_iff]
  simp [sameText]

theorem hasLower_congr {items : List JsString} (same : toLowerCase other = toLowerCase item) :
    hasLower toLowerCase items other = hasLower toLowerCase items item := by
  rw [hasLower, same, hasLower]

theorem namedBy_congr {deletions : Option EntryMap} (same : toLowerCase other = toLowerCase item) :
    namedBy toLowerCase deletions ⟨heading,other⟩ = namedBy toLowerCase deletions ⟨heading,item⟩ := by
  cases deletions with
  | none => rfl
  | some deletions => exact hasLower_congr same

/-- An entry is added only where it is not there yet. -/
theorem count_added {entries : EntryMap} {kept : JsString → List JsString} :
    (addedTexts toLowerCase entries kept heading).countP (sameText toLowerCase item) =
      if hasLower toLowerCase (kept heading) item then 0
      else (proposedUnder entries heading).countP (sameText toLowerCase item) := by
  rw [addedTexts, List.countP_filter]
  split
  · rename_i there
    rw [List.countP_eq_zero]
    intro other _ both
    rw [Bool.and_eq_true, sameText, beq_iff_eq] at both
    rw [hasLower_congr both.1, there] at both
    exact Bool.false_ne_true both.2
  · rename_i absent
    apply List.countP_congr
    intro other _
    rw [Bool.and_eq_true]
    constructor
    · exact fun both => both.1
    · intro same
      refine ⟨same,?_⟩
      rw [sameText, beq_iff_eq] at same
      rw [hasLower_congr same]
      simpa using absent

variable {entries : EntryMap} {deletions : Option EntryMap} {texts : JsString → List JsString} {heading : JsString}

/-- Applied again, a proposal takes out what it both adds and deletes, and adds it at the end. -/
theorem updated_again : updatedTexts toLowerCase entries deletions (updatedTexts toLowerCase entries deletions texts) heading =
    keptTexts toLowerCase deletions texts heading ++
      (((addedTexts toLowerCase entries (keptTexts toLowerCase deletions texts) heading).filter fun text =>
          !namedBy toLowerCase deletions ⟨heading,text⟩) ++
        (addedTexts toLowerCase entries (keptTexts toLowerCase deletions texts) heading).filter fun text =>
          namedBy toLowerCase deletions ⟨heading,text⟩) := by
  have kept : keptTexts toLowerCase deletions (updatedTexts toLowerCase entries deletions texts) heading =
      keptTexts toLowerCase deletions texts heading ++
        (addedTexts toLowerCase entries (keptTexts toLowerCase deletions texts) heading).filter fun text =>
          !namedBy toLowerCase deletions ⟨heading,text⟩ := by
    rw [keptTexts, updatedTexts, List.filter_append]
    congr 1
    rw [keptTexts, List.filter_filter]
    simp
  have added : addedTexts toLowerCase entries (keptTexts toLowerCase deletions (updatedTexts toLowerCase entries deletions texts)) heading =
      (addedTexts toLowerCase entries (keptTexts toLowerCase deletions texts) heading).filter fun text =>
        namedBy toLowerCase deletions ⟨heading,text⟩ := by
    rw [addedTexts, kept]
    conv => rhs; rw [addedTexts, List.filter_filter]
    apply List.filter_congr
    intro text proposed
    rw [hasLower_append, Bool.not_or]
    cases there : hasLower toLowerCase (keptTexts toLowerCase deletions texts heading) text with
    | true => simp
    | false =>
      rw [Bool.not_false, Bool.true_and, Bool.and_true]
      cases named : namedBy toLowerCase deletions ⟨heading,text⟩ with
      | true =>
        rw [Bool.not_eq_true']
        by_contra again
        obtain ⟨other,mem,same⟩ := hasLower_iff.mp (by simpa using again)
        rw [List.mem_filter, namedBy_congr same, named] at mem
        exact Bool.false_ne_true mem.2
      | false =>
        rw [Bool.not_eq_false', hasLower_iff]
        refine ⟨text,?_,rfl⟩
        rw [List.mem_filter, named, addedTexts, List.mem_filter, there]
        exact ⟨⟨proposed,rfl⟩,rfl⟩
  rw [updatedTexts, added, kept, List.append_assoc]

theorem updated_settled : updatedTexts toLowerCase entries deletions (updatedTexts toLowerCase entries deletions texts) heading =
      updatedTexts toLowerCase entries deletions texts heading ↔
    (addedTexts toLowerCase entries (keptTexts toLowerCase deletions texts) heading).Pairwise fun a b =>
      namedBy toLowerCase deletions ⟨heading,a⟩ = true → namedBy toLowerCase deletions ⟨heading,b⟩ = true := by
  rw [updated_again, updatedTexts, List.append_cancel_left_eq]
  exact partition_last (fun text => namedBy toLowerCase deletions ⟨heading,text⟩) _

end texts

theorem trim_visible {text : JsString} {c : CodeUnit} {rest : JsString} (begins : text = c :: rest)
    (visible : isWhitespace c = false) : trim text ≠ [] := by
  have started : trimStart text = c :: rest := by
    rw [begins, trimStart, List.dropWhile_cons, visible]
    rfl
  rw [trim, started, trimEnd, ne_eq, List.rdropWhile_eq_nil_iff]
  intro blank
  have first := blank c List.mem_cons_self
  rw [visible] at first
  contradiction

/-- A proposed entry has no white space at its ends and is not empty. -/
theorem normalize_clean (entries : EntryMap) : ∀ field ∈ normalizeEntries entries, ∀ text ∈ field.2, Clean text := by
  have one : ∀ item, 0 < (withoutPeriod (trim item)).length → Clean (trim (withoutPeriod (trim item))) := by
    intro item some'
    apply clean_trim
    have part : withoutPeriod (trim item) <+: trim item := by
      rw [withoutPeriod]
      split
      · exact List.dropLast_prefix _
      · exact List.prefix_refl _
    obtain ⟨c,rest,begins⟩ := List.exists_cons_of_length_pos some'
    obtain ⟨tail,whole⟩ := part
    rw [begins] at whole
    exact trim_visible begins (trimmed_visible (trim_trim item) c (by rw [← whole]; rfl))
  apply @normalize_keeps fun result => ∀ field ∈ result, ∀ text ∈ field.2, Clean text
  · exact fun _ mem => nomatch mem
  · intro result heading trimmed clean made field mem text inside
    rcases mem_assign mem with old | new
    · exact clean field old text inside
    · rw [new, List.mem_eraseDups, List.mem_map] at inside
      obtain ⟨own,here,same⟩ := inside
      obtain ⟨item,is,some'⟩ := made own here
      rw [is] at some'
      rw [← same, is]
      exact one item some'

/- What a proposal proposes. -/
def proposedItems (entries : EntryMap) : List Item := entries.flatMap fun field => field.2.map (Item.mk field.1)

theorem mem_proposed {entries : EntryMap} {item : Item} (distinct : (entries.map Prod.fst).Nodup) :
    item ∈ proposedItems entries ↔ item.text ∈ proposedUnder entries item.heading := by
  rw [proposedItems, List.mem_flatMap, proposedUnder]
  constructor
  · rintro ⟨field,mem,inside⟩
    obtain ⟨text,here,same⟩ := List.mem_map.mp inside
    rw [← same, get_of_mem distinct mem]
    exact here
  · intro mem
    cases found : getField entries item.heading with
    | none =>
      rw [found] at mem
      contradiction
    | some items =>
      rw [found] at mem
      exact ⟨_,mem_of_get found,List.mem_map.mpr ⟨item.text,mem,rfl⟩⟩

/- What stands under the known headings. -/
def writtenItems (texts : JsString → List JsString) : List Item :=
  changelogCategories.flatMap fun heading => (texts heading).map (Item.mk heading)

section written
variable {texts : JsString → List JsString}

theorem mem_written {item : Item} : item ∈ writtenItems texts ↔ item.heading ∈ changelogCategories ∧ item.text ∈ texts item.heading := by
  rw [writtenItems, List.mem_flatMap]
  constructor
  · rintro ⟨heading,known,inside⟩
    obtain ⟨text,here,same⟩ := List.mem_map.mp inside
    rw [← same]
    exact ⟨known,here⟩
  · intro both
    exact ⟨item.heading,both.1,List.mem_map.mpr ⟨item.text,both.2,rfl⟩⟩

theorem texts_section (heading other : JsString) (items : List JsString) (rest : List Item) :
    textsUnder heading (items.map (Item.mk other) ++ rest) =
      (if other = heading then items else []) ++ textsUnder heading rest := by
  induction items with
  | nil => split <;> rfl
  | cons text items ih =>
    rw [List.map_cons, List.cons_append, textsUnder_cons, ih]
    split
    · rfl
    · rfl

theorem texts_absent {heading : JsString} {headings : List JsString} (absent : heading ∉ headings) :
    textsUnder heading (headings.flatMap fun other => (texts other).map (Item.mk other)) = [] := by
  induction headings with
  | nil => rfl
  | cons other rest ih =>
    rw [List.mem_cons, not_or] at absent
    rw [List.flatMap_cons, texts_section, if_neg (Ne.symm absent.1), ih absent.2]
    rfl

theorem texts_written {heading : JsString} (known : heading ∈ changelogCategories) :
    textsUnder heading (writtenItems texts) = texts heading := by
  have each : ∀ headings : List JsString, headings.Nodup → heading ∈ headings →
      textsUnder heading (headings.flatMap fun other => (texts other).map (Item.mk other)) = texts heading := by
    intro headings
    induction headings with
    | nil => exact fun _ mem => nomatch mem
    | cons other rest ih =>
      intro distinct mem
      rw [List.nodup_cons] at distinct
      rw [List.flatMap_cons, texts_section]
      by_cases here : other = heading
      · rw [if_pos here, texts_absent (here ▸ distinct.1), here, List.append_nil]
      · rw [if_neg here, List.nil_append]
        exact ih distinct.2 ((List.mem_cons.mp mem).resolve_left (Ne.symm here))
  exact each changelogCategories (by decide +kernel) known

theorem count_written {item : Item} (toLowerCase : JsString → JsString) (known : item.heading ∈ changelogCategories) :
    (writtenItems texts).countP (fun other => decide (other.heading = item.heading) && sameText toLowerCase item.text other.text) =
      (texts item.heading).countP (sameText toLowerCase item.text) := by
  have under := @texts_written texts item.heading known
  rw [← under, textsUnder, List.countP_map, List.countP_filter]
  apply List.countP_congr
  intro other _
  rw [Bool.and_comm]
  rfl

end written

/-- The lines of an updated changelog, and what is read of them. -/
structure Rewritten (content : JsString) (startIndex endIndex : Nat) (texts : JsString → List JsString) (out : JsString) : Prop where
  lines : splitLines out =
    (splitLines content).take (startIndex + 1) ++ renderTexts texts ++ (splitLines content).drop endIndex
  start : startIndex < (splitLines content).length
  bounds : unreleasedBounds (splitLines out) = some (startIndex, startIndex + 1 + (renderTexts texts).length)
  sections : sectionLines (splitLines out) = renderTexts texts
  items : sectionItems out = writtenItems texts
  bullets : bulletItems out = writtenItems texts

theorem rewritten {content : JsString} {startIndex endIndex : Nat} {texts : JsString → List JsString}
    (bounds : unreleasedBounds (splitLines content) = some (startIndex, endIndex))
    (single : ∀ heading, ∀ text ∈ texts heading, OneLine text) :
    Rewritten content startIndex endIndex texts (joinLines ((splitLines content).take (startIndex + 1) ++ renderTexts texts ++
      (splitLines content).drop endIndex)) := by
  have clean : ∀ heading, ∀ text ∈ texts heading, Clean text := fun heading text mem => (single heading text mem).clean
  obtain ⟨small,placed⟩ := bounds_replaced bounds (@render_inside texts)
  have lines : splitLines (joinLines ((splitLines content).take (startIndex + 1) ++ renderTexts texts ++
      (splitLines content).drop endIndex)) =
      (splitLines content).take (startIndex + 1) ++ renderTexts texts ++ (splitLines content).drop endIndex := by
    apply split_join
    · intro line mem
      rw [List.mem_append, List.mem_append] at mem
      rcases mem with (early | inside) | late
      · exact split_clean content line (List.take_subset _ _ early)
      · exact render_single (fun heading text mem => (single heading text mem).single) line inside
      · exact split_clean content line (List.drop_subset _ _ late)
    · have some' : (splitLines content).take (startIndex + 1) ≠ [] := by
        apply List.ne_nil_of_length_pos
        rw [List.length_take]
        omega
      simp [some']
  have length : ((splitLines content).take (startIndex + 1)).length = startIndex + 1 := by
    rw [List.length_take]
    omega
  rw [← lines] at placed
  have sections : sectionLines (splitLines (joinLines ((splitLines content).take (startIndex + 1) ++ renderTexts texts ++
      (splitLines content).drop endIndex))) = renderTexts texts := by
    rw [sectionLines, placed]
    dsimp only
    have reach : startIndex + 1 + (renderTexts texts).length =
        ((splitLines content).take (startIndex + 1) ++ renderTexts texts).length := by
      rw [List.length_append, length]
    rw [lines, reach, List.take_left, List.drop_left' length]
  refine ⟨lines,small,placed,sections,?_,?_⟩
  · rw [sectionItems, sections]
    exact read_rendered clean fun _ _ _ => rfl
  · rw [bulletItems, sections]
    apply read_rendered clean
    intro heading known text
    have named : heading.isEmpty = false := by simpa using (category_line heading known).2.2.2.1
    rw [dashed, named]
    rfl

end Changelog
