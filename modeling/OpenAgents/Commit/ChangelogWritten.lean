import OpenAgents.Commit.ChangelogApply
import OpenAgents.Lib.TextLines

/- The section as it is written, and what is read of it again. -/
namespace Changelog
open JsText JsJson JsObject

/-- A text that can stand on a line of its own behind a bullet. -/
structure OneLine (text : JsString) : Prop where
  clean : Clean text
  single : lineFeed ∉ text

theorem withoutBullet_clean {text : JsString} (clean : Clean text) (some' : withoutBullet text ≠ []) : Clean (withoutBullet text) := by
  cases text with
  | nil => exact absurd rfl some'
  | cons c rest =>
    rw [withoutBullet] at some' ⊢
    split at some'
    · rename_i bullet
      rw [if_pos bullet]
      exact clean_drop clean some'
    · rename_i plain
      rw [if_neg plain]
      exact clean

theorem withoutBullet_sublist (text : JsString) : (withoutBullet text).Sublist text := by
  cases text with
  | nil => exact List.Sublist.refl _
  | cons c rest =>
    rw [withoutBullet]
    split
    · exact (List.dropWhile_sublist _).trans (List.sublist_cons_self c rest)
    · exact List.Sublist.refl _

/-- What is read of a line stands on one line. -/
theorem read_oneLine {counts : JsString → JsString → Bool} {lines : List JsString} (single : ∀ line ∈ lines, lineFeed ∉ line)
    (heading : JsString) : ∀ item ∈ readItems counts heading lines, OneLine item.text := by
  induction lines generalizing heading with
  | nil => exact fun _ mem => nomatch mem
  | cons line rest ih =>
    rw [List.forall_mem_cons] at single
    rw [readItems]
    split
    · exact ih single.2 _
    · dsimp only
      split
      · rename_i counted
        rw [Bool.and_eq_true] at counted
        have some' : withoutBullet (trim line) ≠ [] := by simpa using counted.2
        have visible : trim line ≠ [] := fun empty => some' (by rw [empty]; rfl)
        rw [List.forall_mem_cons]
        refine ⟨⟨withoutBullet_clean (clean_trim visible) some',?_⟩,ih single.2 heading⟩
        intro mem
        exact single.1 (((withoutBullet_sublist _).trans (trim_sublist line)).subset mem)
      · exact ih single.2 heading

theorem entry_line {text : JsString} (clean : Clean text) :
    sectionMatch (js "- " ++ text) = none ∧ trim (js "- " ++ text) = js "- " ++ text ∧
      withoutBullet (js "- " ++ text) = text := by
  refine ⟨rfl,@trim_marked 45 [32] text (by decide) clean,?_⟩
  exact clean_start clean

theorem category_line : ∀ heading ∈ changelogCategories,
    sectionMatch (js "### " ++ heading) = some heading ∧ trim heading = heading ∧ Ordinary heading ∧ heading ≠ [] ∧
      lineFeed ∉ heading := by
  decide +kernel

section render
variable {counts : JsString → JsString → Bool} {texts : JsString → List JsString}

theorem read_entries (heading : JsString) {items : List JsString} (clean : ∀ text ∈ items, Clean text)
    (counted : ∀ text, counts heading (js "- " ++ text) = true) (rest : List JsString) :
    readItems counts heading (items.map (js "- " ++ ·) ++ rest) = items.map (Item.mk heading) ++ readItems counts heading rest := by
  induction items with
  | nil => rfl
  | cons text items ih =>
    rw [List.forall_mem_cons] at clean
    obtain ⟨plain,trimmed,bare⟩ := entry_line clean.1
    have visible : text.isEmpty = false := by simpa using clean.1.1
    rw [List.map_cons, List.cons_append, readItems, plain]
    dsimp only
    rw [trimmed, bare, counted, visible, ih clean.2]
    rfl

theorem read_blank (heading : JsString) (rest : List JsString) :
    readItems counts heading ([] :: rest) = readItems counts heading rest := by
  have plain : sectionMatch [] = none := by decide
  have uncounted : ¬ (counts heading (trim []) && !(withoutBullet (trim [])).isEmpty) = true := by
    rw [Bool.and_eq_true]
    exact fun both => nomatch both.2
  rw [readItems, plain]
  exact if_neg uncounted

theorem read_blank_end (heading : JsString) (lines : List JsString) :
    readItems counts heading (lines ++ [[]]) = readItems counts heading lines := by
  induction lines generalizing heading with
  | nil => exact read_blank heading []
  | cons line rest ih =>
    rw [List.cons_append, readItems, readItems]
    cases sectionMatch line with
    | some group => exact ih _
    | none =>
      dsimp only
      rw [ih]

theorem read_sections (headings : List JsString) (known : ∀ heading ∈ headings, heading ∈ changelogCategories)
    (clean : ∀ heading, ∀ text ∈ texts heading, Clean text)
    (counted : ∀ heading ∈ changelogCategories, ∀ text, counts heading (js "- " ++ text) = true) (current : JsString) :
    readItems counts current (headings.flatMap fun heading => renderSection (texts heading) heading) =
      headings.flatMap fun heading => (texts heading).map (Item.mk heading) := by
  induction headings generalizing current with
  | nil => rfl
  | cons heading rest ih =>
    rw [List.forall_mem_cons] at known
    rw [List.flatMap_cons, List.flatMap_cons, renderSection]
    split
    · rename_i empty
      rw [List.isEmpty_iff.mp empty]
      exact ih known.2 current
    · obtain ⟨is,trimmed,_⟩ := category_line heading known.1
      rw [List.append_assoc, List.append_assoc, List.singleton_append, readItems, is]
      dsimp only
      rw [trimmed, read_entries heading (clean heading) (counted heading known.1), List.singleton_append, read_blank, ih known.2]

/- The lines of the section, before the last of them, which is empty, is taken off. -/
theorem render_last (texts : JsString → List JsString) :
    renderTexts texts ++ [[]] = [[]] ++ changelogCategories.flatMap fun heading => renderSection (texts heading) heading := by
  have last : ∀ headings : List JsString,
      ([[]] ++ headings.flatMap fun heading => renderSection (texts heading) heading).getLast? = some [] := by
    intro headings
    induction headings using List.reverseRecOn with
    | nil => rfl
    | append_singleton front heading ih =>
      rw [List.flatMap_append, List.flatMap_singleton, renderSection]
      split
      · rw [List.append_nil]
        exact ih
      · rw [← List.append_assoc, ← List.append_assoc, List.getLast?_concat]
  rw [renderTexts, if_pos (last _)]
  exact List.dropLast_append_getLast? [] (last changelogCategories)

/-- Of what is written under each heading the same is read again. -/
theorem read_rendered (clean : ∀ heading, ∀ text ∈ texts heading, Clean text)
    (counted : ∀ heading ∈ changelogCategories, ∀ text, counts heading (js "- " ++ text) = true) :
    readItems counts [] (renderTexts texts) = changelogCategories.flatMap fun heading => (texts heading).map (Item.mk heading) := by
  have whole := read_sections changelogCategories (fun _ mem => mem) clean counted []
  rw [← read_blank_end, render_last, List.singleton_append, read_blank, whole]

/-- The lines that are written. -/
theorem render_lines {line : JsString} (mem : line ∈ renderTexts texts) :
    line = [] ∨ (∃ heading ∈ changelogCategories, line = js "### " ++ heading) ∨
      ∃ heading, ∃ text ∈ texts heading, line = js "- " ++ text := by
  have whole : line ∈ renderTexts texts ++ [[]] := List.mem_append_left _ mem
  rw [render_last, List.singleton_append, List.mem_cons, List.mem_flatMap] at whole
  rcases whole with blank | ⟨heading,known,inside⟩
  · exact .inl blank
  · rw [renderSection] at inside
    split at inside
    · contradiction
    · rw [List.mem_append, List.mem_append, List.mem_singleton, List.mem_singleton, List.mem_map] at inside
      rcases inside with (named | ⟨text,entry,same⟩) | blank
      · exact .inr (.inl ⟨heading,known,named⟩)
      · exact .inr (.inr ⟨heading,text,entry,same.symm⟩)
      · exact .inl blank

theorem render_single (single : ∀ heading, ∀ text ∈ texts heading, lineFeed ∉ text) :
    ∀ line ∈ renderTexts texts, lineFeed ∉ line := by
  intro line mem
  rcases render_lines mem with blank | ⟨heading,known,named⟩ | ⟨heading,text,entry,same⟩
  · rw [blank]
    exact List.not_mem_nil
  · rw [named, List.mem_append, not_or]
    exact ⟨by decide,(category_line heading known).2.2.2.2⟩
  · rw [same, List.mem_append, not_or]
    exact ⟨by decide,single heading text entry⟩

theorem render_inside : ∀ line ∈ renderTexts texts, ¬ startsWith line (js "## ") = true := by
  intro line mem
  rcases render_lines mem with blank | ⟨heading,known,named⟩ | ⟨heading,text,entry,same⟩
  · rw [blank]
    decide
  · rw [named]
    exact Bool.false_ne_true
  · rw [same]
    exact Bool.false_ne_true

theorem render_names : ∀ name ∈ openedNames (renderTexts texts), Ordinary name := by
  intro name mem
  rw [openedNames, List.mem_filter, List.mem_map] at mem
  obtain ⟨⟨group,inside,same⟩,_⟩ := mem
  obtain ⟨line,written,is⟩ := List.mem_filterMap.mp inside
  rcases render_lines written with blank | ⟨heading,known,named⟩ | ⟨heading,text,entry,bullet⟩
  · rw [blank] at is
    have plain : sectionMatch [] = none := by decide
    rw [plain] at is
    contradiction
  · obtain ⟨match',trimmed,ordinary,_⟩ := category_line heading known
    rw [named, match'] at is
    cases is
    rw [← same, trimmed]
    exact ordinary
  · rw [bullet] at is
    have plain : sectionMatch (js "- " ++ text) = none := rfl
    rw [plain] at is
    contradiction

end render

theorem findIdx_front {p : JsString → Bool} {lines : List JsString} {i : Nat} (first : lines.findIdx? p = some i)
    (rest : List JsString) : (lines.take (i + 1) ++ rest).findIdx? p = some i := by
  have small := (List.findIdx?_eq_some_iff_findIdx_eq.mp first).1
  have length : (lines.take (i + 1)).length = i + 1 := by
    rw [List.length_take]
    omega
  have whole := first
  rw [← List.take_append_drop (i + 1) lines, List.findIdx?_append, length] at whole
  rw [List.findIdx?_append]
  cases front : (lines.take (i + 1)).findIdx? p with
  | some j =>
    rw [front] at whole
    exact whole
  | none =>
    rw [front, Option.none_or, Option.map_eq_some_iff] at whole
    obtain ⟨k,_,same⟩ := whole
    omega

/-- Another section in the place of the unreleased one begins and ends where it stands. -/
theorem bounds_replaced {lines new : List JsString} {startIndex endIndex : Nat}
    (bounds : unreleasedBounds lines = some (startIndex, endIndex)) (inside : ∀ line ∈ new, ¬ startsWith line (js "## ") = true) :
    startIndex < lines.length ∧ unreleasedBounds (lines.take (startIndex + 1) ++ new ++ lines.drop endIndex) =
      some (startIndex, startIndex + 1 + new.length) := by
  rw [unreleasedBounds, Option.map_eq_some_iff] at bounds
  obtain ⟨start,first,same⟩ := bounds
  obtain ⟨rfl,ends⟩ := Prod.mk.inj same
  have small := (List.findIdx?_eq_some_iff_findIdx_eq.mp first).1
  have length : (lines.take (start + 1)).length = start + 1 := by
    rw [List.length_take]
    omega
  have none' : new.findIdx? (fun line => startsWith line (js "## ")) = none := by
    rw [List.findIdx?_eq_none_iff]
    intro line mem
    simpa using inside line mem
  have stop : sectionEnd (lines.take (start + 1) ++ new ++ lines.drop endIndex) start = start + 1 + new.length := by
    rw [sectionEnd, List.append_assoc, List.drop_left' length, List.findIdx?_append, none', Option.none_or]
    rw [sectionEnd] at ends
    cases next : (lines.drop (start + 1)).findIdx? fun line => startsWith line (js "## ") with
    | none =>
      rw [next] at ends
      rw [← ends, List.drop_length]
      simp only [List.findIdx?_nil, Option.map_none, List.length_append, length, List.length_nil]
      omega
    | some i =>
      rw [next] at ends
      obtain ⟨less,here,_⟩ := List.findIdx?_eq_some_iff_getElem.mp next
      have opens : (lines.drop endIndex).findIdx? (fun line => startsWith line (js "## ")) = some 0 := by
        dsimp only at ends
        rw [← ends, ← List.drop_drop, List.drop_eq_getElem_cons less, List.findIdx?_cons, if_pos here]
      rw [opens]
      simp
  refine ⟨small,?_⟩
  rw [unreleasedBounds, List.append_assoc, findIdx_front first, ← List.append_assoc, Option.map_some, stop]

end Changelog
