import OpenAgents.Commit.ChangelogTexts

/- When an update keeps what stands in the changelog: every line of the section is a bullet of a known category
   or is deleted, every proposed entry is one line of such a category, and none is listed twice. -/
namespace Changelog
open JsText JsJson JsObject

section
variable (toLowerCase : JsString → JsString) (content : JsString) (entries : EntryMap) (deletions : Option EntryMap)

def sameEntry (item other : Item) : Bool := decide (other.heading = item.heading) && sameText toLowerCase item.text other.text

/- What the deletions leave of the bullets under a heading. -/
def keptEntries (heading : JsString) : List JsString :=
  keptTexts toLowerCase (deletions.map normalizeEntries) (fun heading => textsUnder heading (bulletItems content)) heading

def newEntries (heading : JsString) : List JsString :=
  addedTexts toLowerCase (normalizeEntries entries) (keptEntries toLowerCase content deletions) heading

/-- An update that keeps what stands in the changelog. -/
structure KeepsContent (out : JsString) : Prop where
  outside : ∃ startIndex endIndex newEnd, unreleasedBounds (splitLines content) = some (startIndex, endIndex) ∧
    unreleasedBounds (splitLines out) = some (startIndex, newEnd) ∧
    (splitLines out).take (startIndex + 1) = (splitLines content).take (startIndex + 1) ∧
    (splitLines out).drop newEnd = (splitLines content).drop endIndex
  kept : ∀ item ∈ sectionItems content, namedBy toLowerCase (deletions.map normalizeEntries) item = false → item ∈ sectionItems out
  once : ∀ item ∈ proposedItems (normalizeEntries entries), (sectionItems out).countP (sameEntry toLowerCase item) = 1
  settled : updateChangelog toLowerCase out entries deletions = .ok out

/-- A section and a proposal of which nothing is lost. -/
structure LosesNothing : Prop where
  names : OrdinaryNames content entries deletions
  proposed : ∀ item ∈ proposedItems (normalizeEntries entries), item.heading ∈ changelogCategories ∧ lineFeed ∉ item.text
  taken : ∀ item ∈ sectionItems content, namedBy toLowerCase (deletions.map normalizeEntries) item = false →
    item.heading ∈ changelogCategories ∧
      (item ∈ bulletItems content ∨ item.text ∈ newEntries toLowerCase content entries deletions item.heading)
  once : ∀ item ∈ proposedItems (normalizeEntries entries),
    (keptEntries toLowerCase content deletions item.heading).countP (sameText toLowerCase item.text) = 1 ∨
      (keptEntries toLowerCase content deletions item.heading).countP (sameText toLowerCase item.text) = 0 ∧
        (proposedUnder (normalizeEntries entries) item.heading).countP (sameText toLowerCase item.text) = 1
  last : ∀ heading ∈ changelogCategories, (newEntries toLowerCase content entries deletions heading).Pairwise fun a b =>
    namedBy toLowerCase (deletions.map normalizeEntries) ⟨heading,a⟩ = true →
      namedBy toLowerCase (deletions.map normalizeEntries) ⟨heading,b⟩ = true

end

theorem updated_congr {toLowerCase : JsString → JsString} {entries : EntryMap} {deletions : Option EntryMap}
    {texts others : JsString → List JsString} {heading : JsString} (same : texts heading = others heading) :
    updatedTexts toLowerCase entries deletions texts heading = updatedTexts toLowerCase entries deletions others heading := by
  have kept : keptTexts toLowerCase deletions texts heading = keptTexts toLowerCase deletions others heading := by
    rw [keptTexts, keptTexts, same]
  rw [updatedTexts, updatedTexts, addedTexts, addedTexts, kept]

theorem render_congr {texts others : JsString → List JsString}
    (same : ∀ heading ∈ changelogCategories, texts heading = others heading) : renderTexts texts = renderTexts others := by
  have lines : (changelogCategories.flatMap fun heading => renderSection (texts heading) heading) =
      changelogCategories.flatMap fun heading => renderSection (others heading) heading := by
    apply List.flatMap_congr
    intro heading known
    rw [same heading known]
  rw [renderTexts, renderTexts, lines]

theorem render_injective {texts others : JsString → List JsString} (clean : ∀ heading, ∀ text ∈ texts heading, Clean text)
    (cleanOthers : ∀ heading, ∀ text ∈ others heading, Clean text) (same : renderTexts texts = renderTexts others) :
    ∀ heading ∈ changelogCategories, texts heading = others heading := by
  intro heading known
  have read := @read_rendered anyLine texts clean fun _ _ _ => rfl
  have readOthers := @read_rendered anyLine others cleanOthers fun _ _ _ => rfl
  rw [same, readOthers] at read
  rw [← @texts_written texts heading known, writtenItems, ← read, ← writtenItems, texts_written known]

section
variable {toLowerCase : JsString → JsString} {content : JsString} {entries : EntryMap} {deletions : Option EntryMap}

theorem section_single {line : JsString} (mem : line ∈ sectionLines (splitLines content)) : lineFeed ∉ line := by
  rw [sectionLines] at mem
  split at mem
  · contradiction
  · exact split_clean content line (List.take_subset _ _ (List.drop_subset _ _ mem))

theorem written_oneLine (single : ∀ item ∈ proposedItems (normalizeEntries entries), lineFeed ∉ item.text) :
    ∀ heading, ∀ text ∈ writtenTexts toLowerCase content entries deletions heading, OneLine text := by
  intro heading text mem
  rw [writtenTexts, updatedTexts, List.mem_append, keptTexts, addedTexts, List.mem_filter, List.mem_filter] at mem
  rcases mem with ⟨old,_⟩ | ⟨new,_⟩
  · exact read_oneLine (fun _ inside => section_single inside) [] _ (mem_textsUnder.mp old)
  · have item : (⟨heading,text⟩ : Item) ∈ proposedItems (normalizeEntries entries) :=
      (mem_proposed (normalize_distinct entries)).mpr new
    obtain ⟨field,mem,inside⟩ := List.mem_flatMap.mp item
    obtain ⟨own,here,same⟩ := List.mem_map.mp inside
    cases same
    exact ⟨normalize_clean entries field mem _ here,single _ item⟩

variable {startIndex endIndex : Nat} {out : JsString}

theorem rewritten_outside {texts : JsString → List JsString} (re : Rewritten content startIndex endIndex texts out) :
    (splitLines out).take (startIndex + 1) = (splitLines content).take (startIndex + 1) ∧
      (splitLines out).drop (startIndex + 1 + (renderTexts texts).length) = (splitLines content).drop endIndex := by
  have length : ((splitLines content).take (startIndex + 1)).length = startIndex + 1 := by
    have small := re.start
    rw [List.length_take]
    omega
  have reach : ((splitLines content).take (startIndex + 1) ++ renderTexts texts).length =
      startIndex + 1 + (renderTexts texts).length := by
    rw [List.length_append, length]
  rw [re.lines]
  constructor
  · rw [List.append_assoc, List.take_left' length]
  · rw [List.drop_left' reach]

/-- An entry is listed once when it is there once, or is not there and proposed once. -/
theorem count_new (item : Item) :
    (writtenTexts toLowerCase content entries deletions item.heading).countP (sameText toLowerCase item.text) = 1 ↔
      (keptEntries toLowerCase content deletions item.heading).countP (sameText toLowerCase item.text) = 1 ∨
        (keptEntries toLowerCase content deletions item.heading).countP (sameText toLowerCase item.text) = 0 ∧
          (proposedUnder (normalizeEntries entries) item.heading).countP (sameText toLowerCase item.text) = 1 := by
  have parts : writtenTexts toLowerCase content entries deletions item.heading =
      keptEntries toLowerCase content deletions item.heading ++ newEntries toLowerCase content entries deletions item.heading := rfl
  have none' := @count_lower toLowerCase (keptEntries toLowerCase content deletions item.heading) item.text
  rw [parts, List.countP_append, newEntries, count_added]
  split
  · rename_i there
    have some' : (keptEntries toLowerCase content deletions item.heading).countP (sameText toLowerCase item.text) ≠ 0 := fun zero =>
      none'.mp zero there
    omega
  · rename_i absent
    have zero := none'.mpr absent
    omega

/-- What the update of an updated changelog writes. -/
theorem update_rewritten {out again : JsString}
    (re : Rewritten content startIndex endIndex (writtenTexts toLowerCase content entries deletions) out)
    (ok : updateChangelog toLowerCase out entries deletions = .ok again) :
    again = joinLines ((splitLines content).take (startIndex + 1) ++ renderTexts (writtenTexts toLowerCase out entries deletions) ++
      (splitLines content).drop endIndex) := by
  obtain ⟨front,back⟩ := rewritten_outside re
  have gives := (update_run re.bounds).2 again ok
  rwa [front, back] at gives

theorem written_again (re : Rewritten content startIndex endIndex (writtenTexts toLowerCase content entries deletions) out)
    {heading : JsString} (known : heading ∈ changelogCategories) :
    writtenTexts toLowerCase out entries deletions heading = writtenTexts toLowerCase content entries deletions heading ↔
      (newEntries toLowerCase content entries deletions heading).Pairwise fun a b =>
        namedBy toLowerCase (deletions.map normalizeEntries) ⟨heading,a⟩ = true →
          namedBy toLowerCase (deletions.map normalizeEntries) ⟨heading,b⟩ = true := by
  have read : textsUnder heading (bulletItems out) = writtenTexts toLowerCase content entries deletions heading := by
    rw [re.bullets, texts_written known]
  have again : writtenTexts toLowerCase out entries deletions heading =
      updatedTexts toLowerCase (normalizeEntries entries) (deletions.map normalizeEntries)
        (writtenTexts toLowerCase content entries deletions) heading := updated_congr read
  rw [again]
  exact updated_settled

section both
variable {startIndex endIndex : Nat} (unreleased : unreleasedBounds (splitLines content) = some (startIndex, endIndex))
include unreleased

/-- What is kept has not been lost on the way. -/
theorem losesNothing_of_keeps (keepsLines : ∀ text, lineFeed ∈ toLowerCase text ↔ lineFeed ∈ text) {out : JsString}
    (ok : updateChangelog toLowerCase content entries deletions = .ok out)
    (keeps : KeepsContent toLowerCase content entries deletions out) : LosesNothing toLowerCase content entries deletions := by
  obtain ⟨ends,gives⟩ := @update_run toLowerCase content entries deletions _ _ unreleased
  have listed : ∀ item ∈ proposedItems (normalizeEntries entries), ∃ other ∈ sectionItems out,
      other.heading = item.heading ∧ toLowerCase other.text = toLowerCase item.text := by
    intro item mem
    have positive : 0 < (sectionItems out).countP (sameEntry toLowerCase item) := by
      rw [keeps.once item mem]
      exact Nat.one_pos
    obtain ⟨other,inside,same⟩ := List.countP_pos_iff.mp positive
    rw [sameEntry, Bool.and_eq_true, decide_eq_true_eq, sameText, beq_iff_eq] at same
    exact ⟨other,inside,same⟩
  have single : ∀ item ∈ proposedItems (normalizeEntries entries), lineFeed ∉ item.text := by
    intro item mem feed
    obtain ⟨other,inside,_,same⟩ := listed item mem
    apply (read_oneLine (fun _ line => section_single line) [] other inside).single
    rw [← keepsLines, same, keepsLines]
    exact feed
  have re := rewritten unreleased (@written_oneLine toLowerCase content entries deletions single)
  rw [← gives out ok] at re
  have known : ∀ item ∈ proposedItems (normalizeEntries entries), item.heading ∈ changelogCategories := by
    intro item mem
    obtain ⟨other,inside,same,_⟩ := listed item mem
    rw [re.items, mem_written, same] at inside
    exact inside.1
  refine ⟨ends.mp ⟨out,ok⟩,fun item mem => ⟨known item mem,single item mem⟩,?_,?_,?_⟩
  · intro item mem unnamed
    have inside := keeps.kept item mem unnamed
    rw [re.items, mem_written] at inside
    refine ⟨inside.1,?_⟩
    rcases List.mem_append.mp inside.2 with old | new
    · exact .inl (mem_textsUnder.mp (List.mem_filter.mp old).1)
    · exact .inr new
  · intro item mem
    have once := keeps.once item mem
    rw [re.items] at once
    rw [← count_new, ← count_written toLowerCase (known item mem)]
    exact once
  · have again := update_rewritten re keeps.settled
    have reAgain := rewritten unreleased (@written_oneLine toLowerCase out entries deletions single)
    rw [← again] at reAgain
    have same := re.lines.symm.trans reAgain.lines
    rw [List.append_cancel_right_eq, List.append_cancel_left_eq] at same
    intro heading known
    apply (written_again re known).mp
    symm
    apply render_injective _ _ same heading known
    · exact fun heading text mem => (written_oneLine single heading text mem).clean
    · exact fun heading text mem => (written_oneLine single heading text mem).clean

/-- What is not lost on the way is kept. -/
theorem keeps_of_losesNothing (loses : LosesNothing toLowerCase content entries deletions) :
    ∃ out, updateChangelog toLowerCase content entries deletions = .ok out ∧
      KeepsContent toLowerCase content entries deletions out := by
  obtain ⟨ends,gives⟩ := @update_run toLowerCase content entries deletions _ _ unreleased
  obtain ⟨out,ok⟩ := ends.mpr loses.names
  have re := rewritten unreleased (@written_oneLine toLowerCase content entries deletions fun item mem => (loses.proposed item mem).2)
  rw [← gives out ok] at re
  obtain ⟨front,back⟩ := rewritten_outside re
  refine ⟨out,ok,⟨_,_,_,unreleased,re.bounds,front,back⟩,?_,?_,?_⟩
  · intro item mem unnamed
    obtain ⟨known,taken⟩ := loses.taken item mem unnamed
    rw [re.items, mem_written]
    refine ⟨known,List.mem_append.mpr ?_⟩
    rcases taken with old | new
    · left
      exact List.mem_filter.mpr ⟨mem_textsUnder.mpr old,by rw [unnamed]; rfl⟩
    · exact .inr new
  · intro item mem
    have once := (count_new item).mpr (loses.once item mem)
    rw [← count_written toLowerCase (loses.proposed item mem).1] at once
    rw [re.items]
    exact once
  · have names : OrdinaryNames out entries deletions := by
      refine ⟨?_,?_,loses.names.proposed⟩
      · intro item mem
        rw [re.bullets, mem_written] at mem
        exact (category_line item.heading mem.1).2.2.1
      · intro _ name mem
        rw [re.sections] at mem
        exact render_names name mem
    obtain ⟨again,okAgain⟩ := (update_run re.bounds).1.mpr names
    have same := update_rewritten re okAgain
    have written := render_congr fun heading known => (written_again re known).mpr (loses.last heading known)
    rw [written, ← gives out ok] at same
    rw [okAgain, same]

end both

/-- An update keeps what stands in the changelog just when nothing of it is lost on the way. -/
theorem update_keeps_iff {startIndex endIndex : Nat}
    (unreleased : unreleasedBounds (splitLines content) = some (startIndex, endIndex))
    (keepsLines : ∀ text, lineFeed ∈ toLowerCase text ↔ lineFeed ∈ text) :
    (∃ out, updateChangelog toLowerCase content entries deletions = .ok out ∧
        KeepsContent toLowerCase content entries deletions out) ↔
      LosesNothing toLowerCase content entries deletions :=
  ⟨fun ⟨_,ok,keeps⟩ => losesNothing_of_keeps unreleased keepsLines ok keeps,keeps_of_losesNothing unreleased⟩

end

def lowerText (text : JsString) : JsString := text.map lowerLetter

theorem lowerText_lines (text : JsString) : lineFeed ∈ lowerText text ↔ lineFeed ∈ text := by
  have letter : ∀ c : CodeUnit, lowerLetter c = lineFeed ↔ c = lineFeed := by
    intro c
    rw [lowerLetter]
    split
    · rename_i upper
      rw [Bool.and_eq_true, decide_eq_true_eq, decide_eq_true_eq, UInt16.le_iff_toNat_le, UInt16.le_iff_toNat_le] at upper
      have low : (65 : UInt16).toNat = 65 := rfl
      have high : (90 : UInt16).toNat = 90 := rfl
      have more : (c + 32).toNat = (c.toNat + 32) % 65536 := UInt16.toNat_add c 32
      have feed : lineFeed.toNat = 10 := rfl
      rw [← UInt16.toNat_inj, ← UInt16.toNat_inj, more, feed]
      omega
    · rfl
  rw [lowerText, List.mem_map]
  constructor
  · rintro ⟨c,mem,same⟩
    rwa [(letter c).mp same] at mem
  · intro mem
    exact ⟨lineFeed,mem,rfl⟩

/-- An entry is deleted, one added under its heading and one under another. -/
theorem update_keeps_known : ∃ out,
    updateChangelog lowerText (js "## [Unreleased]\n### Added\n- Old\n- kept\n## [1.0]")
        [(js "Added", [js "New."]), (js "Fixed", [js "f"])] (some [(js "Added", [js "old"])]) = .ok out ∧
      KeepsContent lowerText (js "## [Unreleased]\n### Added\n- Old\n- kept\n## [1.0]")
        [(js "Added", [js "New."]), (js "Fixed", [js "f"])] (some [(js "Added", [js "old"])]) out :=
  (@update_keeps_iff lowerText (js "## [Unreleased]\n### Added\n- Old\n- kept\n## [1.0]")
    [(js "Added", [js "New."]), (js "Fixed", [js "f"])] (some [(js "Added", [js "old"])]) 0 4 (by decide +kernel)
    lowerText_lines).mpr
    ⟨⟨by decide +kernel,by decide +kernel,by decide +kernel⟩,by decide +kernel,by decide +kernel,by decide +kernel,
      by decide +kernel⟩

/-- A starred entry is lost, and so are the second line of an entry and what stands under a heading of one's own. -/
theorem entries_lost : ¬ ∃ out,
    updateChangelog lowerText (js "## [Unreleased]\n### Added\n- a\n  b\n* c\n### Tests\n- d") [(js "Added", [js "e"])] none = .ok out ∧
      KeepsContent lowerText (js "## [Unreleased]\n### Added\n- a\n  b\n* c\n### Tests\n- d") [(js "Added", [js "e"])] none out := by
  rintro ⟨out,ok,keeps⟩
  have written : updateChangelog lowerText (js "## [Unreleased]\n### Added\n- a\n  b\n* c\n### Tests\n- d")
      [(js "Added", [js "e"])] none = .ok (js "## [Unreleased]\n\n### Added\n- a\n- e") := by decide +kernel
  rw [written] at ok
  cases ok
  have starred := keeps.kept ⟨js "Added",js "c"⟩ (by decide +kernel) rfl
  exact absurd starred (by decide +kernel)

end Changelog
