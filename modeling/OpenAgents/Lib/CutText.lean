import OpenAgents.Lib.TextReplace
import OpenAgents.Lib.FlatEdits

/- A text in which tokens are hidden behind marks, one token after another. A token is looked for in
   what is shown; as long as it is found only in what is left of the text, what is shown and the
   original text belong to the same cut. -/
namespace CutText
open TextReplace
variable {α : Type} [DecidableEq α]

/-- Text, a hidden token with its mark, and so on, up to the text behind the last mark. -/
inductive Cut (α : Type) where
  | whole (text : List α)
  | hides (text token mark : List α) (rest : Cut α)

namespace Cut

def shown : Cut α → List α
  | whole text => text
  | hides text _ mark rest => text ++ mark ++ shown rest

def original : Cut α → List α
  | whole text => text
  | hides text token _ rest => text ++ token ++ original rest

/- All hidden tokens with their marks. -/
def All (holds : List α → List α → Prop) : Cut α → Prop
  | whole _ => True
  | hides _ token mark rest => holds token mark ∧ All holds rest

def glue (first : Cut α) (token mark : List α) (rest : Cut α) : Cut α :=
  match first with
  | whole text => hides text token mark rest
  | hides text own other more => hides text own other (glue more token mark rest)

def cutFuel (token mark : List α) : Nat → List α → Cut α
  | 0, text => whole text
  | fuel + 1, text =>
      match firstAt token text with
      | none => whole text
      | some i => hides (text.take i) token mark (cutFuel token mark fuel (text.drop (i + token.length)))

/- Hides a token in what is left of the text. -/
def hide (token mark : List α) : Cut α → Cut α
  | whole text => cutFuel token mark (text.length + 1) text
  | hides text own other rest => glue (cutFuel token mark (text.length + 1) text) own other (hide token mark rest)

/- An occurrence of the token that begins before the end of a mark lies in the text before the mark. -/
def Uncrossed (token : List α) : Cut α → Prop
  | whole _ => True
  | hides text _ mark rest =>
      (∀ i < text.length + mark.length, token <+: (text ++ mark ++ shown rest).drop i → i + token.length ≤ text.length) ∧
        Uncrossed token rest

instance (token : List α) : (cut : Cut α) → Decidable (Uncrossed token cut)
  | whole _ => .isTrue trivial
  | hides text own mark rest =>
      have := instDecidableUncrossed token rest
      inferInstanceAs (Decidable ((∀ i < text.length + mark.length,
        token <+: (text ++ mark ++ shown rest).drop i → i + token.length ≤ text.length) ∧ Uncrossed token rest))

omit [DecidableEq α] in
@[simp] theorem shown_glue (first : Cut α) (token mark : List α) (rest : Cut α) :
    (glue first token mark rest).shown = first.shown ++ mark ++ rest.shown := by
  induction first with
  | whole text => rfl
  | hides text own other more ih =>
    rw [glue, shown, ih, shown]
    simp only [List.append_assoc]

omit [DecidableEq α] in
@[simp] theorem original_glue (first : Cut α) (token mark : List α) (rest : Cut α) :
    (glue first token mark rest).original = first.original ++ token ++ rest.original := by
  induction first with
  | whole text => rfl
  | hides text own other more ih =>
    rw [glue, original, ih, original]
    simp only [List.append_assoc]

omit [DecidableEq α] in
theorem all_glue {holds : List α → List α → Prop} {first rest : Cut α} {token mark : List α} (before : first.All holds)
    (here : holds token mark) (after : rest.All holds) : (glue first token mark rest).All holds := by
  induction first with
  | whole text => exact ⟨here,after⟩
  | hides text own other more ih => exact ⟨before.1,ih before.2⟩

omit [DecidableEq α] in
theorem All.imp {holds better : List α → List α → Prop} (step : ∀ token mark, holds token mark → better token mark)
    {cut : Cut α} (all : cut.All holds) : cut.All better := by
  induction cut with
  | whole text => trivial
  | hides text token mark rest ih => exact ⟨step token mark all.1,ih all.2⟩

section hide
variable {token mark : List α}

theorem shown_cutFuel (fuel : Nat) (text : List α) : (cutFuel token mark fuel text).shown = replaceFuel token mark fuel text := by
  induction fuel generalizing text with
  | zero => rfl
  | succ fuel ih =>
    rw [cutFuel, replaceFuel]
    cases firstAt token text with
    | none => rfl
    | some i =>
      dsimp only
      rw [shown, ih]

theorem original_cutFuel (fuel : Nat) (text : List α) : (cutFuel token mark fuel text).original = text := by
  induction fuel generalizing text with
  | zero => rfl
  | succ fuel ih =>
    rw [cutFuel]
    cases found : firstAt token text with
    | none => rfl
    | some i =>
      obtain ⟨after,is⟩ := (firstAt_some found).1
      have rest : text.drop (i + token.length) = after := by
        rw [← List.drop_drop, ← is, List.drop_left]
      dsimp only
      rw [original, ih, rest, List.append_assoc, is, List.take_append_drop]

theorem all_cutFuel {holds : List α → List α → Prop} (here : holds token mark) (fuel : Nat) (text : List α) :
    (cutFuel token mark fuel text).All holds := by
  induction fuel generalizing text with
  | zero => trivial
  | succ fuel ih =>
    rw [cutFuel]
    cases firstAt token text with
    | none => trivial
    | some i => exact ⟨here,ih _⟩

theorem original_hide (cut : Cut α) : (hide token mark cut).original = cut.original := by
  induction cut with
  | whole text => exact original_cutFuel _ text
  | hides text own other rest ih => rw [hide, original_glue, original_cutFuel, ih, original]

theorem all_hide {holds : List α → List α → Prop} (here : holds token mark) {cut : Cut α} (all : cut.All holds) :
    (hide token mark cut).All holds := by
  induction cut with
  | whole text => exact all_cutFuel here _ text
  | hides text own other rest ih => exact all_glue (all_cutFuel here _ text) all.1 (ih all.2)

/-- Replacing in what is shown is hiding in what is left. -/
theorem shown_hide (some' : token ≠ []) {cut : Cut α} (clean : cut.All fun _ other => ¬ token <:+: other)
    (uncrossed : cut.Uncrossed token) : (hide token mark cut).shown = replaceAll cut.shown token mark := by
  have single : ∀ text, (cutFuel token mark (text.length + 1) text).shown = replaceAll text token mark := by
    intro text
    rw [shown_cutFuel, replaceAll, if_neg (by simpa using some')]
  induction cut with
  | whole text => exact single text
  | hides text own other rest ih =>
    have behind : replaceAll (text ++ other ++ rest.shown) token mark =
        replaceAll (text ++ other) token mark ++ replaceAll rest.shown token mark := by
      apply replace_append some'
      intro i less begins
      rw [List.length_append] at less ⊢
      have inside := uncrossed.1 i less begins
      omega
    have before : replaceAll (text ++ other) token mark = replaceAll text token mark ++ replaceAll other token mark := by
      apply replace_append some'
      intro i less begins
      apply uncrossed.1 i (by omega)
      rw [List.drop_append_of_le_length (by rw [List.length_append]; omega)]
      exact begins.trans (List.prefix_append _ _)
    have kept : replaceAll other token mark = other := replaceAll_none some' (firstAt_none_iff.mpr clean.1)
    rw [hide, shown_glue, single, ih clean.2 uncrossed.2, shown, behind, before,
      kept]

end hide

end Cut

end CutText

/- A text that is replaced piece by piece, each piece found in what is shown at the time. As long as
   every piece lies in what is left of the original, what is shown is the original with edits that
   stand apart, and there are no more of them than places. -/
namespace CutText
open FlatEdits TextReplace
variable {α : Type}

/- Not both of them insert at one place. -/
def Ahead (earlier later : Edit α) : Prop :=
  earlier.stop ≤ later.start ∧ earlier.start + earlier.stop < later.start + later.stop

namespace Cut

/-- Replaces the stretch of what is shown if it lies in what is left, an empty one away from every mark. -/
def splice (mark : List α) : Nat → Nat → Cut α → Option (Cut α)
  | start, size, whole text =>
      if start + size ≤ text.length then
        some (hides (text.take start) ((text.drop start).take size) mark (whole (text.drop (start + size))))
      else none
  | start, size, hides text token own rest =>
      let reach := text.length + own.length
      if start + size ≤ text.length ∧ (0 < size ∨ start < text.length) then
        some (hides (text.take start) ((text.drop start).take size) mark (hides (text.drop (start + size)) token own rest))
      else if reach ≤ start ∧ (0 < size ∨ reach < start) then
        (splice mark (start - reach) size rest).map (hides text token own)
      else none

/- The edits of the original, which begins at a place of a longer text. -/
def edits : Nat → Cut α → List (Edit α)
  | _, whole _ => []
  | place, hides text token mark rest =>
      ⟨place + text.length,place + text.length + token.length,mark⟩ ::
        edits (place + text.length + token.length) rest

/- Something stands between the token and the end of the next one. -/
def Behind (token : List α) : Cut α → Prop
  | whole _ => True
  | hides text next _ _ => 0 < token.length + text.length + next.length

def Spread : Cut α → Prop
  | whole _ => True
  | hides _ token _ rest => rest.Behind token ∧ rest.Spread

theorem edits_inside {cut : Cut α} {place : Nat} {edit : Edit α} (mem : edit ∈ cut.edits place) :
    place ≤ edit.start ∧ edit.start ≤ edit.stop ∧ edit.stop ≤ place + cut.original.length := by
  induction cut generalizing place with
  | whole text => contradiction
  | hides text token mark rest ih =>
    have size : (hides text token mark rest).original.length = text.length + token.length + rest.original.length := by
      rw [original, List.length_append, List.length_append]
    rw [edits, List.mem_cons] at mem
    rcases mem with same | later
    · rw [same, size]
      dsimp only
      omega
    · have inside := ih later
      omega

/-- What is shown is the original with all edits at once. -/
theorem shown_simultaneous (cut : Cut α) (before : List α) :
    simultaneous (cut.edits before.length) (before ++ cut.original) = before ++ cut.shown := by
  induction cut generalizing before with
  | whole text => exact simultaneous_nil _
  | hides text token mark rest ih =>
    have place : before.length + text.length + token.length = (before ++ text ++ token).length := by
      rw [List.length_append, List.length_append]
    have behind := ih (before ++ text ++ token)
    have parts : before ++ (hides text token mark rest).original = before ++ text ++ token ++ rest.original := by
      simp only [original, List.append_assoc]
    have front : before.length + text.length = (before ++ text).length := by rw [List.length_append]
    rw [edits, parts, simultaneous_cons (Nat.le_add_right _ _)]
    · rw [place, behind, applyEdit, List.drop_left, front, List.append_assoc (before ++ text), List.take_left, shown]
      simp only [List.append_assoc]
    · simp only [List.length_append]
      omega
    · intro other mem
      exact (edits_inside mem).1

/-- Every edit takes a hidden token for its mark. -/
theorem edits_all {holds : List α → List α → Prop} {cut : Cut α} (all : cut.All holds) (before : List α) :
    ∀ edit ∈ cut.edits before.length,
      holds (((before ++ cut.original).take edit.stop).drop edit.start) edit.items := by
  induction cut generalizing before with
  | whole text => exact fun _ mem => nomatch mem
  | hides text token mark rest ih =>
    have place : before.length + text.length + token.length = (before ++ text ++ token).length := by
      rw [List.length_append, List.length_append]
    have front : before.length + text.length = (before ++ text).length := by rw [List.length_append]
    have parts : before ++ (hides text token mark rest).original = before ++ text ++ token ++ rest.original := by
      simp only [original, List.append_assoc]
    have behind := ih all.2 (before ++ text ++ token)
    rw [edits, List.forall_mem_cons, parts]
    constructor
    · dsimp only
      rw [place, List.take_left, front, List.drop_left]
      exact all.1
    · rw [place]
      exact behind

/-- Edits of a spread cut stand one ahead of the other. -/
theorem edits_ahead {cut : Cut α} (spread : cut.Spread) (place : Nat) : (cut.edits place).Pairwise Ahead := by
  induction cut generalizing place with
  | whole text => exact List.Pairwise.nil
  | hides text token mark rest ih =>
    rw [edits, List.pairwise_cons]
    refine ⟨?_,ih spread.2 _⟩
    intro later mem
    have inside := edits_inside mem
    refine ⟨inside.1,?_⟩
    dsimp only
    cases rest with
    | whole text => contradiction
    | hides more next own rest =>
      have apart : 0 < token.length + more.length + next.length := spread.1
      rw [edits, List.mem_cons] at mem
      rcases mem with same | further
      · rw [same]
        dsimp only
        omega
      · have beyond := (edits_inside further).1
        omega

/-- Tokens that are not empty need nothing between them. -/
theorem spread_of_some {cut : Cut α} (all : cut.All fun token _ => token ≠ []) : cut.Spread := by
  induction cut with
  | whole text => trivial
  | hides text token mark rest ih =>
    refine ⟨?_,ih all.2⟩
    have positive := List.length_pos_iff.mpr all.1
    cases rest with
    | whole text => trivial
    | hides more next own rest =>
      rw [Behind]
      omega

/-- There are at most two edits for each place. -/
theorem edits_few {cut : Cut α} (spread : cut.Spread) : (cut.edits 0).length ≤ 2 * cut.original.length + 1 := by
  have distinct : ((cut.edits 0).map fun edit => edit.start + edit.stop).Nodup := by
    rw [List.Nodup, List.pairwise_map]
    exact (edits_ahead spread 0).imp fun ahead => Nat.ne_of_lt ahead.2
  have within : (cut.edits 0).map (fun edit => edit.start + edit.stop) ⊆ List.range (2 * cut.original.length + 1) := by
    intro sum mem
    obtain ⟨edit,here,same⟩ := List.mem_map.mp mem
    have inside := edits_inside here
    rw [List.mem_range]
    omega
  have few := (List.subperm_of_subset distinct within).length_le
  rwa [List.length_map, List.length_range] at few

section splice
variable {mark : List α} {size : Nat}

/-- A splice is in the last text, in an earlier one, or behind a mark. -/
theorem splice_induction {motive : Nat → Cut α → Cut α → Prop}
    (last : ∀ start text, start + size ≤ text.length → motive start (whole text)
      (hides (text.take start) ((text.drop start).take size) mark (whole (text.drop (start + size)))))
    (here : ∀ start text token own rest, start + size ≤ text.length → 0 < size ∨ start < text.length →
      motive start (hides text token own rest)
        (hides (text.take start) ((text.drop start).take size) mark (hides (text.drop (start + size)) token own rest)))
    (behind : ∀ start text token own rest out, 0 < size ∨ 0 < start → motive start rest out →
      motive (text.length + own.length + start) (hides text token own rest) (hides text token own out))
    {start : Nat} {cut out : Cut α} (spliced : splice mark start size cut = some out) : motive start cut out := by
  induction cut generalizing start out with
  | whole text =>
    rw [splice] at spliced
    split at spliced
    · rename_i inside
      cases spliced
      exact last start text inside
    · contradiction
  | hides text token own rest ih =>
    rw [splice] at spliced
    split at spliced
    · rename_i inside
      cases spliced
      exact here start text token own rest inside.1 inside.2
    · split at spliced
      · rename_i beyond
        obtain ⟨inner,there,same⟩ := Option.map_eq_some_iff.mp spliced
        have further := behind (start - (text.length + own.length)) text token own rest inner (by omega) (ih there)
        rwa [Nat.add_sub_cancel' beyond.1, same] at further
      · contradiction

theorem parted (text : List α) (start : Nat) :
    text.take start ++ (text.drop start).take size ++ text.drop (start + size) = text := by
  rw [List.append_assoc, ← List.drop_drop, List.take_append_drop, List.take_append_drop]

variable {start : Nat} {cut out : Cut α} (spliced : splice mark start size cut = some out)
include spliced

theorem splice_original : out.original = cut.original := by
  apply @splice_induction α mark size (fun _ cut out => out.original = cut.original) _ _ _ _ _ _ spliced
  · intro start text _
    exact parted text start
  · intro start text token own rest _ _
    rw [original, original, original, ← List.append_assoc, ← List.append_assoc, parted]
  · intro start text token own rest out _ ih
    rw [original, ih, original]

theorem splice_shown : out.shown = cut.shown.take start ++ mark ++ cut.shown.drop (start + size) := by
  apply @splice_induction α mark size
    (fun start cut out => out.shown = cut.shown.take start ++ mark ++ cut.shown.drop (start + size)) _ _ _ _ _ _ spliced
  · intro start text _
    rfl
  · intro start text token own rest inside _
    rw [shown, shown, shown, List.append_assoc text, List.take_append_of_le_length (by omega),
      List.drop_append_of_le_length inside, List.append_assoc (text.drop (start + size))]
  · intro start text token own rest out _ ih
    have reach : text.length + own.length = (text ++ own).length := by rw [List.length_append]
    rw [shown, shown, ih, reach, List.take_length_add_append, Nat.add_assoc, List.drop_length_add_append]
    simp only [List.append_assoc]

/-- One edit more. -/
theorem splice_edits (place : Nat) : (out.edits place).length = (cut.edits place).length + 1 := by
  have all : ∀ place, (out.edits place).length = (cut.edits place).length + 1 := by
    apply @splice_induction α mark size
      (fun _ cut out => ∀ place, (out.edits place).length = (cut.edits place).length + 1) _ _ _ _ _ _ spliced
    · intro start text _ place
      rfl
    · intro start text token own rest inside _ place
      have same : place + (text.take start).length + ((text.drop start).take size).length + (text.drop (start + size)).length =
          place + text.length := by
        rw [Nat.add_assoc place, ← List.length_append, Nat.add_assoc place, ← List.length_append, parted]
      rw [edits, edits, edits, same]
      rfl
    · intro start text token own rest out _ ih place
      rw [edits, edits, List.length_cons, List.length_cons, ih]
  exact all place

/-- The new mark stands for a stretch of what was shown. -/
theorem splice_all {holds : List α → List α → Prop} (all : cut.All holds)
    (here : holds ((cut.shown.drop start).take size) mark) : out.All holds := by
  apply @splice_induction α mark size
    (fun start cut out => cut.All holds → holds ((cut.shown.drop start).take size) mark → out.All holds) _ _ _ _ _ _ spliced
    all here
  · intro start text _ _ here
    exact ⟨here,trivial⟩
  · intro start text token own rest inside _ all here
    rw [shown, List.append_assoc, List.drop_append_of_le_length (by omega),
      List.take_append_of_le_length (by rw [List.length_drop]; omega)] at here
    exact ⟨here,all⟩
  · intro start text token own rest out _ ih all here
    have reach : text.length + own.length = (text ++ own).length := by rw [List.length_append]
    rw [shown, reach, List.drop_length_add_append] at here
    exact ⟨all.1,ih all.2 here⟩

theorem splice_spread (spread : cut.Spread) : out.Spread := by
  have both : cut.Spread → out.Spread ∧ (0 < size ∨ 0 < start → ∀ token, cut.Behind token → out.Behind token) := by
    have stretch : ∀ (text : List α) (start : Nat), start + size ≤ text.length →
        (text.take start).length = start ∧ ((text.drop start).take size).length = size := by
      intro text start inside
      rw [List.length_take, List.length_take, List.length_drop]
      omega
    apply @splice_induction α mark size
      (fun start cut out => cut.Spread → out.Spread ∧ (0 < size ∨ 0 < start → ∀ token, cut.Behind token → out.Behind token))
      _ _ _ _ _ _ spliced
    · intro start text inside _
      refine ⟨⟨trivial,trivial⟩,?_⟩
      intro some' token _
      obtain ⟨front,middle⟩ := stretch text start inside
      rw [Behind, front, middle]
      omega
    · intro start text token own rest inside room spread
      obtain ⟨front,middle⟩ := stretch text start inside
      refine ⟨⟨?_,spread⟩,?_⟩
      · rw [Behind, middle, List.length_drop]
        omega
      · intro some' token _
        rw [Behind, front, middle]
        omega
    · intro start text token own rest out some' ih spread
      obtain ⟨later,kept⟩ := ih spread.2
      exact ⟨⟨kept some' token spread.1,later⟩,fun _ other before => before⟩
  exact (both spread).1

end splice

end Cut

end CutText
