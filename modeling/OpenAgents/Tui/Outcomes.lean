import OpenAgents.Tui.Renderer
import Mathlib.Data.List.Range

/- What the line diff of two frames says about them, and what is known of a frame from the intent it is
   classified as, outside multiplexers and at an unchanged size. -/
namespace TuiOutcomes
open JsText TuiRenderer

/- Frames as they are kept have no empty line. -/
def NoEmpty (lines : List JsString) : Prop := ∀ line ∈ lines, line ≠ []

section diff
variable {previous lines : List JsString} {first : Nat}

variable {i k : Nat}

theorem mem_changedRows :
    i ∈ changedRows previous lines ↔ i < max lines.length previous.length ∧ previous.getD i [] ≠ lines.getD i [] := by
  rw [changedRows, List.mem_filter, List.mem_range, decide_eq_true_eq]

theorem unchanged (other : i ∉ changedRows previous lines) : previous.getD i [] = lines.getD i [] := by
  by_cases within : i < max lines.length previous.length
  · by_contra differs
    exact other (mem_changedRows.mpr ⟨within,differs⟩)
  · rw [List.getD_eq_getElem?_getD, List.getD_eq_getElem?_getD, List.getElem?_eq_none (by omega), List.getElem?_eq_none (by omega)]

theorem getD_some (full : NoEmpty previous) (within : i < previous.length) : previous.getD i [] ≠ [] := by
  rw [List.getD_eq_getElem?_getD, List.getElem?_eq_getElem within]
  exact full _ (List.getElem_mem within)

theorem getD_none (behind : previous.length ≤ i) : previous.getD i [] = [] := by
  rw [List.getD_eq_getElem?_getD, List.getElem?_eq_none behind]
  rfl

/-- The line behind the end of the shorter frame has changed. -/
theorem end_changed (full : NoEmpty previous) (behind : lines.length ≤ i) (within : i < previous.length) :
    i ∈ changedRows previous lines := by
  rw [mem_changedRows, getD_none behind]
  exact ⟨by omega,getD_some full within⟩

theorem changedRows_sorted : (changedRows previous lines).Pairwise (· < ·) := List.pairwise_lt_range.filter _

theorem first_least (found : (changedRows previous lines).head? = some first) (before : i < first) :
    i ∉ changedRows previous lines := by
  obtain ⟨rest,is⟩ := List.head?_eq_some_iff.mp found
  have sorted := @changedRows_sorted previous lines
  rw [is, List.pairwise_cons] at sorted
  rw [is, List.mem_cons]
  rintro (same | later)
  · omega
  · have := sorted.1 i later
    omega

theorem last_greatest {last : Nat} (found : (changedRows previous lines).getLast? = some last) (behind : last < i) :
    i ∉ changedRows previous lines := by
  obtain ⟨front,is⟩ := List.getLast?_eq_some_iff.mp found
  have sorted := @changedRows_sorted previous lines
  rw [is, List.pairwise_append] at sorted
  rw [is, List.mem_append, List.mem_singleton]
  rintro (earlier | same)
  · have := sorted.2.2 i earlier last List.mem_cons_self
    omega
  · omega

theorem take_unchanged (within : k ≤ previous.length) (within' : k ≤ lines.length)
    (same : ∀ i < k, previous.getD i [] = lines.getD i []) : lines.take k = previous.take k := by
  apply List.ext_getElem
  · rw [List.length_take, List.length_take]
    omega
  · intro i less less'
    rw [List.length_take] at less less'
    have here := same i (by omega)
    rw [List.getD_eq_getElem?_getD, List.getD_eq_getElem?_getD, List.getElem?_eq_getElem (by omega),
      List.getElem?_eq_getElem (by omega)] at here
    rw [List.getElem_take, List.getElem_take]
    exact here.symm

theorem drop_unchanged (size : lines.length = previous.length) (same : ∀ i, k ≤ i → previous.getD i [] = lines.getD i []) : lines.drop k = previous.drop k := by
  apply List.ext_getElem
  · rw [List.length_drop, List.length_drop, size]
  · intro i less less'
    rw [List.length_drop] at less less'
    have here := same (k + i) (Nat.le_add_right k i)
    rw [List.getD_eq_getElem?_getD, List.getD_eq_getElem?_getD, List.getElem?_eq_getElem (by omega),
      List.getElem?_eq_getElem (by omega)] at here
    rw [List.getElem_drop, List.getElem_drop]
    exact here.symm

/-- Two frames without a difference are the same. -/
theorem same_of_none (full : NoEmpty previous) (none' : (diffLines previous lines).firstChanged = none) : lines = previous := by
  rw [diffLines] at none'
  split at none'
  · contradiction
  · rename_i short
    have nothing : changedRows previous lines = [] := List.head?_eq_none_iff.mp none'
    have size : lines.length = previous.length := by
      by_contra other
      have here := end_changed full (Nat.le_refl lines.length) (by omega)
      rw [nothing] at here
      contradiction
    have all := drop_unchanged (k := 0) size fun i _ => unchanged (by rw [nothing]; simp)
    rw [List.drop_zero, List.drop_zero] at all
    exact all

/-- What the first and the last difference say of two frames. -/
structure DiffFacts (previous lines : List JsString) (first last : Nat) : Prop where
  same : lines.take first = previous.take first
  known : first ≤ previous.length
  fresh : first = previous.length → previous.length < lines.length
  ordered : first ≤ last
  longer : previous.length < lines.length → last = lines.length - 1
  level : lines.length = previous.length → last < lines.length ∧ lines.drop (last + 1) = previous.drop (last + 1)
  shorter : lines.length < previous.length → last + 1 = previous.length

theorem diffFacts (full : NoEmpty previous) (fullNew : NoEmpty lines)
    (found : (diffLines previous lines).firstChanged = some first) :
    DiffFacts previous lines first ((diffLines previous lines).lastChanged.getD 0) := by
  rw [diffLines] at found ⊢
  by_cases longer : previous.length < lines.length
  · rw [if_pos longer] at found ⊢
    simp only [Option.some.injEq, Option.getD_some] at found ⊢
    have known : first ≤ previous.length ∧ ∀ i < first, i ∉ changedRows previous lines := by
      cases head : (changedRows previous lines).head? with
      | none =>
        rw [head, Option.getD_none] at found
        have nothing : changedRows previous lines = [] := List.head?_eq_none_iff.mp head
        exact ⟨by omega,fun i _ => by rw [nothing]; simp⟩
      | some k =>
        rw [head, Option.getD_some] at found
        rw [← found]
        have least : ¬ previous.length < k := by
          intro more
          apply first_least head more
          rw [mem_changedRows, getD_none (Nat.le_refl _)]
          exact ⟨by omega,(getD_some fullNew longer).symm⟩
        exact ⟨by omega,fun i before => first_least head before⟩
    exact {
      same := take_unchanged known.1 (by omega) fun i less => unchanged (known.2 i less)
      known := known.1
      fresh := fun _ => longer
      ordered := by omega
      longer := fun _ => rfl
      level := fun size => absurd size (by omega)
      shorter := fun less => absurd less (by omega) }
  · rw [if_neg longer] at found ⊢
    obtain ⟨rest,is⟩ := List.head?_eq_some_iff.mp found
    have here : first ∈ changedRows previous lines := by
      rw [is]
      exact List.mem_cons_self
    obtain ⟨within,differs⟩ := mem_changedRows.mp here
    have known : first ≤ lines.length := by
      by_contra more
      exact first_least found (Nat.lt_of_not_le more) (end_changed full (Nat.le_refl _) (by omega))
    obtain ⟨last,lastFound⟩ : ∃ last, (changedRows previous lines).getLast? = some last := by
      rw [is, List.getLast?_cons]
      exact ⟨_,rfl⟩
    have there : last ∈ changedRows previous lines := List.mem_of_getLast? lastFound
    obtain ⟨lastWithin,lastDiffers⟩ := mem_changedRows.mp there
    have ordered : first ≤ last := by
      by_contra before
      exact first_least found (Nat.lt_of_not_le before) there
    show DiffFacts previous lines first ((changedRows previous lines).getLast?.getD 0)
    rw [lastFound, Option.getD_some]
    exact {
      same := take_unchanged (by omega) known fun i less => unchanged (first_least found less)
      known := by omega
      fresh := fun end' => by omega
      ordered := ordered
      longer := fun more => absurd more longer
      level := fun size => ⟨by omega,drop_unchanged size fun i behind => unchanged (last_greatest lastFound behind)⟩
      shorter := fun less => by
        have least : ¬ last < previous.length - 1 := fun before =>
          last_greatest lastFound before (end_changed full (by omega) (by omega))
        omega }

end diff

section outcome

/-- An unchanged size, no overlay and no multiplexer. -/
structure Ordinary (host : Host) (frame : Frame) (p : Planning) : Prop where
  multiplexer : host.isMultiplexerSession = false
  overlay : frame.hasOverlay = false
  width : p.widthChanged = false
  height : p.heightChanged = false

/- A frame that does not cut into the rows that are counted as scrolled away. -/
def Uncut (host : Host) (s : Tui) (lines : List JsString) : Prop :=
  lines.length < s.previousLines.length → s.scrollbackHighWater ≤ lines.length - host.rows

/-- What is known from an intent and the mark that comes with it. -/
inductive Outcome (host : Host) (s : Tui) (p : Planning) : RenderIntent → Bool → Prop where
  | initial : s.hasEverRendered = false → Outcome host s p .initial s.nativeScrollbackDirty
  | replaced : s.hasEverRendered = true → Outcome host s p .sessionReplace s.nativeScrollbackDirty
  | rebuilt : s.hasEverRendered = true → Outcome host s p .historyRebuild s.nativeScrollbackDirty
  | deferred (paddedLength : Nat) : s.hasEverRendered = true → Outcome host s p (.deferredShrink paddedLength) true
  | dropped : s.hasEverRendered = true → Outcome host s p .deferredMutation true
  | marked (appendFrom : Option Nat) : s.hasEverRendered = true → Outcome host s p (.viewportRepaint appendFrom) true
  | same : s.hasEverRendered = true → (diffLines s.previousLines p.newLines).firstChanged = none →
      Outcome host s p .noop s.nativeScrollbackDirty
  | refreshed : s.hasEverRendered = true → (diffLines s.previousLines p.newLines).firstChanged = none →
      Outcome host s p (.viewportRepaint none) s.nativeScrollbackDirty
  | inserted : s.hasEverRendered = true → s.previousLines.length < p.newLines.length →
      p.newLines.length - host.rows ≤ s.previousLines.length - host.rows →
      Outcome host s p (.viewportRepaint none) s.nativeScrollbackDirty
  | wiped : s.hasEverRendered = true → p.newLines.length < s.previousLines.length → Uncut host s p.newLines →
      Outcome host s p (.viewportRepaint none) s.nativeScrollbackDirty
  | level (first : Nat) : s.hasEverRendered = true → (diffLines s.previousLines p.newLines).firstChanged = some first →
      p.newLines.length = s.previousLines.length → p.prevViewportTop ≤ first →
      Outcome host s p (.viewportRepaint none) s.nativeScrollbackDirty
  | appended : s.hasEverRendered = true →
      (diffLines s.previousLines p.newLines).firstChanged = some s.previousLines.length →
      s.previousLines.length < p.newLines.length → host.rows ≤ s.previousLines.length →
      Outcome host s p (.viewportRepaint (some s.previousLines.length)) s.nativeScrollbackDirty
  | shrunk (first : Nat) : s.hasEverRendered = true → (diffLines s.previousLines p.newLines).firstChanged = some first →
      p.newLines.length ≤ first → Uncut host s p.newLines → Outcome host s p .shrink s.nativeScrollbackDirty
  | rewritten (first : Nat) : s.hasEverRendered = true → (diffLines s.previousLines p.newLines).firstChanged = some first →
      first < p.newLines.length → p.prevViewportTop ≤ first → Uncut host s p.newLines →
      Outcome host s p (.diff first ((diffLines s.previousLines p.newLines).lastChanged.getD 0)
        (decide (s.previousLines.length < p.newLines.length))) s.nativeScrollbackDirty

variable {host : Host} {s : Tui} {frame : Frame} {p : Planning} {first : Nat}

theorem appendedLines_eq (previous lines : List JsString) :
    (diffLines previous lines).appendedLines = decide (previous.length < lines.length) := by
  rw [diffLines]
  split
  · rename_i longer
    exact (decide_eq_true longer).symm
  · rename_i short
    exact (decide_eq_false short).symm

theorem planScrolled_outcome (rendered : s.hasEverRendered = true) (atBottom : Option Bool) :
    Outcome host s p (planScrolled atBottom).intent (planScrolled atBottom).nativeScrollbackDirty := by
  rw [planScrolled]
  split
  · exact .dropped rendered
  · exact .marked none rendered

section steps
variable (ordinary : Ordinary host frame p) (rendered : s.hasEverRendered = true)
  (found : (diffLines s.previousLines p.newLines).firstChanged = some first) (uncut : Uncut host s p.newLines)
include ordinary rendered found uncut

theorem planInPlace_outcome :
    Outcome host s p (planInPlace host s frame p (diffLines s.previousLines p.newLines) first).intent
      (planInPlace host s frame p (diffLines s.previousLines p.newLines) first).nativeScrollbackDirty := by
  rw [planInPlace]
  simp only [ordinary.height, ordinary.multiplexer, Bool.false_and, Bool.and_false, Bool.false_eq_true, if_false]
  split
  · rename_i wipes
    simp only [Bool.and_eq_true, decide_eq_true_eq] at wipes
    exact .wiped rendered wipes.1.2 uncut
  · split
    · rename_i trailing
      exact .shrunk first rendered found trailing uncut
    · split
      · split
        · exact .rebuilt rendered
        · exact .marked _ rendered
      · rename_i inside visible
        have there : p.prevViewportTop ≤ first := by omega
        split
        · rename_i appends
          simp only [Bool.and_eq_true, decide_eq_true_eq, Planning.pureAppend, Planning.contentGrew, beq_iff_eq] at appends
          obtain ⟨⟨_,longer,end'⟩,full⟩ := appends
          rw [end'] at found
          exact .appended rendered found longer full
        · split
          · rename_i _ equal
            simp only [Bool.and_eq_true, decide_eq_true_eq, beq_iff_eq] at equal
            exact .level first rendered found equal.1.2 there
          · rw [appendedLines_eq]
            exact .rewritten first rendered found (by omega) there uncut

theorem planMutation_outcome :
    Outcome host s p (planMutation host s frame p (diffLines s.previousLines p.newLines) first).intent
      (planMutation host s frame p (diffLines s.previousLines p.newLines) first).nativeScrollbackDirty := by
  have inPlace := planInPlace_outcome ordinary rendered found uncut
  rw [planMutation]
  generalize (if (diffLines s.previousLines p.newLines).appendedLines then findAppendedTailStart s.previousLines p.newLines
    else p.newLines.length) = appendedTailStart
  dsimp only
  split
  · exact planScrolled_outcome rendered _
  · split
    · split
      · exact planScrolled_outcome rendered _
      · split
        · exact .rebuilt rendered
        · split
          · exact .rebuilt rendered
          · exact inPlace
    · exact inPlace

end steps

theorem planCommittedShrink_outcome (rendered : s.hasEverRendered = true) :
    Outcome host s p (planCommittedShrink host s frame p).intent (planCommittedShrink host s frame p).nativeScrollbackDirty := by
  rw [planCommittedShrink]
  split
  · exact .deferred _ rendered
  · split
    · exact .rebuilt rendered
    · split
      · exact .marked none rendered
      · split
        · exact .rebuilt rendered
        · exact .deferred _ rendered

theorem planSuffix_outcome (rendered : s.hasEverRendered = true) (longer : s.previousLines.length < p.newLines.length) :
    Outcome host s p (planSuffix host s frame p first).intent (planSuffix host s frame p first).nativeScrollbackDirty := by
  rw [planSuffix]
  split
  · rename_i fits
    exact .inserted rendered longer fits.2.2
  · split
    · exact .rebuilt rendered
    · exact .marked none rendered

/-- Every classified frame has one of these outcomes. -/
theorem planRender_outcome (ordinary : Ordinary host frame p) :
    Outcome host s p (planRender host s frame p).intent (planRender host s frame p).nativeScrollbackDirty := by
  rw [planRender]
  simp only [ordinary.overlay, ordinary.multiplexer, Bool.not_false, Bool.and_true, Bool.false_eq_true, if_false]
  split
  · rename_i never
    exact .initial (by simpa using never)
  · rename_i ever
    have rendered : s.hasEverRendered = true := by simpa using ever
    split
    · exact .replaced rendered
    · split
      · exact .rebuilt rendered
      · split
        · exact planCommittedShrink_outcome rendered
        · rename_i outside
          split
          · rename_i none'
            simp only [planUnchanged, ordinary.width, ordinary.height, Bool.false_and, Bool.false_eq_true, if_false]
            split
            · exact .refreshed rendered none'
            · exact .same rendered none'
          · rename_i first found
            have uncut : Uncut host s p.newLines := by
              intro shorter
              by_contra cut
              exact outside (by simp [found, shorter]; omega)
            split
            · rename_i inserts
              rw [appendedLines_eq] at inserts
              simp only [Bool.and_eq_true, decide_eq_true_eq] at inserts
              exact planSuffix_outcome rendered inserts.1.2
            · simp only [planChanged, ordinary.width, Bool.false_and, Bool.false_eq_true, if_false]
              exact planMutation_outcome ordinary rendered found uncut

end outcome

end TuiOutcomes
