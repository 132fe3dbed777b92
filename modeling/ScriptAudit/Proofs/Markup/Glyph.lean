import ScriptAudit.Proofs.Markup.Step
import ScriptAudit.Proofs.Rule.Adjust
import ScriptAudit.Proofs.Rule.Stock

/-!
# Marker glyphs

A line of the expected UI state is marked by the glyph it starts with once it is trimmed and its
list mark is gone. Present glyphs are tried first. A configuration may not hold blank glyphs, but it
may hold one with a blank at an end, one that a present glyph begins, or one that is written over
two lines; there is a condition for each of them to mark the lines it is put on, whatever follows
it.
-/

namespace ScriptAudit

def Markers.glyphs (ms : Markers) : Marker → List String
  | .present => ms.present
  | .absent => ms.absent

namespace Markup

/-- What the start of a text says: present if a present glyph begins it, else absent if an absent
one does. -/
inductive Marked (ms : Markers) (s : List Char) : Option Marker → Prop
  | present {p : String} : p ∈ ms.present → p.toList <+: s → Marked ms s (some .present)
  | absent {a : String} : (∀ p ∈ ms.present, ¬p.toList <+: s) → a ∈ ms.absent → a.toList <+: s →
      Marked ms s (some .absent)
  | unmarked : (∀ p ∈ ms.present, ¬p.toList <+: s) → (∀ a ∈ ms.absent, ¬a.toList <+: s) →
      Marked ms s none

/-- An item that starts with a glyph, and a text behind it. -/
def glyphLine (g t : List Char) : List Char :=
  '-' :: ' ' :: (g ++ ' ' :: t)

/-- Whatever text follows the glyph, the line is read as the marker says. -/
def Works (ms : Markers) (m : Marker) (g : List Char) : Prop :=
  ∀ t, '\n' ∉ t → ∃ s, Unlisted (glyphLine g t) s ∧ Marked ms s (some m)

/-- Some line on which `g` is put starts with `p`. -/
def Shadows (p g : List Char) : Prop :=
  '\n' ∉ p ∧ (p <+: Text.trimStart g ++ [' '] ∨ Text.trimStart g ++ [' '] <+: p)

/-! ## The marker of a line -/

theorem afterGlyph?_isSome_iff {glyphs : List String} {s : List Char} :
    (afterGlyph? glyphs s).isSome = true ↔ ∃ g ∈ glyphs, g.toList <+: s := by
  simp only [afterGlyph?, List.findSome?_isSome_iff, Text.after?_isSome_iff]

theorem afterGlyph?_eq_none_iff {glyphs : List String} {s : List Char} :
    afterGlyph? glyphs s = none ↔ ∀ g ∈ glyphs, ¬g.toList <+: s := by
  rw [← Option.not_isSome_iff_eq_none, afterGlyph?_isSome_iff]
  simp

theorem marked_iff {ms : Markers} {s : List Char} {m : Option Marker} :
    Marked ms s m ↔ m = (readMarker ms s).1 := by
  constructor
  · rintro (⟨hp, start⟩ | ⟨free, ha, start⟩ | ⟨free, free'⟩)
    · obtain ⟨rest, found⟩ :=
        Option.isSome_iff_exists.1 (afterGlyph?_isSome_iff.2 ⟨_, hp, start⟩)
      rw [readMarker, found]
    · obtain ⟨rest, found⟩ :=
        Option.isSome_iff_exists.1 (afterGlyph?_isSome_iff.2 ⟨_, ha, start⟩)
      rw [readMarker, afterGlyph?_eq_none_iff.2 free, found]
    · rw [readMarker, afterGlyph?_eq_none_iff.2 free, afterGlyph?_eq_none_iff.2 free']
  · rintro rfl
    rw [readMarker]
    cases present : afterGlyph? ms.present s with
    | some rest =>
      obtain ⟨p, hp, start⟩ := afterGlyph?_isSome_iff.1 (Option.isSome_of_eq_some present)
      exact .present hp start
    | none =>
      have free := afterGlyph?_eq_none_iff.1 present
      cases absent : afterGlyph? ms.absent s with
      | some rest =>
        obtain ⟨a, ha, start⟩ := afterGlyph?_isSome_iff.1 (Option.isSome_of_eq_some absent)
        exact .absent free ha start
      | none => exact .unmarked free (afterGlyph?_eq_none_iff.1 absent)

/-! ## Lines that a glyph is put on -/

section

variable {g : List Char} (written : Text.allBlank g = false)
include written

theorem unlisted_glyphLine (t : List Char) :
    Unlisted (glyphLine g t) (Text.trim (g ++ ' ' :: t)) := by
  have behind : Text.allBlank (g ++ ' ' :: t) = false := by
    rw [Text.allBlank_append, written, Bool.false_and]
  have whole : Text.trim (glyphLine g t) = ['-'] ++ ' ' :: Text.trimEnd (g ++ ' ' :: t) := by
    rw [glyphLine, Text.trim_cons (by decide), ← List.singleton_append (x := ' '),
      Text.trimEnd_append_of_written behind]
    rfl
  have own := Unlisted.listed (.bullet (.inl rfl)) (by decide) whole
  rwa [Text.trim_trimEnd] at own

theorem works_iff {ms : Markers} {m : Marker} : Works ms m g ↔
    ∀ t, '\n' ∉ t → Marked ms (Text.trim (g ++ ' ' :: t)) (some m) := by
  refine forall₂_congr fun t _ => ⟨?_, fun marked => ⟨_, unlisted_glyphLine written t, marked⟩⟩
  rintro ⟨s, own, marked⟩
  rwa [unlisted_iff.1 (unlisted_glyphLine written t), ← unlisted_iff.1 own]

/-- A line that `g` is put on starts with `p` for some text behind it. -/
theorem exists_prefix_iff (single : '\n' ∉ g) {p : List Char} :
    (∃ t, '\n' ∉ t ∧ p <+: Text.trim (g ++ ' ' :: t)) ↔ Shadows p g := by
  have starts (t : List Char) : Text.trimStart (g ++ ' ' :: t) =
      Text.trimStart g ++ [' '] ++ t := by
    rw [Text.trimStart_append_of_written written, List.append_assoc]
    rfl
  constructor
  · rintro ⟨t, free, start⟩
    have upto := start.trans (Text.dropEndWhile_front Text.isBlank (Text.trimStart _))
    rw [starts] at upto
    refine ⟨fun hp => ?_, List.prefix_or_prefix_of_prefix upto (List.prefix_append _ _)⟩
    have own : Text.trimStart g ⊆ g := (List.dropWhile_suffix _).subset
    rcases List.mem_append.1 (upto.subset hp) with head | tail
    · rcases List.mem_append.1 head with inside | space
      · exact single (own inside)
      · cases List.mem_singleton.1 space
    · exact free tail
  · rintro ⟨free, comparable⟩
    -- a text that goes on as `p` does, with something written at its end
    obtain ⟨r, free', start⟩ : ∃ r, '\n' ∉ r ∧ p <+: Text.trimStart g ++ [' '] ++ r := by
      rcases comparable with short | ⟨r, rfl⟩
      · exact ⟨[], by simp, by simpa using short⟩
      · exact ⟨r, fun hr => free (List.mem_append_right _ hr), List.prefix_rfl⟩
    refine ⟨r ++ ['x'], by simpa using free', ?_⟩
    have kept : Text.trim (g ++ ' ' :: (r ++ ['x'])) = Text.trimStart g ++ [' '] ++ r ++ ['x'] := by
      rw [Text.trim_eq_trimEnd_trimStart, starts, ← List.append_assoc]
      exact Text.trimEnd_append_cons (by decide) _ []
    rw [kept]
    exact start.trans (List.prefix_append _ _)

theorem works_present_iff {ms : Markers} :
    Works ms .present g ↔ ∃ p ∈ ms.present, p.toList <+: Text.trim g := by
  rw [works_iff written]
  constructor
  · intro works
    have alone := works [] (by simp)
    rw [Text.trim_append_of_allBlank (by decide)] at alone
    cases alone with
    | present hp start => exact ⟨_, hp, start⟩
  · rintro ⟨p, hp, start⟩ t _
    exact .present hp (start.trans (Text.trim_prefix_trim_append written _))

theorem works_absent_iff (single : '\n' ∉ g) {ms : Markers} :
    Works ms .absent g ↔ (∃ a ∈ ms.absent, a.toList <+: Text.trim g) ∧
      ∀ p ∈ ms.present, ¬Shadows p.toList g := by
  rw [works_iff written]
  constructor
  · intro works
    have alone := works [] (by simp)
    rw [Text.trim_append_of_allBlank (by decide)] at alone
    refine ⟨?_, fun p hp shadows => ?_⟩
    · cases alone with
      | absent _ ha start => exact ⟨_, ha, start⟩
    · obtain ⟨t, free, start⟩ := (exists_prefix_iff written single).2 shadows
      cases works t free with
      | absent unseen _ _ => exact unseen p hp start
  · rintro ⟨⟨a, ha, start⟩, unshadowed⟩ t free
    refine .absent (fun p hp other => unshadowed p hp ?_) ha
      (start.trans (Text.trim_prefix_trim_append written _))
    exact (exists_prefix_iff written single).1 ⟨t, free, other⟩

end

/-- A line of the expected UI state and what is read of it. -/
structure ReadsEntry (ms : Markers) (l : Nat × List Char) (e : UiEntry) : Prop where
  line : e.line = l.1
  marker : ∃ s, Unlisted l.2 s ∧ Marked ms s e.marker

theorem readsEntry_readUiEntry (ms : Markers) (l : Nat × List Char) :
    ReadsEntry ms l (readUiEntry ms l) :=
  ⟨rfl, stripListMarker l.2, unlisted_iff.2 rfl, marked_iff.2 rfl⟩

/-- A working glyph marks the line it is put on. -/
theorem ReadsEntry.marker_eq {ms : Markers} {m : Marker} {g t : List Char} {n : Nat} {e : UiEntry}
    (reads : ReadsEntry ms (n, glyphLine g t) e) (works : Works ms m g) (free : '\n' ∉ t) :
    e.marker = some m := by
  obtain ⟨s, own, marked⟩ := reads.marker
  obtain ⟨s', own', marked'⟩ := works t free
  rw [marked_iff.1 marked, marked_iff.1 marked', unlisted_iff.1 own, unlisted_iff.1 own']

end Markup

open Markup

theorem Config.not_allBlank_of_check {config : Config} (accepted : config.check = .ok config)
    {m : Marker} {g : String} (hg : g ∈ config.markers.glyphs m) :
    Text.allBlank g.toList = false := by
  by_contra blank
  have found : (config.markers.present ++ config.markers.absent).any
      (fun g => Text.allBlank g.toList) = true := by
    refine List.any_eq_true.2 ⟨g, ?_, by simpa using blank⟩
    cases m with
    | present => exact List.mem_append_left _ hg
    | absent => exact List.mem_append_right _ hg
  rw [check, fault?, found] at accepted
  split at accepted
  · cases accepted
  · rename_i none
    split at none
    · cases none
    · cases none

/-- An accepted glyph on one line works if a glyph of its kind begins it once it is trimmed, as it
does itself when it has no blank at its ends, and if no present glyph shadows an absent one. -/
theorem Markers.works_iff_of_check {config : Config} (accepted : config.check = .ok config)
    {m : Marker} {g : String} (hg : g ∈ config.markers.glyphs m) (single : '\n' ∉ g.toList) :
    Works config.markers m g.toList ↔
      (∃ a ∈ config.markers.glyphs m, a.toList <+: Text.trim g.toList) ∧
        (m = .absent → ∀ p ∈ config.markers.present, ¬Shadows p.toList g.toList) := by
  have written := config.not_allBlank_of_check accepted hg
  cases m with
  | present => simpa [glyphs] using works_present_iff written
  | absent => simpa [glyphs] using works_absent_iff written single

namespace Document

/-- The rule on markers reports the line. -/
def ReportsUnmarked (ds : List Diagnostic) (n : Nat) : Prop :=
  ∃ x ∈ ds, x.ruleId = "ui-state-marker" ∧ x.line = some n

theorem reportsUnmarked_iff {config : Config} {d : Document} {ds : List Diagnostic}
    (result : RuleSet.stock.evaluate config d = some ds) {c : TestCase} (only : d.cases = [c])
    {n : Nat} : ReportsUnmarked ds n ↔ ∃ e ∈ c.expectedUiState, e.line = n ∧ e.marker = none := by
  have stocked : RuleSet.stock.rules.find? (·.id = "ui-state-marker") = some
      (Rule.total "ui-state-marker" .error
        "every Expected UI State line starts with a present/absent marker" Rule.uiStateMarker) := rfl
  have own {x : Diagnostic} :=
    RuleSet.mem_stock_iff result (List.mem_of_find?_eq_some stocked) rfl (x := x)
  constructor
  · rintro ⟨x, hx, id, line⟩
    obtain ⟨f, hf, rfl⟩ := own.1 ⟨hx, id⟩
    obtain ⟨e, he, found⟩ := List.mem_filterMap.1 hf
    rw [only, List.flatMap_singleton] at he
    split at found
    · cases found
    · rename_i unmarked
      cases found
      exact ⟨e, he, Option.some.inj line, by simpa using unmarked⟩
  · rintro ⟨e, he, rfl, unmarked⟩
    have found : e ∈ d.cases.flatMap (·.expectedUiState) := by
      rwa [only, List.flatMap_singleton]
    obtain ⟨hx, id⟩ := own.2 ⟨_, List.mem_filterMap.2 ⟨e, found, by rw [unmarked]; rfl⟩, rfl⟩
    exact ⟨_, hx, id, rfl⟩

/-- The expected UI state is read line by line. -/
theorem exists_uiEntries_of_read {path : Path} {feature : String} {markers : Markers}
    {source : String} {d : Document} (result : read path feature markers source = .ok d) :
    ∃ c, d.cases = [c] ∧ c.expectedUiState =
      (writtenLines (bodyLines source) .expectedUiState).map (readUiEntry markers) := by
  obtain ⟨mode, o, _, outlined, _, rfl⟩ := read_eq_ok_iff.1 result
  rw [scan_textLines] at outlined
  obtain ⟨start, rest, splits⟩ := Outline.splits_of_ofLines? outlined
  rw [← splits.written_eq .expectedUiState]
  exact ⟨_, rfl, rfl⟩

/-- Each written line of the expected UI state is one entry, in order, and is reported if no glyph
marks it. Under a configuration that is accepted, the glyphs that mark every line they are put on
are known; such a line is one entry with their marker, which is not reported. -/
theorem markers_of_read {config : Config} (accepted : config.check = .ok config) {path : Path}
    {feature source : String} {d : Document}
    (result : read path feature config.markers source = .ok d) :
    ∃ c ds, d.cases = [c] ∧ RuleSet.stock.evaluate config d = some ds ∧
      List.Forall₂ (ReadsEntry config.markers)
        (writtenLines (bodyLines source) .expectedUiState) c.expectedUiState ∧
      (∀ n, ReportsUnmarked ds n ↔ ∃ e ∈ c.expectedUiState, e.line = n ∧ e.marker = none) ∧
      ∀ m, ∀ g ∈ config.markers.glyphs m, '\n' ∉ g.toList →
        (Works config.markers m g.toList ↔
          (∃ a ∈ config.markers.glyphs m, a.toList <+: Text.trim g.toList) ∧
            (m = .absent → ∀ p ∈ config.markers.present, ¬Shadows p.toList g.toList)) ∧
        (Works config.markers m g.toList → ∀ n t, '\n' ∉ t →
          (n, glyphLine g.toList t) ∈ writtenLines (bodyLines source) .expectedUiState →
          ∃ e, c.expectedUiState.filter (·.line = n) = [e] ∧ e.marker = some m ∧
            ¬ReportsUnmarked ds n) := by
  obtain ⟨c, only, entries⟩ := exists_uiEntries_of_read result
  obtain ⟨ds, evaluated, _⟩ := RuleSet.exists_evaluate_stock config d
  have reported {n : Nat} := reportsUnmarked_iff evaluated only (n := n)
  refine ⟨c, ds, only, evaluated, ?_, fun _ => reported, fun m g hg single =>
    ⟨Markers.works_iff_of_check accepted hg single, fun works n t free hl => ?_⟩⟩
  · rw [entries, List.forall₂_map_right_iff, List.forall₂_same]
    exact fun l _ => readsEntry_readUiEntry _ l
  · have ascending : c.expectedUiState.Pairwise (·.line < ·.line) := by
      rw [entries]
      exact List.pairwise_map.2 ((Text.pairwise_numbered _).filter _)
    have he : readUiEntry config.markers (n, glyphLine g.toList t) ∈ c.expectedUiState :=
      entries ▸ List.mem_map_of_mem hl
    have marked := (readsEntry_readUiEntry config.markers (n, glyphLine g.toList t)).marker_eq
      works free
    refine ⟨_, filter_key_eq_singleton ascending he, marked, fun report => ?_⟩
    obtain ⟨e, he', line, unmarked⟩ := reported.1 report
    rw [eq_of_key_eq ascending he' he line, marked] at unmarked
    cases unmarked

/-- A document with one line of expected UI state. -/
def expecting (line : String) : String :=
  "# Test Case: A\n# Prerequisites\n# Test Steps\n# Expected UI State\n" ++ line ++
    "\n# Expected Result"

theorem markers_of_read_expecting :
    ∃ d, read ⟨"a.mock.md"⟩ "a" {} (expecting "- ❌ **Card**: Hidden") = .ok d ∧
      ∃ c ds, d.cases = [c] ∧ RuleSet.stock.evaluate {} d = some ds ∧
        Works {} .absent ['❌'] ∧
        ∃ e, c.expectedUiState.filter (·.line = 5) = [e] ∧ e.marker = some .absent ∧
          ¬ReportsUnmarked ds 5 := by
  obtain ⟨d, result⟩ := exists_of_isOk
    (r := read ⟨"a.mock.md"⟩ "a" {} (expecting "- ❌ **Card**: Hidden")) (by decide +kernel)
  have accepted : ({} : Config).check = .ok {} := by decide +kernel
  obtain ⟨c, ds, only, evaluated, _, _, glyphs⟩ := markers_of_read accepted result
  obtain ⟨known, found⟩ := glyphs .absent "❌" (by decide +kernel) (by decide +kernel)
  have works : Works {} .absent ['❌'] := by
    refine known.2 ⟨⟨"❌", by decide +kernel, by decide +kernel⟩, fun _ p hp shadows => ?_⟩
    rw [List.mem_singleton.1 hp] at shadows
    exact absurd shadows.2 (by decide +kernel)
  exact ⟨d, result, c, ds, only, evaluated, works,
    found works 5 "**Card**: Hidden".toList (by decide +kernel) (by decide +kernel)⟩

/-- A glyph with a blank in front of it. -/
def indented : Config :=
  { markers := { present := [" ✅"] } }

/-- It is accepted, but the line that it is put on is not marked. -/
theorem marker_unread :
    indented.check = .ok indented ∧ " ✅" ∈ indented.markers.glyphs .present ∧
      ∃ d c ds, read ⟨"a.mock.md"⟩ "a" indented.markers (expecting "-  ✅ **Card**: Shown") = .ok d ∧
        d.cases = [c] ∧ RuleSet.stock.evaluate indented d = some ds ∧
        (5, glyphLine " ✅".toList "**Card**: Shown".toList) ∈
          writtenLines (bodyLines (expecting "-  ✅ **Card**: Shown")) .expectedUiState ∧
        c.expectedUiState.map (fun e => (e.line, e.marker)) = [(5, none)] ∧
        ReportsUnmarked ds 5 := by
  obtain ⟨d, result⟩ := exists_of_isOk
    (r := read ⟨"a.mock.md"⟩ "a" indented.markers (expecting "-  ✅ **Card**: Shown"))
    (by decide +kernel)
  have lines : writtenLines (bodyLines (expecting "-  ✅ **Card**: Shown")) .expectedUiState =
      [(5, glyphLine " ✅".toList "**Card**: Shown".toList)] := by
    decide +kernel
  obtain ⟨c, only, entries⟩ := exists_uiEntries_of_read result
  obtain ⟨ds, evaluated, _⟩ := RuleSet.exists_evaluate_stock indented d
  have unmarked : c.expectedUiState.map (fun e => (e.line, e.marker)) = [(5, none)] := by
    rw [entries, lines]
    decide +kernel
  have found : (5, none) ∈ c.expectedUiState.map fun e => (e.line, e.marker) :=
    unmarked ▸ List.mem_singleton_self _
  obtain ⟨e, he, own⟩ := List.mem_map.1 found
  obtain ⟨line, marker⟩ := Prod.mk.inj own
  exact ⟨by decide, by decide, d, c, ds, result, only, evaluated,
    lines ▸ List.mem_singleton_self _, unmarked,
    (reportsUnmarked_iff evaluated only).2 ⟨e, he, line, marker⟩⟩

end Document

end ScriptAudit
