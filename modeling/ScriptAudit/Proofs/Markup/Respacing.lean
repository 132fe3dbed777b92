import ScriptAudit.Proofs.Markup.Renumber
import ScriptAudit.Proofs.Text.Edit

/-!
# Layout does not matter

Spaces and tabs around the lines of a text, carriage returns at their ends and a byte order mark in
front change nothing but the source that a document keeps. Only around the lines of a setup script
blanks count.
-/

namespace ScriptAudit

open Markup

/-- A way to lay out a text anew. -/
structure Respacing where
  /-- What is put before and behind the line of each number. -/
  pad : Nat → List Char × List Char
  /-- Whether lines end in a carriage return and a line feed. -/
  returns : Bool
  /-- Whether a byte order mark stands in front. -/
  mark : Bool

namespace Respacing

def apply (r : Respacing) (source : String) : String :=
  let padded := Text.padLines r.pad source.toList
  let ended := if r.returns then Text.withReturns padded else padded
  String.ofList (if r.mark then '\uFEFF' :: ended else ended)

/-- Only lines of the text are padded, with spaces and tabs, and none of a setup script is. -/
structure Fits (r : Respacing) (source : String) : Prop where
  blank : ∀ n, ∀ c ∈ (r.pad n).1 ++ (r.pad n).2, c = ' ' ∨ c = '\t'
  inside : ∀ n, (bodyLines source).length < n → r.pad n = ([], [])
  script : ∀ n, ContentAt (bodyLines source) .setupScripts n → r.pad n = ([], [])

theorem lines_ended {s : List Char} (free : '\r' ∉ s) (returns : Bool) :
    Text.lines (if returns then Text.withReturns s else s) = Text.lines s := by
  cases returns with
  | true => exact Text.lines_withReturns free
  | false => rfl

variable {r : Respacing} {source : String} (fits : r.Fits source)
include fits

theorem Fits.not_mem {c : Char} (space : c ≠ ' ') (tab : c ≠ '\t') (n : Nat) :
    c ∉ (r.pad n).1 ∧ c ∉ (r.pad n).2 := by
  have free : c ∉ (r.pad n).1 ++ (r.pad n).2 := fun hc =>
    (fits.blank n c hc).elim space tab
  exact not_or.1 fun either => free (List.mem_append.2 either)

theorem Fits.allBlank (n : Nat) :
    Text.allBlank (r.pad n).1 = true ∧ Text.allBlank (r.pad n).2 = true := by
  have all : Text.allBlank ((r.pad n).1 ++ (r.pad n).2) = true :=
    List.all_eq_true.2 fun c hc => by
      rcases fits.blank n c hc with rfl | rfl <;> decide
  rwa [Text.allBlank_append, Bool.and_eq_true] at all

variable (unmarked : source.toList.head? ≠ some '\uFEFF') (free : '\r' ∉ source.toList)
include unmarked free

theorem Fits.bodyLines_apply : bodyLines (r.apply source) =
    (bodyLines source).mapIdx fun i l => (r.pad (i + 1)).1 ++ l ++ (r.pad (i + 1)).2 := by
  have feed := fits.not_mem (c := '\n') (by decide) (by decide)
  have carriage := fits.not_mem (c := '\r') (by decide) (by decide)
  have mark := fits.not_mem (c := '\uFEFF') (by decide) (by decide)
  have inside := fits.inside
  rw [bodyLines_of_unmarked unmarked] at inside ⊢
  rw [← Text.lines_padLines feed carriage free inside,
    ← lines_ended (Text.not_mem_padLines (by decide) carriage free) r.returns]
  cases marked : r.mark with
  | true => rw [apply, marked, if_pos rfl, bodyLines_marked]
  | false =>
    rw [apply, marked, if_neg (by decide), bodyLines_of_unmarked, String.toList_ofList]
    rw [String.toList_ofList]
    have first := Text.head?_padLines_ne (by decide) mark unmarked
    split
    · exact Text.head?_withReturns_ne (by decide) first
    · exact first

theorem Fits.map_trim_apply :
    (bodyLines (r.apply source)).map Text.trim = (bodyLines source).map Text.trim := by
  rw [fits.bodyLines_apply unmarked free]
  apply List.ext_getElem?
  intro i
  rw [List.getElem?_map, List.getElem?_mapIdx, List.getElem?_map, Option.map_map]
  refine congrArg (Option.map · _) (funext fun l => ?_)
  exact Text.trim_between (fits.allBlank (i + 1)).1 (fits.allBlank (i + 1)).2 l

theorem Fits.scriptText_apply :
    scriptText (bodyLines (r.apply source)) = scriptText (bodyLines source) := by
  have alike := alike_of_map_trim (fits.map_trim_apply unmarked free)
  have content (n : Nat) : ContentAt (bodyLines (r.apply source)) .setupScripts n ↔
      ContentAt (bodyLines source) .setupScripts n :=
    alike.contentAt_iff strictMono_id (by rw [fits.bodyLines_apply unmarked free]; simp)
  simp only [scriptText, scriptLines, content]
  rw [filter_numbered_congr fun i held => ?_]
  rw [fits.bodyLines_apply unmarked free, List.getElem?_mapIdx, fits.script (i + 1) held]
  simp

end Respacing

/-- A text that is laid out anew is read as before, as the same document or with the same faults. -/
theorem Document.read_apply_respacing (path : Path) (feature : String) (markers : Markers)
    {source : String} (unmarked : source.toList.head? ≠ some '\uFEFF')
    (free : '\r' ∉ source.toList) {r : Respacing} (fits : r.Fits source) :
    read path feature markers (r.apply source) =
      (read path feature markers source).map fun d => { d with source := r.apply source } := by
  have alike := alike_of_map_trim (fits.map_trim_apply unmarked free)
  exact (read_of_alike strictMono_id path feature markers alike fun _ _ =>
    fits.scriptText_apply unmarked free).eq_map

/-- A document with a setup script. -/
def Document.scripted : String :=
  "# Test Case: A\n# Prerequisites\n# Setup Scripts\nb\n# Test Steps\n# Expected UI State\n" ++
    "# Expected Result"

/-- Blanks around the second line. -/
def Respacing.wide : Respacing where
  pad n := if n = 2 then ([' '], ['\t', ' ']) else ([], [])
  returns := true
  mark := true

theorem Respacing.fits_wide : wide.Fits Document.scripted where
  blank n c hc := by
    by_cases second : n = 2
    · subst second
      have held : c = ' ' ∨ c = '\t' ∨ c = ' ' := by simpa [wide] using hc
      exact held.elim .inl fun rest => rest.symm
    · simp [wide, second] at hc
  inside n beyond := by
    have length : (bodyLines Document.scripted).length = 7 := by decide +kernel
    exact if_neg (by omega)
  script n held := by
    by_cases second : n = 2
    · subst second
      exact absurd held (by decide +kernel)
    · exact if_neg second

theorem Document.read_apply_wide :
    scripted.toList.head? ≠ some '\uFEFF' ∧ '\r' ∉ scripted.toList ∧
    Respacing.wide.Fits scripted ∧
    read ⟨"a.mock.md"⟩ "a" {} (Respacing.wide.apply scripted) =
      (read ⟨"a.mock.md"⟩ "a" {} scripted).map fun d =>
        { d with source := Respacing.wide.apply scripted } := by
  have unmarked : scripted.toList.head? ≠ some '\uFEFF' := by decide +kernel
  have free : '\r' ∉ scripted.toList := by decide +kernel
  exact ⟨unmarked, free, Respacing.fits_wide,
    read_apply_respacing ⟨"a.mock.md"⟩ "a" {} unmarked free Respacing.fits_wide⟩

end ScriptAudit
