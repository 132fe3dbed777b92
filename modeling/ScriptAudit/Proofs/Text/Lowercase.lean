import ScriptAudit.Proofs.Text.Words
import ScriptAudit.Text.Lowercase

/-!
# Lower case

Lower case leaves blanks, dots and exclamation marks alone and makes none. What it makes has itself
as lower case, the final sigma included, so that a text in lower case stays as it is. As a blank
ends a word, the two sides of a blank are mapped apart from each other.
-/

namespace ScriptAudit.Text

/-! ## The tables -/

/-- Code points of the blanks, as closed ranges. -/
def blankRanges : List (Nat × Nat) :=
  [(9, 13), (0x20, 0x20), (0x85, 0x85), (0xA0, 0xA0), (0x1680, 0x1680), (0x2000, 0x200A),
    (0x2028, 0x2029), (0x202F, 0x202F), (0x205F, 0x205F), (0x3000, 0x3000)]

/-- Code points of the exclamation mark and the dot. -/
def stopRanges : List (Nat × Nat) :=
  [(33, 33), (46, 46)]

/-- Code points without case: of blanks and stops. -/
def bareRanges : List (Nat × Nat) :=
  blankRanges ++ stopRanges

def InRange (r : Nat × Nat) (n : Nat) : Prop :=
  r.1 ≤ n ∧ n ≤ r.2

/-- The ranges have no code point in common. -/
def Apart (a b : Nat × Nat) : Prop :=
  a.2 < b.1 ∨ b.2 < a.1

/-- The run maps the code point. -/
def InRun (run : Nat × Nat × Nat × Nat) (n : Nat) : Prop :=
  run.1 ≤ n ∧ n ≤ run.2.1 ∧ (n - run.1) % run.2.2.1 = 0

/-- What the run makes of the code point. -/
def imageOf (run : Nat × Nat × Nat × Nat) (n : Nat) : Nat :=
  run.2.2.2 + (n - run.1)

/-- From the first image of the run to the last. -/
def imageRange (run : Nat × Nat × Nat × Nat) : Nat × Nat :=
  (run.2.2.2, imageOf run run.2.1)

/-- No image of the one run is mapped by the other: they lie apart, or they interlock. -/
def Spares (a b : Nat × Nat × Nat × Nat) : Prop :=
  Apart (imageRange a) (b.1, b.2.1) ∨
    (a.1 = a.2.1 ∨ a.2.2.1 = 2) ∧ b.2.2.1 = 2 ∧ (a.2.2.2 + b.1) % 2 = 1

instance (r : Nat × Nat) (n : Nat) : Decidable (InRange r n) :=
  inferInstanceAs (Decidable (_ ∧ _))

instance (a b : Nat × Nat) : Decidable (Apart a b) :=
  inferInstanceAs (Decidable (_ ∨ _))

/-- What is found of the tables, and of a few characters, by evaluation: one for all, since each is
long. -/
theorem tables :
    (∀ a ∈ casedRanges, ∀ b ∈ bareRanges, Apart a b) ∧
    (∀ a ∈ caseIgnorableRanges, ∀ b ∈ blankRanges, Apart a b) ∧
    (∀ run ∈ lowercaseRuns, (∀ b ∈ bareRanges, Apart (run.1, run.2.1) b) ∧
      (∀ b ∈ (65, 90) :: (0x130, 0x130) :: bareRanges, Apart (imageRange run) b) ∧
      Apart (imageRange run) (0xD800, 0xDFFF) ∧ (imageRange run).2 < 0x110000) ∧
    (lowercaseRuns.all fun (first, last, step, image) => lowercaseRuns.all fun b =>
      (image + (last - first)).blt b.1 || b.2.1.blt image ||
        ((first.beq last || step.beq 2) && b.2.2.1.beq 2 && ((image + b.1) % 2).beq 1)) = true ∧
    (∀ n < 128, (Char.ofNat n).toLower.toNat < 128 ∧
      (Char.ofNat n).toLower.toLower = (Char.ofNat n).toLower ∧
      (Apart (n, n) (65, 90) → (Char.ofNat n).toLower = Char.ofNat n) ∧
      ∀ b ∈ bareRanges, (InRange b (Char.ofNat n).toLower.toNat ↔ InRange b n)) ∧
    lowerChar 'Σ' = ['σ'] ∧ lowerChar 'ς' = ['ς'] ∧ lowerChar '\u0307' = ['\u0307'] := by
  decide +kernel

theorem casedRanges_apart : ∀ a ∈ casedRanges, ∀ b ∈ bareRanges, Apart a b :=
  tables.1

theorem caseIgnorableRanges_apart : ∀ a ∈ caseIgnorableRanges, ∀ b ∈ blankRanges, Apart a b :=
  tables.2.1

theorem bareRanges_apart : ∀ b ∈ bareRanges, Apart b (65, 90) := by
  decide

section

variable {run : Nat × Nat × Nat × Nat} (mem : run ∈ lowercaseRuns)
include mem

theorem sources_apart : ∀ b ∈ bareRanges, Apart (run.1, run.2.1) b :=
  (tables.2.2.1 run mem).1

/-- No image is a capital letter of ASCII or the dotted capital I. -/
theorem images_apart : ∀ b ∈ (65, 90) :: (0x130, 0x130) :: bareRanges, Apart (imageRange run) b :=
  (tables.2.2.1 run mem).2.1

theorem images_valid :
    Apart (imageRange run) (0xD800, 0xDFFF) ∧ (imageRange run).2 < 0x110000 :=
  (tables.2.2.1 run mem).2.2

theorem images_spared {other : Nat × Nat × Nat × Nat} (mem' : other ∈ lowercaseRuns) :
    Spares run other := by
  have table := List.all_eq_true.1 (List.all_eq_true.1 tables.2.2.2.1 run mem) other mem'
  simpa [Spares, Apart, imageRange, imageOf, or_assoc, and_assoc] using table

end

theorem isBlank_iff {c : Char} : isBlank c = true ↔ ∃ r ∈ blankRanges, InRange r c.toNat := by
  simp [isBlank, blankRanges, InRange]
  omega

/-- A property given by ranges fails in a range that lies apart from them. -/
theorem any_eq_false_of_apart {rs : List (Nat × Nat)} {b : Nat × Nat} {n : Nat}
    (apart : ∀ a ∈ rs, Apart a b) (h : InRange b n) :
    (rs.any fun (lo, hi) => lo ≤ n && n ≤ hi) = false := by
  refine List.any_eq_false.2 fun a ha => ?_
  have away := apart a ha
  simp only [Apart, InRange] at away h
  simp
  omega

theorem isCased_of_inRange {b : Nat × Nat} (bare : b ∈ bareRanges) {c : Char}
    (h : InRange b c.toNat) : isCased c = false :=
  any_eq_false_of_apart (fun a ha => casedRanges_apart a ha b bare) h

theorem isCaseIgnorable_of_isBlank {c : Char} (blank : isBlank c = true) :
    isCaseIgnorable c = false := by
  obtain ⟨b, hb, inside⟩ := isBlank_iff.1 blank
  exact any_eq_false_of_apart (fun a ha => caseIgnorableRanges_apart a ha b hb) inside

/-! ## Single characters -/

section

variable {c : Char} (ascii : c.toNat < 128)
include ascii

theorem ascii_toLower : c.toLower.toNat < 128 ∧ c.toLower.toLower = c.toLower ∧
    ∀ b ∈ bareRanges, (InRange b c.toLower.toNat ↔ InRange b c.toNat) := by
  obtain ⟨small, settled, _, bare⟩ := tables.2.2.2.2.1 c.toNat ascii
  rw [Char.ofNat_toNat] at small settled bare
  exact ⟨small, settled, bare⟩

theorem toLower_eq_self (other : Apart (c.toNat, c.toNat) (65, 90)) : c.toLower = c := by
  have kept := (tables.2.2.2.2.1 c.toNat ascii).2.2.1 other
  rwa [Char.ofNat_toNat] at kept

end

theorem lowerChar_sigma : lowerChar 'Σ' = ['σ'] :=
  tables.2.2.2.2.2.1

theorem lowerChar_finalSigma : lowerChar 'ς' = ['ς'] :=
  tables.2.2.2.2.2.2.1

theorem lowerChar_dot : lowerChar '\u0307' = ['\u0307'] :=
  tables.2.2.2.2.2.2.2

theorem lowerChar_cases (c : Char) :
    (c.toNat < 128 ∧ lowerChar c = [c.toLower]) ∨
    (c = '\u0130' ∧ lowerChar c = ['i', '\u0307']) ∨
    (∃ run ∈ lowercaseRuns, InRun run c.toNat ∧
      lowerChar c = [Char.ofNat (imageOf run c.toNat)]) ∨
    lowerChar c = [c] := by
  by_cases ascii : c.toNat < 128
  · exact Or.inl ⟨ascii, by rw [lowerChar, if_pos ascii]⟩
  by_cases dotted : c = '\u0130'
  · exact Or.inr (Or.inl ⟨dotted, by rw [lowerChar, if_neg ascii, if_pos dotted]⟩)
  rw [lowerChar, if_neg ascii, if_neg dotted]
  split
  · rename_i first last step image found
    have mem := List.mem_of_find?_eq_some found
    have held := List.find?_some found
    refine Or.inr (Or.inr (Or.inl ⟨_, mem, ?_, rfl⟩))
    simpa [InRun, and_assoc] using held
  · exact Or.inr (Or.inr (Or.inr rfl))

theorem lowerChar_eq_self {c : Char} (wide : 128 ≤ c.toNat) (undotted : c.toNat ≠ 0x130)
    (unmapped : ∀ run ∈ lowercaseRuns, ¬InRun run c.toNat) : lowerChar c = [c] := by
  have other : c ≠ '\u0130' := by
    rintro rfl
    exact undotted rfl
  have none : (lowercaseRuns.find? fun (first, last, step, _) =>
      first ≤ c.toNat && c.toNat ≤ last && (c.toNat - first) % step = 0) = none := by
    refine List.find?_eq_none.2 fun run mem held => unmapped run mem ?_
    simpa [InRun, and_assoc] using held
  rw [lowerChar, if_neg (by omega), if_neg other, none]

/-- The image of a code point lies among the images of its run. -/
theorem inRange_image {run : Nat × Nat × Nat × Nat} (mem : run ∈ lowercaseRuns) {n : Nat}
    (h : InRun run n) : InRange (imageRange run) (Char.ofNat (imageOf run n)).toNat ∧
      (Char.ofNat (imageOf run n)).toNat = imageOf run n := by
  obtain ⟨lower, upper, _⟩ := h
  obtain ⟨surrogates, last⟩ := images_valid mem
  simp only [Apart, imageRange, imageOf] at surrogates last
  have valid : (imageOf run n).isValidChar := by
    simp only [imageOf, Nat.isValidChar]
    omega
  have code : (Char.ofNat (imageOf run n)).toNat = imageOf run n := by
    rw [Char.ofNat, dif_pos valid]
    rfl
  refine ⟨?_, code⟩
  rw [code]
  constructor <;> simp only [imageRange, imageOf] <;> omega

/-- No image is mapped in turn. -/
theorem lowerChar_image {run : Nat × Nat × Nat × Nat} (mem : run ∈ lowercaseRuns) {n : Nat}
    (h : InRun run n) :
    lowerChar (Char.ofNat (imageOf run n)) = [Char.ofNat (imageOf run n)] := by
  obtain ⟨among, code⟩ := inRange_image mem h
  have capitals := images_apart mem (65, 90) (by simp)
  have dotted := images_apart mem (0x130, 0x130) (by simp)
  generalize hd : Char.ofNat (imageOf run n) = d at among code ⊢
  simp only [InRange, Apart] at among capitals dotted
  simp only [imageOf] at code
  by_cases ascii : d.toNat < 128
  · have settled := toLower_eq_self ascii (by simp only [Apart]; omega)
    rw [lowerChar, if_pos ascii, settled]
  · refine lowerChar_eq_self (by omega) (by omega) fun other mem' inside => ?_
    obtain ⟨lower, upper, stepped⟩ := inside
    obtain ⟨lower', upper', stepped'⟩ := h
    rcases images_spared mem mem' with away | ⟨single | even, even', parity⟩
    · simp only [Apart] at away
      omega
    · rw [even'] at stepped
      omega
    · rw [even'] at stepped
      rw [even] at stepped'
      omega

/-- The character is one of those that stand for `c` in lower case, at some place of a text. -/
def Lowers (c d : Char) : Prop :=
  d ∈ lowerChar c ∨ c = 'Σ' ∧ d = 'ς'

theorem lowerChar_of_inRange {b : Nat × Nat} (bare : b ∈ bareRanges) {c : Char}
    (h : InRange b c.toNat) : lowerChar c = [c] := by
  rcases lowerChar_cases c with ⟨ascii, image⟩ | ⟨rfl, _⟩ | ⟨run, mem, ⟨lower, upper, _⟩, _⟩ | image
  · have capitals := bareRanges_apart b bare
    have settled := toLower_eq_self ascii
    simp only [InRange, Apart] at h capitals settled
    rw [image, settled (by omega)]
  · revert b
    decide
  · have away := sources_apart mem b bare
    simp only [InRange, Apart] at h away
    omega
  · exact image

namespace Lowers

variable {c d : Char}

/-- Characters without case stand for themselves, and no others for them. -/
theorem inRange_iff (h : Lowers c d) {b : Nat × Nat} (bare : b ∈ bareRanges) :
    InRange b d.toNat ↔ InRange b c.toNat := by
  rcases h with h | ⟨rfl, rfl⟩
  · rcases lowerChar_cases c with ⟨ascii, image⟩ | ⟨rfl, image⟩ | ⟨run, mem, inside, image⟩ | image
      <;> rw [image] at h
    · rw [List.mem_singleton.1 h]
      exact (ascii_toLower ascii).2.2 b bare
    · rw [List.mem_cons, List.mem_singleton] at h
      revert b
      rcases h with rfl | rfl <;> decide
    · obtain ⟨among, _⟩ := inRange_image mem inside
      have source := sources_apart mem b bare
      have target := images_apart mem b (by simp [bare])
      rw [List.mem_singleton.1 h]
      simp only [InRange, InRun, Apart] at among source target inside ⊢
      omega
    · rw [List.mem_singleton.1 h]
  · revert b
    decide

/-- What is lower case stays. -/
theorem lowerChar_eq (h : Lowers c d) : lowerChar d = [d] := by
  rcases h with h | ⟨rfl, rfl⟩
  · rcases lowerChar_cases c with ⟨ascii, image⟩ | ⟨rfl, image⟩ | ⟨run, mem, inside, image⟩ | image
      <;> rw [image] at h
    · obtain ⟨small, settled, _⟩ := ascii_toLower ascii
      rw [List.mem_singleton.1 h, lowerChar, if_pos small, settled]
    · rw [List.mem_cons, List.mem_singleton] at h
      rcases h with rfl | rfl
      · rfl
      · exact lowerChar_dot
    · rw [List.mem_singleton.1 h]
      exact lowerChar_image mem inside
    · rw [List.mem_singleton.1 h, image]
  · exact lowerChar_finalSigma

theorem isBlank_eq (h : Lowers c d) : isBlank d = isBlank c := by
  have blank : ∀ b ∈ blankRanges, (InRange b d.toNat ↔ InRange b c.toNat) := fun b hb =>
    h.inRange_iff (List.mem_append_left _ hb)
  rw [Bool.eq_iff_iff, isBlank_iff, isBlank_iff]
  exact exists_congr fun b => and_congr_right (blank b)

end Lowers

/-! ## Texts -/

/-- The first character is mapped by itself, in the light of its neighbours, and the others behind
it. -/
theorem exists_image (before : List Char) (c : Char) (rest : List Char) : ∃ image,
    lowerAfter before (c :: rest) = image ++ lowerAfter (c :: before) rest ∧ image ≠ [] ∧
      ∀ d ∈ image, Lowers c d := by
  refine ⟨_, rfl, ?_⟩
  split
  · rename_i sigma
    refine ⟨by simp, fun d hd => ?_⟩
    rw [List.mem_singleton.1 hd, sigma]
    split
    · exact Or.inr ⟨rfl, rfl⟩
    · exact Or.inl (by simp [lowerChar_sigma])
  · refine ⟨?_, fun d hd => Or.inl hd⟩
    rcases lowerChar_cases c with ⟨_, image⟩ | ⟨_, image⟩ | ⟨run, _, _, image⟩ | image <;>
      simp [image]

theorem of_mem_lowerAfter {before s : List Char} {d : Char} (h : d ∈ lowerAfter before s) :
    ∃ c ∈ s, Lowers c d := by
  induction s generalizing before with
  | nil => cases h
  | cons c rest ih =>
    obtain ⟨image, shape, _, own⟩ := exists_image before c rest
    rw [shape, List.mem_append] at h
    rcases h with here | later
    · exact ⟨c, List.mem_cons_self, own d here⟩
    · obtain ⟨e, he, stands⟩ := ih later
      exact ⟨e, List.mem_cons_of_mem c he, stands⟩

theorem lowerAfter_ne_nil {before s : List Char} (some : s ≠ []) : lowerAfter before s ≠ [] := by
  obtain ⟨c, rest, rfl⟩ := List.exists_cons_of_ne_nil some
  obtain ⟨image, shape, written, _⟩ := exists_image before c rest
  simp [shape, written]

/-- The last character of the image stands for the last of the text. -/
theorem getLast?_lowerAfter {before s : List Char} {d : Char}
    (h : (lowerAfter before s).getLast? = some d) : ∃ c, s.getLast? = some c ∧ Lowers c d := by
  induction s generalizing before with
  | nil => cases h
  | cons c rest ih =>
    obtain ⟨image, shape, _, own⟩ := exists_image before c rest
    by_cases more : rest = []
    · rw [shape, more, lowerAfter, List.append_nil] at h
      exact ⟨c, by rw [more]; rfl, own d (List.mem_of_getLast? h)⟩
    · rw [shape, List.getLast?_append_of_ne_nil _ (lowerAfter_ne_nil more)] at h
      obtain ⟨e, last, stands⟩ := ih h
      exact ⟨e, by rw [← last, List.getLast?_cons_of_ne_nil more], stands⟩

theorem lowerAfter_cons_of_settled {c : Char} (settled : lowerChar c = [c])
    (before rest : List Char) :
    lowerAfter before (c :: rest) = c :: lowerAfter (c :: before) rest := by
  have small : c ≠ 'Σ' := by
    rintro rfl
    rw [lowerChar_sigma] at settled
    exact absurd settled (by decide)
  rw [lowerAfter, if_neg small, settled]
  rfl

theorem lowerAfter_eq_self {before s : List Char} (settled : ∀ c ∈ s, lowerChar c = [c]) :
    lowerAfter before s = s := by
  induction s generalizing before with
  | nil => rfl
  | cons c rest ih =>
    obtain ⟨own, others⟩ := List.forall_mem_cons.1 settled
    rw [lowerAfter_cons_of_settled own, ih others]

theorem lower_lower (s : List Char) : lower (lower s) = lower s :=
  lowerAfter_eq_self fun _ h => by
    obtain ⟨_, _, stands⟩ := of_mem_lowerAfter h
    exact stands.lowerChar_eq

/-! ## Texts put together -/

theorem startsCased_cons (c : Char) (s : List Char) :
    startsCased (c :: s) = if isCaseIgnorable c then startsCased s else isCased c := by
  by_cases ignored : isCaseIgnorable c = true
  · rw [startsCased, List.dropWhile_cons_of_pos ignored, if_pos ignored, startsCased]
  · rw [startsCased, List.dropWhile_cons_of_neg ignored, if_neg ignored]

/-- Behind a text, another one that begins with no cased letter changes nothing. -/
theorem startsCased_append {t : List Char} (h : startsCased t = false) (s : List Char) :
    startsCased (s ++ t) = startsCased s := by
  induction s with
  | nil => exact h
  | cons c s ih => rw [List.cons_append, startsCased_cons, startsCased_cons, ih]

theorem startsCased_eq_false {s : List Char} (h : ∀ c ∈ s, isCased c = false) :
    startsCased s = false := by
  induction s with
  | nil => rfl
  | cons c s ih =>
    obtain ⟨own, others⟩ := List.forall_mem_cons.1 h
    rw [startsCased_cons, ih others, own, ite_self]

theorem lowerAfter_congr {before before' : List Char}
    (same : startsCased before = startsCased before') (s : List Char) :
    lowerAfter before s = lowerAfter before' s := by
  induction s generalizing before before' with
  | nil => rfl
  | cons c s ih =>
    have same' : startsCased (c :: before) = startsCased (c :: before') := by
      rw [startsCased_cons, startsCased_cons, same]
    rw [lowerAfter, lowerAfter, same, ih same']

theorem lowerAfter_append {t : List Char} (h : startsCased t = false) (before s : List Char) :
    lowerAfter before (s ++ t) = lowerAfter before s ++ lowerAfter (s.reverse ++ before) t := by
  induction s generalizing before with
  | nil => rfl
  | cons c s ih =>
    rw [List.cons_append, lowerAfter, lowerAfter, startsCased_append h, ih]
    simp

theorem lower_append_blank {c : Char} (blank : isBlank c = true) (a b : List Char) :
    lower (a ++ c :: b) = lower a ++ c :: lower b := by
  obtain ⟨r, hr, inside⟩ := isBlank_iff.1 blank
  have bare := List.mem_append_left stopRanges hr
  have starts (s : List Char) : startsCased (c :: s) = false := by
    rw [startsCased_cons, isCaseIgnorable_of_isBlank blank, isCased_of_inRange bare inside]
    rfl
  have fresh : startsCased (c :: (a.reverse ++ [])) = startsCased [] := starts _
  rw [lower, lowerAfter_append (starts b),
    lowerAfter_cons_of_settled (lowerChar_of_inRange bare inside), lowerAfter_congr fresh, lower,
    lower]

theorem lower_intercalate (ws : List (List Char)) :
    lower ([' '].intercalate ws) = [' '].intercalate (ws.map lower) := by
  induction ws with
  | nil => rfl
  | cons w ws ih =>
    by_cases more : ws = []
    · simp [more]
    · rw [List.map_cons, List.intercalate_cons_of_ne_nil more,
        List.intercalate_cons_of_ne_nil (by simpa using more), List.append_assoc,
        List.singleton_append, lower_append_blank (by decide), ih]
      simp

/-- The words of a text in lower case. -/
theorem words_lower_intercalate {ws : List (List Char)}
    (h : ∀ w ∈ ws, w ≠ [] ∧ ∀ c ∈ w, isBlank c = false) :
    words (lower ([' '].intercalate ws)) = ws.map lower := by
  rw [lower_intercalate]
  refine words_intercalate (List.forall_mem_map.2 fun w hw => ?_)
  obtain ⟨written, dense⟩ := h w hw
  refine ⟨lowerAfter_ne_nil written, fun d hd => ?_⟩
  obtain ⟨c, hc, stands⟩ := of_mem_lowerAfter hd
  rw [stands.isBlank_eq, dense c hc]

/-- Behind a text, characters without case stay and change nothing. -/
theorem lower_append_of_bare {t : List Char} (bare : ∀ c ∈ t, ∃ b ∈ bareRanges, InRange b c.toNat)
    (s : List Char) : lower (s ++ t) = lower s ++ t := by
  have settled : ∀ c ∈ t, lowerChar c = [c] := fun c hc =>
    let ⟨_, hb, inside⟩ := bare c hc
    lowerChar_of_inRange hb inside
  have uncased : ∀ c ∈ t, isCased c = false := fun c hc =>
    let ⟨_, hb, inside⟩ := bare c hc
    isCased_of_inRange hb inside
  rw [lower, lowerAfter_append (startsCased_eq_false uncased), lowerAfter_eq_self settled, lower]

theorem countP_isBlank_lowerAfter (before s : List Char) :
    (lowerAfter before s).countP isBlank = s.countP isBlank := by
  induction s generalizing before with
  | nil => rfl
  | cons c rest ih =>
    by_cases blank : isBlank c = true
    · obtain ⟨b, hb, inside⟩ := isBlank_iff.1 blank
      have settled := lowerChar_of_inRange (List.mem_append_left stopRanges hb) inside
      rw [lowerAfter_cons_of_settled settled, List.countP_cons, List.countP_cons, ih]
    · obtain ⟨image, shape, _, own⟩ := exists_image before c rest
      have none : image.countP isBlank = 0 :=
        List.countP_eq_zero.2 fun d hd => by rwa [(own d hd).isBlank_eq]
      rw [shape, List.countP_append, none, ih, List.countP_cons_of_neg blank]
      simp

end ScriptAudit.Text
