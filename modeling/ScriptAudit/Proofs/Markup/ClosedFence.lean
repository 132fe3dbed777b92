import ScriptAudit.Proofs.Markup.Renumber

/-!
# Closed fences

The lines inside a closed fence are plain text whatever they look like. Two texts that differ only
inside a fence of the setup scripts are read alike: with the same faults, or as documents that
differ in the text of the script only.
-/

namespace ScriptAudit

/-- The test case with another text in its script. -/
def TestCase.withScript (text : String) (t : TestCase) : TestCase :=
  { t with setupScript := t.setupScript.map fun p => { p with text } }

/-- The document with another text in its scripts, read from another source. -/
def Document.withScript (source text : String) (d : Document) : Document :=
  { d with source, cases := d.cases.map (·.withScript text) }

namespace Markup

/-- What stands around the lines inside a fence that is opened and closed. -/
structure Fence where
  before : List (List Char)
  opening : List Char
  closing : List Char
  after : List (List Char)
  outside : before.countP isFence % 2 = 0
  opens : isFence opening = true
  closes : isFence closing = true

/-- Lines that are no fence lines and open no placeholder. -/
def Quiet (inner : List (List Char)) : Prop :=
  ∀ l ∈ inner, isFence l = false ∧ ¬placeholderOpening <:+: l

/-! ## Marks of a text with a fence -/

namespace Fence

variable (f : Fence) {inner inner' : List (List Char)} {s : Section}

/-- The text with the lines put inside the fence. -/
def around (inner : List (List Char)) : List (List Char) :=
  f.before ++ f.opening :: (inner ++ f.closing :: f.after)

/-- The number of the line that opens the fence. -/
def start : Nat :=
  f.before.length + 1

/-- The lines up to the opening one. -/
def front : List Line :=
  markedFrom 0 0 f.before ++ [⟨f.start, f.opening, none⟩]

def inside (inner : List (List Char)) : List Line :=
  inner.mapIdx fun i s => ⟨f.start + i + 1, s, none⟩

/-- The lines from the closing one on, below `n` lines inside the fence. -/
def back (n : Nat) : List Line :=
  ⟨f.start + n + 1, f.closing, none⟩ ::
    markedFrom (f.start + n + 1) (f.before.countP isFence + 2) f.after

theorem marked_around (quiet : Quiet inner) :
    marked (f.around inner) = f.front ++ f.inside inner ++ f.back inner.length := by
  have even := f.outside
  have odd : (f.before.countP isFence + 1) % 2 = 1 := by omega
  have none : inner.countP isFence = 0 :=
    List.countP_eq_zero.2 fun l hl => by simp [(quiet l hl).1]
  rw [marked_eq_markedFrom, around, markedFrom_append, markedFrom_cons, markedFrom_append,
    markedFrom_of_odd (by simpa [f.opens] using odd) fun l hl => (quiet l hl).1, markedFrom_cons,
    f.opens, f.closes, none]
  simp [front, inside, back, start, Nat.add_assoc]

theorem number_of_mem_front {l : Line} (h : l ∈ f.front) :
    l.number ≤ f.start ∧ (l.number = f.start → l.heading = none) := by
  rcases List.mem_append.1 h with h | h
  · have := (bounds_of_mem_markedFrom h).2.1
    rw [start]
    exact ⟨by omega, fun same => by omega⟩
  · rw [List.mem_singleton.1 h]
    exact ⟨Nat.le_refl _, fun _ => rfl⟩

theorem number_of_mem_inside {l : Line} (h : l ∈ f.inside inner) :
    f.start < l.number ∧ l.number ≤ f.start + inner.length ∧ l.heading = none := by
  obtain ⟨i, hi, rfl⟩ := List.mem_mapIdx.1 h
  exact ⟨by dsimp only; omega, by dsimp only; omega, rfl⟩

theorem number_of_mem_back {n : Nat} {l : Line} (h : l ∈ f.back n) :
    f.start + n + 1 ≤ l.number ∧ (l.number = f.start + n + 1 → l.heading = none) := by
  rcases List.mem_cons.1 h with rfl | h
  · exact ⟨Nat.le_refl _, fun _ => rfl⟩
  · have := (bounds_of_mem_markedFrom h).1
    exact ⟨by omega, fun same => by omega⟩

/-- The fence lies in the section: its opening line belongs to it. -/
def LiesIn (s : Section) : Prop :=
  ∃ t ∈ f.front, t.isTestCase = true ∧ ∃ h ∈ f.front, t.number < h.number ∧
    h.section? = some s ∧ ∀ k ∈ f.front, h.number < k.number → k.section? = none

variable {f}

theorem liesIn_of_contentAt (quiet : Quiet inner)
    (within : ContentAt (f.around inner) s f.start) : f.LiesIn s := by
  rw [ContentAt, f.marked_around quiet] at within
  obtain ⟨_, _, _, _, t, ht, test, h, hh, after, section?, below, nearest⟩ := within
  have early {l : Line} (hl : l ∈ f.front ++ f.inside inner ++ f.back inner.length)
      (upto : l.number ≤ f.start) : l ∈ f.front := by
    rcases List.mem_append.1 hl with hl | hl
    · rcases List.mem_append.1 hl with hl | hl
      · exact hl
      · have := (f.number_of_mem_inside hl).1
        omega
    · have := (f.number_of_mem_back hl).1
      omega
  refine ⟨t, early ht (by omega), test, h, early hh (by omega), after, section?,
    fun k hk above => nearest k ?_ above (f.number_of_mem_front hk).1⟩
  rw [List.append_assoc]
  exact List.mem_append_left _ hk

/-- All lines from the opening to the closing one belong to the section. -/
theorem LiesIn.contentAt (lies : f.LiesIn s) (quiet : Quiet inner) {n : Nat}
    (low : f.start ≤ n) (high : n ≤ f.start + inner.length + 1) :
    ContentAt (f.around inner) s n := by
  obtain ⟨t, ht, test, h, hh, after, section?, nearest⟩ := lies
  have upto := f.number_of_mem_front hh
  have headed : h.number ≠ f.start := by
    intro same
    rw [Line.section?_of_heading_eq_none (upto.2 same)] at section?
    cases section?
  have mem {l : Line} (hl : l ∈ f.front) : l ∈ marked (f.around inner) := by
    rw [f.marked_around quiet, List.append_assoc]
    exact List.mem_append_left _ hl
  have plain {k : Line} (hk : k ∈ marked (f.around inner)) (above : f.start ≤ k.number)
      (below : k.number ≤ n) : k.heading = none := by
    rw [f.marked_around quiet, List.mem_append, List.mem_append] at hk
    rcases hk with (hk | hk) | hk
    · have own := f.number_of_mem_front hk
      exact own.2 (by omega)
    · exact (f.number_of_mem_inside hk).2.2
    · have own := f.number_of_mem_back hk
      exact own.2 (by omega)
  have size : (f.around inner).length = f.start + inner.length + 1 + f.after.length := by
    simp [around, start]
    omega
  obtain ⟨l, hl, rfl⟩ := exists_mem_marked_iff.2
    (show 1 ≤ n ∧ n ≤ (f.around inner).length by rw [size]; rw [start] at *; omega)
  refine ⟨l, hl, rfl, plain hl low (Nat.le_refl _), t, mem ht, test, h, mem hh, after, section?,
    by omega, fun k hk above below => ?_⟩
  by_cases early : f.start ≤ k.number
  · exact Line.section?_of_heading_eq_none (plain hk early below)
  · refine nearest k ?_ above
    rw [f.marked_around quiet, List.append_assoc, List.mem_append, List.mem_append] at hk
    rcases hk with hk | hk | hk
    · exact hk
    · have := (f.number_of_mem_inside hk).1
      omega
    · have := (f.number_of_mem_back hk).1
      omega

end Fence

/-! ## Outlines of a text with a fence -/

namespace Outline

theorem exists_first_testCase {ls : List Line} (headed : ∃ t ∈ ls, t.isTestCase = true) :
    ∃ before start title rest, ls = before ++ start :: rest ∧
      (∀ l ∈ before, l.isTestCase = false) ∧ start.heading = some (.testCase title) := by
  obtain ⟨start, found⟩ := Option.isSome_iff_exists.1 (List.find?_isSome.2 headed)
  obtain ⟨test, before, rest, split, none⟩ := List.find?_eq_some_iff_append.1 found
  obtain ⟨title, heading⟩ := Line.isTestCase_iff.1 test
  exact ⟨before, start, title, rest, split, fun l hl => by simpa using none l hl, heading⟩

theorem ofLines?_append_testCase {before : List Line} {start : Line} {title : List Char}
    (none : ∀ l ∈ before, l.isTestCase = false) (heading : start.heading = some (.testCase title))
    (rest : List Line) :
    ofLines? (before ++ start :: rest) = some
      { before, title, line := start.number
        repeated := (rest.filter (·.isTestCase)).map (·.number)
        lead := (Markup.blocks rest).1, blocks := (Markup.blocks rest).2 } := by
  induction before with
  | nil => exact ofLines?_cons_testCase heading rest
  | cons l before ih =>
    obtain ⟨own, others⟩ := List.forall_mem_cons.1 none
    rw [List.cons_append, ofLines?_cons_other own, ih others]
    rfl

/-- The sections that are opened and their lines, in order. -/
def headings (o : Outline) : List (Section × Nat) :=
  o.blocks.map fun b => (b.ofSection, b.line)

/-- Two outlines that differ in the setup scripts only, and not in how these end. -/
structure Parallel (o o' : Outline) : Prop where
  before : o'.before = o.before
  title : o'.title = o.title
  line : o'.line = o.line
  repeated : o'.repeated = o.repeated
  lead : o'.lead = o.lead
  headings : o'.headings = o.headings
  content : ∀ s, s ≠ .setupScripts → o'.content s = o.content s
  last : (o'.written .setupScripts).getLast? = (o.written .setupScripts).getLast?

theorem headingLine?_eq (o : Outline) (s : Section) :
    o.headingLine? s = (o.headings.find? (·.1 = s)).map (·.2) := by
  rw [headingLine?, blocksOf, List.head?_filter, headings, List.find?_map, Option.map_map]
  rfl

namespace Parallel

variable {o o' : Outline} (parallel : o.Parallel o')
include parallel

theorem headingLine? (s : Section) : o'.headingLine? s = o.headingLine? s := by
  rw [headingLine?_eq, parallel.headings, headingLine?_eq]

theorem written {s : Section} (other : s ≠ .setupScripts) : o'.written s = o.written s := by
  rw [Outline.written, parallel.content s other, Outline.written]

theorem endLine? (s : Section) : o'.endLine? s = o.endLine? s := by
  have last : (o'.written s).getLast? = (o.written s).getLast? := by
    by_cases other : s = .setupScripts
    · rw [other]
      exact parallel.last
    · rw [parallel.written other]
  rw [Outline.endLine?, parallel.headingLine?, last, Outline.endLine?]

theorem missingFaults : o'.missingFaults = o.missingFaults := by
  have fault (s : Section) : o'.missingFault s = o.missingFault s := by
    simp only [missingFault, previous?, parallel.endLine?, parallel.line]
  simp only [Outline.missingFaults, parallel.headingLine?, funext fault]

/-- The outline decides all faults but those of fences and placeholders. -/
theorem structureFaults {lines lines' : List (Nat × List Char)}
    (placeholders : placeholderFaults lines' = placeholderFaults lines)
    (fence : openFence? lines' = openFence? lines) :
    structureFaults lines' o' = structureFaults lines o := by
  have order : o'.orderFaults = o.orderFaults := orderFaultsAfter_congr parallel.headings
  simp only [Markup.structureFaults, placeholders, fenceFaults, fence, order,
    parallel.missingFaults, preambleFaults, parallel.before, repeatFaults, parallel.repeated,
    strayFaults, parallel.lead, urlFaults, stepFaults,
    parallel.written (s := .startingUrl) (by decide),
    parallel.written (s := .testSteps) (by decide)]

theorem testCase (markers : Markers) (screenshots : List Placeholder) :
    { o'.testCase markers screenshots with setupScript := none } =
      { o.testCase markers screenshots with setupScript := none } := by
  simp only [Outline.testCase, parallel.title, parallel.line, parallel.headingLine?,
    parallel.written (s := .prerequisites) (by decide),
    parallel.written (s := .startingUrl) (by decide),
    parallel.written (s := .testSteps) (by decide),
    parallel.written (s := .expectedUiState) (by decide),
    parallel.written (s := .expectedResult) (by decide)]

end Parallel

end Outline

theorem getLast?_filter_append_cons {α : Type _} {p : α → Bool} {x : α} (kept : p x = true)
    (front back : List α) :
    ((front ++ x :: back).filter p).getLast? = ((x :: back).filter p).getLast? := by
  rw [List.filter_append, List.filter_cons_of_pos kept, List.getLast?_append,
    Option.or_of_isSome (by simp)]

namespace Fence

variable {f : Fence} {inner inner' : List (List Char)} {s : Section}

theorem pairwise_front : f.front.Pairwise (·.number < ·.number) := by
  have whole := pairwise_marked (f.around [])
  rw [f.marked_around (List.forall_mem_nil _), List.append_assoc] at whole
  exact (List.pairwise_append.1 whole).1

/-- The lines above the fence: a test case, and below it the heading of the section, which is the
last heading of a section. -/
theorem LiesIn.exists_front_eq (lies : f.LiesIn s) :
    ∃ before start title between h under,
      f.front = before ++ start :: (between ++ h :: under) ∧
      (∀ l ∈ before, l.isTestCase = false) ∧ start.heading = some (.testCase title) ∧
      h.section? = some s ∧ ∀ l ∈ under, l.section? = none := by
  obtain ⟨t, ht, test, h, hh, after, section?, nearest⟩ := lies
  obtain ⟨above, under, split⟩ := List.append_of_mem hh
  have ordered := f.pairwise_front
  rw [split] at ordered
  obtain ⟨_, below, _⟩ := List.pairwise_append.1 ordered
  have lower := (List.pairwise_cons.1 below).1
  have headed : t ∈ above := by
    rw [split, List.mem_append, List.mem_cons] at ht
    rcases ht with ht | rfl | ht
    · exact ht
    · omega
    · have := lower t ht
      omega
  obtain ⟨before, start, title, between, whole, none, heading⟩ :=
    Outline.exists_first_testCase ⟨t, headed, test⟩
  refine ⟨before, start, title, between, h, under, ?_, none, heading, section?, fun k hk => ?_⟩
  · rw [split, whole, List.append_assoc, List.cons_append]
  · exact nearest k (by rw [split]; simp [hk]) (lower k hk)

/-- What is inside the fence becomes content of the section, and nothing else depends on it. -/
theorem LiesIn.exists_outline (lies : f.LiesIn s) (n : Nat) :
    ∃ (o : Outline) (earlier later : List Block) (line : Nat)
      (above below : List (Nat × List Char)), ∀ inner, Quiet inner → inner.length = n →
        Outline.ofLines? (marked (f.around inner)) = some { o with
          blocks := earlier ++ ⟨s, line, above ++ (f.inside inner).map Line.entry ++
            (f.start + n + 1, f.closing) :: below⟩ :: later } := by
  obtain ⟨before, start, title, between, h, under, front, none, heading, section?, unheaded⟩ :=
    lies.exists_front_eq
  let rest := between ++ h :: (under ++ f.back n)
  refine ⟨⟨before, title, start.number, (rest.filter (·.isTestCase)).map (·.number),
    (blocks rest).1, []⟩, (blocks between).2, (blocks (f.back n)).2, h.number, (blocks under).1,
    (blocks (f.back n).tail).1, fun inner quiet length => ?_⟩
  have plain : ∀ l ∈ f.inside inner, l.heading = .none := fun l hl =>
    (f.number_of_mem_inside hl).2.2
  have untitled : (f.inside inner).filter (·.isTestCase) = [] :=
    List.filter_eq_nil_iff.2 fun l hl => by simp [Line.isTestCase_of_heading_eq_none (plain l hl)]
  have whole : marked (f.around inner) =
      before ++ start :: (between ++ h :: (under ++ (f.inside inner ++ f.back n))) := by
    rw [f.marked_around quiet, front, length]
    simp
  have closing : blocks (f.back n) = ((f.start + n + 1, f.closing) :: (blocks (f.back n).tail).1,
      (blocks (f.back n).tail).2) := blocks_cons_plain rfl _
  rw [whole, Outline.ofLines?_append_testCase none heading]
  simp only [rest, blocks_append_section section?, blocks_append_of_unheaded unheaded,
    blocks_append_of_unheaded fun l hl => Line.section?_of_heading_eq_none (plain l hl),
    blocks_of_plain plain, closing, List.filter_append, List.filter_cons, untitled,
    List.nil_append, List.append_assoc]

theorem LiesIn.parallel (lies : f.LiesIn .setupScripts) (quiet : Quiet inner)
    (quiet' : Quiet inner') (length : inner'.length = inner.length) :
    ∃ o o', Outline.ofLines? (marked (f.around inner)) = some o ∧
      Outline.ofLines? (marked (f.around inner')) = some o' ∧ o.Parallel o' := by
  obtain ⟨o, earlier, later, line, above, below, outlined⟩ := lies.exists_outline inner.length
  refine ⟨_, _, outlined inner quiet rfl, outlined inner' quiet' length,
    rfl, rfl, rfl, rfl, rfl, ?_, fun r other => ?_, ?_⟩
  · simp [Outline.headings]
  · simp [Outline.content, Outline.blocksOf, other.symm]
  · have written : (!Text.allBlank f.closing) = true := by
      cases blank : Text.allBlank f.closing with
      | false => rfl
      | true =>
        have fence := f.closes
        rw [isFence_of_allBlank blank] at fence
        cases fence
    have content (entries : List (Nat × List Char)) :
        Outline.content { o with
          blocks := earlier ++ ⟨.setupScripts, line, above ++ entries ++
            (f.start + inner.length + 1, f.closing) :: below⟩ :: later } .setupScripts =
          ((earlier.filter (·.ofSection = .setupScripts)).flatMap (·.content) ++ above ++
            entries) ++ (f.start + inner.length + 1, f.closing) ::
              (below ++ (later.filter (·.ofSection = .setupScripts)).flatMap (·.content)) := by
      simp [Outline.content, Outline.blocksOf]
    have ending := getLast?_filter_append_cons (p := fun l : Nat × List Char => !Text.allBlank l.2)
      (x := (f.start + inner.length + 1, f.closing)) written
    rw [Outline.written, Outline.written, content, content, ending, ending]

/-! ## Reading a text with a fence -/

section

variable (f)

theorem numbered_around (inner : List (List Char)) :
    Text.numbered (f.around inner) = Text.numberedFrom 1 f.before ++
      ((f.start, f.opening) :: (Text.numberedFrom (f.start + 1) inner ++
        (f.start + inner.length + 1, f.closing) ::
          Text.numberedFrom (f.start + inner.length + 2) f.after)) := by
  have opening : 1 + f.before.length = f.start := Nat.add_comm _ _
  have closing : f.start + 1 + inner.length = f.start + inner.length + 1 := by omega
  rw [Text.numbered_eq_numberedFrom, around, Text.numberedFrom_append, Text.numberedFrom_cons,
    Text.numberedFrom_append, Text.numberedFrom_cons, opening, closing]

/-- What is found in each line by itself, and in none inside the fence. -/
theorem flatMap_around {α : Type _} {g : Nat × List Char → List α}
    (none : ∀ l ∈ inner, ∀ n, g (n, l) = []) (none' : ∀ l ∈ inner', ∀ n, g (n, l) = [])
    (length : inner'.length = inner.length) :
    (Text.numbered (f.around inner')).flatMap g =
      (Text.numbered (f.around inner)).flatMap g := by
  have nothing {ls : List (List Char)} (none : ∀ l ∈ ls, ∀ n, g (n, l) = []) (k : Nat) :
      (Text.numberedFrom k ls).flatMap g = [] :=
    List.flatMap_eq_nil_iff.2 fun e he => none e.2 (Text.mem_of_mem_numberedFrom he) e.1
  simp only [numbered_around, List.flatMap_append, List.flatMap_cons, nothing none, nothing none',
    length]

theorem placeholders_eq_nil_of_quiet (quiet : Quiet inner) : ∀ l ∈ inner, placeholders l = [] :=
  fun l hl => placeholders_eq_nil_iff.2 (quiet l hl).2

theorem placeholderFaults_around (quiet : Quiet inner) (quiet' : Quiet inner')
    (length : inner'.length = inner.length) :
    placeholderFaults (Text.numbered (f.around inner')) =
      placeholderFaults (Text.numbered (f.around inner)) :=
  f.flatMap_around (fun l hl _ => by simp [placeholders_eq_nil_of_quiet quiet l hl])
    (fun l hl _ => by simp [placeholders_eq_nil_of_quiet quiet' l hl]) length

theorem readPlaceholders_around (quiet : Quiet inner) (quiet' : Quiet inner')
    (length : inner'.length = inner.length) :
    readPlaceholders (Text.numbered (f.around inner')) =
      readPlaceholders (Text.numbered (f.around inner)) :=
  f.flatMap_around (fun l hl _ => by simp [placeholders_eq_nil_of_quiet quiet l hl])
    (fun l hl _ => by simp [placeholders_eq_nil_of_quiet quiet' l hl]) length

theorem openFence?_around (quiet : Quiet inner) (quiet' : Quiet inner')
    (length : inner'.length = inner.length) :
    openFence? (Text.numbered (f.around inner')) = openFence? (Text.numbered (f.around inner)) := by
  have fences (ls : List (Nat × List Char)) :
      ls.filter (fun l => isFence l.2) = ls.flatMap fun l => if isFence l.2 then [l] else [] := by
    induction ls with
    | nil => rfl
    | cons l ls ih => cases fence : isFence l.2 <;> simp [fence, ih]
  have same := f.flatMap_around (g := fun l => if isFence l.2 then [l] else [])
    (fun l hl _ => by simp [(quiet l hl).1]) (fun l hl _ => by simp [(quiet' l hl).1]) length
  rw [openFence?, fences, same, ← fences, openFence?]

end

/-- The script of a text with a fence in it is kept, under its heading. -/
theorem LiesIn.setupScript (lies : f.LiesIn .setupScripts) (quiet : Quiet inner) {o : Outline}
    (outlined : Outline.ofLines? (marked (f.around inner)) = some o) :
    (o.headingLine? .setupScripts).bind (readScript? · (o.content .setupScripts)) =
      (o.headingLine? .setupScripts).map fun n =>
        ⟨String.ofList (scriptText (f.around inner)), n⟩ := by
  obtain ⟨start, rest, splits⟩ := Outline.splits_of_ofLines? outlined
  have opening : f.opening ∈ scriptLines (f.around inner) := by
    have mem : (f.start, f.opening) ∈ Text.numbered (f.around inner) := by
      simp [f.numbered_around]
    have held := lies.contentAt quiet (Nat.le_refl _) (by omega)
    exact List.mem_map_of_mem (List.mem_filter.2 ⟨mem, decide_eq_true held⟩)
  have written : scriptText (f.around inner) ≠ [] := by
    intro empty
    have blank := List.all_eq_true.1 (Text.trim_eq_nil_iff.1 empty)
    have none : Text.allBlank f.opening = true :=
      List.all_eq_true.2 fun c hc => blank c (Text.mem_intercalate_of_mem opening hc)
    have fence := f.opens
    rw [isFence_of_allBlank none] at fence
    cases fence
  have text : Text.trim (['\n'].intercalate ((o.content .setupScripts).map (·.2))) =
      scriptText (f.around inner) := by
    rw [splits.content_eq_filter]
    rfl
  cases o.headingLine? .setupScripts with
  | none => rfl
  | some n =>
    simp only [Option.bind_some, readScript?, text]
    rw [if_neg (by simpa using written)]
    rfl

/-- Two texts that differ inside the fence only give test cases that differ in the script only. -/
theorem LiesIn.testCase (lies : f.LiesIn .setupScripts) (quiet : Quiet inner)
    (quiet' : Quiet inner') {o o' : Outline}
    (outlined : Outline.ofLines? (marked (f.around inner)) = some o)
    (outlined' : Outline.ofLines? (marked (f.around inner')) = some o')
    (parallel : o.Parallel o') (markers : Markers) (screenshots : List Placeholder) :
    o'.testCase markers screenshots =
      (o.testCase markers screenshots).withScript
        (String.ofList (scriptText (f.around inner'))) := by
  refine TestCase.eq_of_script (parallel.testCase markers screenshots) ?_
  have script : (o.testCase markers screenshots).setupScript = _ :=
    lies.setupScript quiet outlined
  have script' : (o'.testCase markers screenshots).setupScript = _ :=
    lies.setupScript quiet' outlined'
  rw [script', parallel.headingLine?, TestCase.withScript]
  dsimp only
  rw [script, Option.map_map]
  rfl

end Fence

end Markup

open Markup

/-- What stands inside a closed fence of the setup scripts shows in the text of the script and
nowhere else: none of these lines is a heading, and two texts that differ only there have the same
faults or are documents that differ only in the text of the script. -/
theorem Document.read_of_closedFence (path : Path) (feature : String) (markers : Markers)
    {source source' : String} {f : Fence} {inner inner' : List (List Char)}
    (text : bodyLines source = f.around inner) (text' : bodyLines source' = f.around inner')
    (length : inner'.length = inner.length) (quiet : Quiet inner) (quiet' : Quiet inner')
    (within : ContentAt (bodyLines source) .setupScripts f.start) :
    read path feature markers source' =
        (read path feature markers source).map (·.withScript source'
          (String.ofList (scriptText (bodyLines source')))) ∧
      ∀ n, f.start ≤ n → n ≤ f.start + inner.length + 1 →
        ContentAt (bodyLines source) .setupScripts n ∧
          ContentAt (bodyLines source') .setupScripts n := by
  have lies := Fence.liesIn_of_contentAt quiet (text ▸ within)
  obtain ⟨o, o', outlined, outlined', parallel⟩ := lies.parallel quiet quiet' length
  have structural := parallel.structureFaults (f.placeholderFaults_around quiet quiet' length)
    (f.openFence?_around quiet quiet' length)
  have found : faults path source' = faults path source := by
    simp only [faults, textLines_eq, Line.scan_numbered, text, text', outlined, outlined',
      structural]
  refine ⟨?_, fun n low high => ⟨?_, ?_⟩⟩
  · by_cases none : faults path source = []
    · obtain ⟨⟨mode, declared⟩, p, outlinedP, sound⟩ := faults_eq_nil_iff.1 none
      obtain ⟨_, p', outlinedP', sound'⟩ := faults_eq_nil_iff.1 (found.trans none)
      rw [read_eq_ok_iff.2 ⟨mode, p, declared, outlinedP, sound, rfl⟩,
        read_eq_ok_iff.2 ⟨mode, p', declared, outlinedP', sound', rfl⟩]
      rw [scan_textLines, text, outlined] at outlinedP
      rw [scan_textLines, text', outlined'] at outlinedP'
      cases outlinedP
      cases outlinedP'
      rw [textLines_eq, textLines_eq, text, text', f.readPlaceholders_around quiet quiet' length,
        lies.testCase quiet quiet' outlined outlined' parallel]
      rfl
    · have none' : faults path source' ≠ [] := by
        rw [found]
        exact none
      rw [read_of_faults path feature markers none, read_of_faults path feature markers none',
        found]
      rfl
  · exact text ▸ lies.contentAt quiet low high
  · exact text' ▸ lies.contentAt quiet' low (length ▸ high)

/-- A fence of one line in a script that is all there is of a document. -/
def Markup.Fence.scripted : Fence where
  before := ["# Test Case: A".toList, "# Prerequisites".toList, "# Setup Scripts".toList]
  opening := "```".toList
  closing := "```".toList
  after := ["# Test Steps".toList, "# Expected UI State".toList, "# Expected Result".toList]
  outside := by decide
  opens := by decide
  closes := by decide

/-- A document with this line in its script. -/
def Document.withFenced (line : String) : String :=
  "# Test Case: A\n# Prerequisites\n# Setup Scripts\n```\n" ++ line ++
    "\n```\n# Test Steps\n# Expected UI State\n# Expected Result"

theorem Document.read_of_closedFence_scripted :
    bodyLines (withFenced "# Test Case: B") = Fence.scripted.around ["# Test Case: B".toList] ∧
    bodyLines (withFenced "") = Fence.scripted.around ["".toList] ∧
    ["".toList].length = ["# Test Case: B".toList].length ∧ Quiet ["# Test Case: B".toList] ∧
    Quiet ["".toList] ∧
    ContentAt (bodyLines (withFenced "# Test Case: B")) .setupScripts Fence.scripted.start ∧
    read ⟨"a.mock.md"⟩ "a" {} (withFenced "") =
        (read ⟨"a.mock.md"⟩ "a" {} (withFenced "# Test Case: B")).map (·.withScript (withFenced "")
          (String.ofList (scriptText (bodyLines (withFenced ""))))) ∧
      ∀ n, Fence.scripted.start ≤ n → n ≤ Fence.scripted.start + 1 + 1 →
        ContentAt (bodyLines (withFenced "# Test Case: B")) .setupScripts n ∧
          ContentAt (bodyLines (withFenced "")) .setupScripts n := by
  have text : bodyLines (withFenced "# Test Case: B") =
      Fence.scripted.around ["# Test Case: B".toList] := by decide +kernel
  have text' : bodyLines (withFenced "") = Fence.scripted.around ["".toList] := by decide +kernel
  have quiet : Quiet ["# Test Case: B".toList] := by
    rw [Quiet, List.forall_mem_singleton, ← placeholders_eq_nil_iff]
    decide +kernel
  have quiet' : Quiet ["".toList] := by
    rw [Quiet, List.forall_mem_singleton, ← placeholders_eq_nil_iff]
    decide +kernel
  have within : ContentAt (bodyLines (withFenced "# Test Case: B")) .setupScripts
      Fence.scripted.start := by decide +kernel
  exact ⟨text, text', rfl, quiet, quiet', within,
    read_of_closedFence ⟨"a.mock.md"⟩ "a" {} text text' rfl quiet quiet' within⟩

end ScriptAudit
