import RunnerOrchestrator.Runner.Refinement

/-! # Parsing undoes rendering

A rendering writes the items of a stage one behind the other with any spaces around
them, and joins the stages by '|'. Spaces are required only where two items would
run together: before a word, before `2>`, and between the argument `2` and `>`.
-/

namespace RunnerOrchestrator

/-! ## Renderings -/

/-- Not empty, and free of NUL, whitespace, '<', '>' and '|'. -/
structure IsWord (word : CString) : Prop where
  ne_nil : word ≠ []
  clean : ∀ c ∈ word, isWordByte c = true ∧ c ≠ 0 ∧ c ≠ 124

instance (word : CString) : Decidable (IsWord word) :=
  decidable_of_iff (word ≠ [] ∧ word.all fun c => isWordByte c && c != 0 && c != 124)
    ⟨fun h => ⟨h.1, by simpa [and_assoc] using h.2⟩,
      fun h => ⟨h.1, by simpa [and_assoc] using h.2⟩⟩

def Blank (gap : CString) : Prop := ∀ c ∈ gap, isSpace c = true

instance (gap : CString) : Decidable (Blank gap) :=
  decidable_of_iff (gap.all isSpace) List.all_eq_true

def RedirectTarget.operator : RedirectTarget → CString
  | .inputFile => text "<"
  | .outputFile => text ">"
  | .errorFile => text "2>"

/-- An item as written: an operator may stand apart from its target. -/
inductive RendersItem : Item → CString → Prop
  | arg (word : CString) : RendersItem (.arg word) word
  | redirect (target : RedirectTarget) (word : CString) {gap : CString} :
      Blank gap → RendersItem (.redirect target word) (target.operator ++ gap ++ word)

/-- Would `next` run into the item before it? -/
def needsSpace : Option Item → Item → Bool
  | none, _ => false
  | some _, .arg _ => true
  | some _, .redirect .errorFile _ => true
  | some prev, .redirect .outputFile _ => prev == .arg (text "2")
  | some _, .redirect .inputFile _ => false

/-- The items that follow `prev`, with the spaces around them. -/
inductive RendersItems : Option Item → List Item → CString → Prop
  | done {prev : Option Item} {gap : CString} : Blank gap → RendersItems prev [] gap
  | item {prev : Option Item} {next : Item} {items : List Item} {gap body rest : CString} :
      Blank gap → (needsSpace prev next = true → gap ≠ []) → RendersItem next body →
      RendersItems (some next) items rest → RendersItems prev (next :: items) (gap ++ body ++ rest)

/-- The stages joined by '|'. -/
def RendersPipeline (pipeline : List (List Item)) (s : CString) : Prop :=
  ∃ parts, List.Forall₂ (RendersItems none) pipeline parts ∧ s = (text "|").intercalate parts

/-! ## Where a word ends -/

theorem isWordByte_of_isSpace {c : UInt8} (h : isSpace c = true) : isWordByte c = false := by
  simp [isWordByte, h]

theorem isSpace_of_isWordByte {c : UInt8} (h : isWordByte c = true) : isSpace c = false := by
  by_contra hspace
  rw [isWordByte_of_isSpace (by simpa using hspace)] at h
  cases h

theorem skipSpaces_blank_append {gap : CString} (h : Blank gap) (s : CString) :
    skipSpaces (gap ++ s) = skipSpaces s :=
  List.dropWhile_append_of_pos h

theorem blank_nil : Blank [] := by
  simp [Blank]

theorem skipSpaces_blank {gap : CString} (h : Blank gap) : skipSpaces gap = [] :=
  List.dropWhile_eq_nil_iff.mpr h

theorem skipSpaces_of_head {c : UInt8} (h : isSpace c = false) (s : CString) :
    skipSpaces (c :: s) = c :: s :=
  List.dropWhile_cons_of_neg (by simp [h])

/-- What the lexer needs of the text behind a word: no byte of it belongs to the word. -/
def EndsWord (rest : CString) : Prop := ∀ c ∈ rest.head?, isWordByte c = false

theorem takeWhile_word {word rest : CString} (hword : IsWord word) (hrest : EndsWord rest) :
    (word ++ rest).takeWhile isWordByte = word := by
  rw [List.takeWhile_append_of_pos fun c hc => (hword.clean c hc).1]
  cases rest with
  | nil => simp
  | cons c rest => simp [hrest c rfl]

theorem dropWhile_word {word rest : CString} (hword : IsWord word) (hrest : EndsWord rest) :
    (word ++ rest).dropWhile isWordByte = rest := by
  rw [List.dropWhile_append_of_pos fun c hc => (hword.clean c hc).1]
  cases rest with
  | nil => rfl
  | cons c rest => simp [hrest c rfl]

theorem skipSpaces_word {word : CString} (hword : IsWord word) (rest : CString) :
    skipSpaces (word ++ rest) = word ++ rest := by
  cases word with
  | nil => exact absurd rfl hword.ne_nil
  | cons c word =>
      have hc := (hword.clean c (by simp)).1
      exact skipSpaces_of_head (isSpace_of_isWordByte hc) (word ++ rest)

theorem wordAt_word {gap word rest : CString} (hgap : Blank gap) (hword : IsWord word)
    (hrest : EndsWord rest) : wordAt (gap ++ (word ++ rest)) = some (word, rest) := by
  unfold wordAt
  rw [skipSpaces_blank_append hgap, skipSpaces_word hword]
  simp only [takeWhile_word hword hrest, dropWhile_word hword hrest, hword.ne_nil, if_false]

/-! ## Where an operator stands -/

theorem ne_operator_of_isWordByte {c : UInt8} (h : isWordByte c = true) : c ≠ 60 ∧ c ≠ 62 := by
  constructor
  · rintro rfl
    cases h
  · rintro rfl
    cases h

theorem operatorAt_operator (target : RedirectTarget) (rest : CString) :
    operatorAt (target.operator ++ rest) = some (target, rest) := by
  cases target <;> rfl

theorem operatorAt_eq_none {c : UInt8} {rest : CString} (hc : c ≠ 60 ∧ c ≠ 62)
    (hrest : c = 50 → rest.head? ≠ some 62) : operatorAt (c :: rest) = none := by
  unfold operatorAt
  split
  · next heq =>
    obtain ⟨rfl, rfl⟩ := List.cons.inj heq
    exact absurd rfl (hrest rfl)
  · next heq => exact absurd (List.cons.inj heq).1 hc.1
  · next heq => exact absurd (List.cons.inj heq).1 hc.2
  · rfl

/-- Only the word `2` can be taken for an operator, by the '>' behind it. -/
theorem operatorAt_word {word rest : CString} (hword : IsWord word)
    (hrest : word = text "2" → rest.head? ≠ some 62) : operatorAt (word ++ rest) = none := by
  have hclean : ∀ c ∈ word, c ≠ 60 ∧ c ≠ 62 := fun c hc =>
    ne_operator_of_isWordByte (hword.clean c hc).1
  cases word with
  | nil => exact absurd rfl hword.ne_nil
  | cons c word =>
      refine operatorAt_eq_none (hclean c (by simp)) fun htwo => ?_
      cases word with
      | nil => exact hrest (by rw [htwo]; rfl)
      | cons d word => simpa using (hclean d (by simp)).2

/-- What may directly follow an item. -/
theorem RendersItems.head {prev : Item} {items : List Item} {s : CString}
    (h : RendersItems (some prev) items s) :
    ∀ c ∈ s.head?, isSpace c = true ∨ c = 60 ∨ c = 62 ∧ prev ≠ .arg (text "2") := by
  intro c hc
  cases h with
  | done hgap => exact .inl (hgap c (List.mem_of_mem_head? hc))
  | @item _ next _ gap body rest hgap hneeds hbody _ =>
      cases gap with
      | cons d gap =>
          have hd : d = c := by simpa using hc
          exact .inl (hgap c (by simp [hd]))
      | nil =>
          have hfree : needsSpace (some prev) next = false := by
            cases hn : needsSpace (some prev) next with
            | false => rfl
            | true => exact absurd rfl (hneeds hn)
          cases hbody with
          | arg word => cases hfree
          | redirect target word _ =>
              cases target with
              | inputFile =>
                  cases hc
                  exact .inr (.inl rfl)
              | outputFile =>
                  cases hc
                  exact .inr (.inr ⟨rfl, by simpa [needsSpace] using hfree⟩)
              | errorFile => cases hfree

theorem RendersItems.endsWord {prev : Item} {items : List Item} {s : CString}
    (h : RendersItems (some prev) items s) : EndsWord s := by
  intro c hc
  obtain hspace | rfl | ⟨rfl, -⟩ := h.head c hc
  · exact isWordByte_of_isSpace hspace
  · rfl
  · rfl

theorem RendersItem.ne_nil {item : Item} {body : CString} (h : RendersItem item body)
    (hword : IsWord item.word) : body ≠ [] := by
  cases h with
  | arg => exact hword.ne_nil
  | redirect => exact List.append_ne_nil_of_right_ne_nil _ hword.ne_nil

/-! ## Reading a rendering -/

theorem skipSpaces_item {item : Item} {body : CString} (hbody : RendersItem item body)
    (hword : IsWord item.word) (rest : CString) :
    skipSpaces (body ++ rest) = body ++ rest := by
  cases hbody with
  | arg => exact skipSpaces_word hword rest
  | redirect target => cases target <;> exact skipSpaces_of_head rfl _

theorem itemAt_item {item : Item} {items : List Item} {body rest : CString}
    (hbody : RendersItem item body) (hword : IsWord item.word)
    (hrest : RendersItems (some item) items rest) : itemAt (body ++ rest) = some (item, rest) := by
  unfold itemAt
  cases hbody with
  | arg =>
      have hop : operatorAt (body ++ rest) = none :=
        operatorAt_word hword fun htwo hgt => by
          obtain hspace | h60 | ⟨-, hne⟩ := hrest.head 62 hgt
          · cases hspace
          · cases h60
          · exact hne (by rw [htwo])
      have hread : wordAt (body ++ rest) = some (body, rest) :=
        @wordAt_word [] body rest blank_nil hword hrest.endsWord
      rw [hop]
      simp only [hread, Option.map_some]
  | @redirect target word gap hgap =>
      have hread : wordAt (gap ++ (word ++ rest)) = some (word, rest) :=
        wordAt_word hgap hword hrest.endsWord
      rw [List.append_assoc, List.append_assoc, operatorAt_operator]
      simp only [hread, Option.map_some]

/-- By induction on the rendering: each step skips the spaces before an item and reads it. -/
theorem itemsOf_renders {prev : Option Item} {items : List Item} {s : CString}
    (h : RendersItems prev items s) (hwords : ∀ item ∈ items, IsWord item.word) :
    itemsOf s = some items := by
  induction h with
  | done hgap => exact itemsOf_blank (skipSpaces_blank hgap)
  | @item _ next items gap body rest hgap _ hbody hrest ih =>
      have hword := hwords next (by simp)
      have hskip : skipSpaces (gap ++ body ++ rest) = body ++ rest := by
        rw [List.append_assoc, skipSpaces_blank_append hgap, skipSpaces_item hbody hword]
      have hne : body ++ rest ≠ [] := List.append_ne_nil_of_left_ne_nil (hbody.ne_nil hword) rest
      rw [itemsOf_item (by rwa [hskip]), hskip, itemAt_item hbody hword hrest]
      simp only [Option.bind_some]
      rw [ih fun item hitem => hwords item (by simp [hitem])]
      rfl

/-! ## The pipes between the stages -/

theorem pipe_not_mem_blank {gap : CString} (h : Blank gap) : (124 : UInt8) ∉ gap := by
  intro hmem
  have hspace := h 124 hmem
  cases hspace

theorem pipe_not_mem_word {word : CString} (h : IsWord word) : (124 : UInt8) ∉ word :=
  fun hmem => (h.clean 124 hmem).2.2 rfl

theorem pipe_not_mem_item {item : Item} {body : CString} (h : RendersItem item body)
    (hword : IsWord item.word) : (124 : UInt8) ∉ body := by
  cases h with
  | arg => exact pipe_not_mem_word hword
  | @redirect target word gap hgap =>
      have hop : (124 : UInt8) ∉ target.operator := by cases target <;> decide
      simp only [List.mem_append, not_or]
      exact ⟨⟨hop, pipe_not_mem_blank hgap⟩, pipe_not_mem_word hword⟩

theorem pipe_not_mem_items {prev : Option Item} {items : List Item} {s : CString}
    (h : RendersItems prev items s) (hwords : ∀ item ∈ items, IsWord item.word) :
    (124 : UInt8) ∉ s := by
  induction h with
  | done hgap => exact pipe_not_mem_blank hgap
  | item hgap _ hbody _ ih =>
      simp only [List.mem_append, not_or]
      exact ⟨⟨pipe_not_mem_blank hgap, pipe_not_mem_item hbody (hwords _ (by simp))⟩,
        ih fun item hitem => hwords item (by simp [hitem])⟩

theorem RendersItems.ne_nil {prev : Option Item} {items : List Item} {s : CString}
    (h : RendersItems prev items s) (hne : items ≠ [])
    (hwords : ∀ item ∈ items, IsWord item.word) : s ≠ [] := by
  cases h with
  | done => exact absurd rfl hne
  | item _ _ hbody _ =>
      have hbody' := hbody.ne_nil (hwords _ (by simp))
      exact List.append_ne_nil_of_left_ne_nil (List.append_ne_nil_of_right_ne_nil _ hbody') _

/-! ## Parsing a rendering -/

/-- A stage that can be written down and that `argv` can hold. -/
structure Writable (items : List Item) : Prop where
  ne_nil : items ≠ []
  words : ∀ item ∈ items, IsWord item.word
  args : (stageOf items).args.length < parserMaxArgs

instance (items : List Item) : Decidable (Writable items) :=
  decidable_of_iff (items ≠ [] ∧ (∀ item ∈ items, IsWord item.word) ∧
      (stageOf items).args.length < parserMaxArgs)
    ⟨fun h => ⟨h.1, h.2.1, h.2.2⟩, fun h => ⟨h.1, h.2, h.3⟩⟩

/-- A rendered stage is a segment of its own. -/
theorem clean_of_rendered {pipeline : List (List Item)} {parts : List CString}
    (hparts : List.Forall₂ (RendersItems none) pipeline parts)
    (hstages : ∀ items ∈ pipeline, Writable items) :
    ∀ part ∈ parts, (124 : UInt8) ∉ part ∧ part ≠ [] := by
  induction hparts with
  | nil => simp
  | @cons items part pipeline parts hpart _ ih =>
      have hitems := hstages items (by simp)
      rw [List.forall_mem_cons]
      exact ⟨⟨pipe_not_mem_items hpart hitems.words, hpart.ne_nil hitems.ne_nil hitems.words⟩,
        ih fun items h => hstages items (by simp [h])⟩

theorem segments_rendered {parts : List CString} (hne : parts ≠ [])
    (hclean : ∀ part ∈ parts, (124 : UInt8) ∉ part ∧ part ≠ []) :
    segments ((text "|").intercalate parts) = parts := by
  have hsplit : ((text "|").intercalate parts).splitOn 124 = parts :=
    List.splitOn_intercalate 124 (fun part h => (hclean part h).1) hne
  unfold segments
  rw [hsplit]
  exact List.filter_eq_self.mpr fun part h => by simpa using (hclean part h).2

theorem mapM_readStage_rendered {pipeline : List (List Item)} {parts : List CString}
    (hparts : List.Forall₂ (RendersItems none) pipeline parts)
    (hstages : ∀ items ∈ pipeline, Writable items) :
    parts.mapM readStage = some (pipeline.map stageOf) := by
  induction hparts with
  | nil => rfl
  | @cons items part pipeline parts hpart _ ih =>
      have hitems := itemsOf_renders hpart (hstages items (by simp)).words
      rw [List.mapM_cons, readStage, hitems, ih fun items h => hstages items (by simp [h])]
      rfl

/-- Every rendering of a pipeline is parsed to that pipeline. -/
theorem parse_rendering {malloc : Nat → Bool} (hmalloc : ∀ n, malloc n = true)
    {pipeline : List (List Item)} (hne : pipeline ≠ [])
    (hcount : pipeline.length ≤ parserMaxStages) (hstages : ∀ items ∈ pipeline, Writable items)
    {s : CString} (hs : RendersPipeline pipeline s) (hlength : s.length < parserInputBuffer) :
    ∃ cmd l, parserParse malloc s = some (some cmd, l) ∧ cmd.Shows (pipeline.map stageOf) := by
  obtain ⟨parts, hparts, rfl⟩ := hs
  have hlen := hparts.length_eq
  have hparts_ne : parts ≠ [] := by
    rintro rfl
    exact hne (List.length_eq_zero_iff.mp hlen)
  have hread : readStages parserMaxStages
      (bounded parserInputBuffer ((text "|").intercalate parts)) = some (pipeline.map stageOf) := by
    rw [bounded, List.take_of_length_le (Nat.le_sub_one_of_lt hlength), readStages,
      segments_rendered hparts_ne (clean_of_rendered hparts hstages),
      List.take_of_length_le (hlen ▸ hcount)]
    exact mapM_readStage_rendered hparts hstages
  have hfits : ∀ s ∈ pipeline.map stageOf, s.args.length < parserMaxArgs := by
    simpa using fun items h => (hstages items h).args
  obtain ⟨⟨cmd, l⟩, hparse, hparsed⟩ :=
    parserParse_parsed malloc ((text "|").intercalate parts)
  rw [hread] at hparsed
  obtain ⟨cmd, rfl⟩ := Option.isSome_iff_exists.mp (hparsed.accepted hmalloc rfl)
  obtain ⟨rest, hrest, hshows⟩ := hparsed.shows cmd rfl
  cases hrest
  rw [map_cut_of_fits hfits] at hshows
  exact ⟨cmd, l, hparse, hshows⟩

theorem parse_rendering_attached :
    ∃ cmd l, parserParse (fun _ => true) (text "cat<in|wc\t-l> out") = some (some cmd, l) ∧
      cmd.Shows
        [stageOf [.arg (text "cat"), .redirect .inputFile (text "in")],
          stageOf [.arg (text "wc"), .arg (text "-l"), .redirect .outputFile (text "out")]] := by
  have hcat : RendersItems none [.arg (text "cat"), .redirect .inputFile (text "in")]
      (text "cat<in") :=
    .item blank_nil (by decide) (.arg _)
      (.item blank_nil (by decide) (.redirect .inputFile (text "in") blank_nil) (.done blank_nil))
  have hwc : RendersItems none
      [.arg (text "wc"), .arg (text "-l"), .redirect .outputFile (text "out")]
      (text "wc\t-l> out") :=
    .item blank_nil (by decide) (.arg _)
      (.item (by decide : Blank [9]) (by decide) (.arg _)
        (.item blank_nil (by decide)
          (.redirect .outputFile (text "out") (by decide : Blank [32])) (.done blank_nil)))
  exact parse_rendering (fun _ => rfl) (List.cons_ne_nil _ _) (by decide) (by decide)
    ⟨_, .cons hcat (.cons hwc .nil), rfl⟩ (by decide)

end RunnerOrchestrator
