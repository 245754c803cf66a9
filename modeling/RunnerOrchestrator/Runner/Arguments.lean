import RunnerOrchestrator.Foundation.Runs
import RunnerOrchestrator.Runner.Acceptance

/-! # The arguments of a stage

The words of a stage are the maximal runs of word bytes of its segment. A run behind
an operator is its target, the run 2 before '>' belongs to the operator, and all the
others are arguments, in order.
-/

namespace RunnerOrchestrator

open Runs

/-- The last byte that is not whitespace. -/
def lastByte (before : CString) : Option UInt8 := (before.filter fun c => !isSpace c).getLast?

/-- What stands behind `before` is the target of a redirection. -/
def AfterOperator (before : CString) : Prop :=
  lastByte before = some 60 ∨ lastByte before = some 62

instance (before : CString) : Decidable (AfterOperator before) :=
  inferInstanceAs (Decidable (_ ∨ _))

/-- The 2 of `2>` where a token begins. -/
def IsErrorDigit (r : Run UInt8) : Prop :=
  ¬ AfterOperator r.before ∧ r.word = text "2" ∧ r.after.head? = some 62

instance (r : Run UInt8) : Decidable (IsErrorDigit r) := inferInstanceAs (Decidable (_ ∧ _))

/-! ## One more byte -/

theorem lastByte_space {c : UInt8} (hc : isSpace c = true) (before : CString) :
    lastByte (before ++ [c]) = lastByte before := by
  simp [lastByte, hc]

theorem lastByte_byte {c : UInt8} (hc : isSpace c = false) (before : CString) :
    lastByte (before ++ [c]) = some c := by
  simp [lastByte, hc]

theorem afterOperator_operator {c : UInt8} (hc : c = 60 ∨ c = 62) (before : CString) :
    AfterOperator (before ++ [c]) := by
  unfold AfterOperator
  rw [lastByte_byte (isSpace_of_operator hc), Option.some_inj, Option.some_inj]
  exact hc

theorem not_afterOperator_word {read : CString} (hne : read ≠ [])
    (hread : ∀ c ∈ read, isWordByte c = true) (before : CString) :
    ¬ AfterOperator (before ++ read) := by
  obtain ⟨init, c, rfl⟩ := List.eq_nil_or_concat read |>.resolve_left hne
  have hc := hread c (by simp)
  have hop := ne_operator_of_isWordByte hc
  unfold AfterOperator
  rw [List.concat_eq_append, ← List.append_assoc, lastByte_byte (isSpace_of_isWordByte hc)]
  simpa using hop

namespace ReadMode

/-- The mode behind `before` and the word `read` of which it is the end. -/
def At : ReadMode → CString → CString → Prop
  | .between, before, read => read = [] ∧ ¬ AfterOperator before
  | .target _, before, read => read = [] ∧ AfterOperator before
  | .word kind part, before, read => part = read ∧ read ≠ [] ∧
      (∀ c ∈ read, isWordByte c = true) ∧ (kind = none ↔ ¬ AfterOperator before)

theorem at_start : At .between [] [] := ⟨rfl, by decide⟩

theorem at_enter {c : UInt8} (hc : isWordByte c = false) {before : CString}
    (hbefore : ¬ AfterOperator before) : At (enter c) (before ++ [c]) [] := by
  cases hspace : isSpace c with
  | true =>
      rw [enter_space hspace]
      refine ⟨rfl, ?_⟩
      unfold AfterOperator
      rwa [lastByte_space hspace]
  | false =>
      have hop := operator_of_not_isWordByte hspace hc
      obtain ⟨kind, htarget⟩ := enter_operator hop
      rw [htarget]
      exact ⟨rfl, afterOperator_operator hop before⟩

theorem at_word {kind : Option RedirectTarget} {c : UInt8} (hc : isWordByte c = true)
    {before : CString} (hkind : kind = none ↔ ¬ AfterOperator before) :
    At (.word kind [c]) before [c] :=
  ⟨rfl, List.cons_ne_nil c [], by simpa using hc, hkind⟩

/-- An item and the run that is its word. -/
def ReadsRun (item : Item) (r : Run UInt8) : Prop :=
  item.word = r.word ∧ (item.argument? = none ↔ AfterOperator r.before)

/-- The runs of word bytes apart from those that are part of an operator. -/
def wordRuns (before read t : CString) : List (Run UInt8) :=
  (scan isWordByte before read t).filter fun r => ¬ IsErrorDigit r

theorem wordRuns_inside {c : UInt8} (hc : isWordByte c = true) (before read t : CString) :
    wordRuns before read (c :: t) = wordRuns before (read ++ [c]) t := by
  rw [wordRuns, scan_inside hc, wordRuns]

theorem wordRuns_gap {c : UInt8} (hc : isWordByte c = false) (before t : CString) :
    wordRuns before [] (c :: t) = wordRuns (before ++ [c]) [] t := by
  rw [wordRuns, scan_outside hc, emit_nil, wordRuns]
  rfl

theorem wordRuns_digit {before read t : CString} (hne : read ≠ [])
    (h : IsErrorDigit ⟨before, read, 62 :: t⟩) :
    wordRuns before read (62 :: t) = wordRuns (before ++ (read ++ [62])) [] t := by
  rw [wordRuns, scan_outside rfl, emit_of_ne_nil hne, List.singleton_append,
    List.filter_cons_of_neg (by simpa using h), wordRuns]

theorem wordRuns_end {c : UInt8} (hc : isWordByte c = false) {before read t : CString}
    (hne : read ≠ []) (h : ¬ IsErrorDigit ⟨before, read, c :: t⟩) :
    wordRuns before read (c :: t) =
      ⟨before, read, c :: t⟩ :: wordRuns (before ++ (read ++ [c])) [] t := by
  rw [wordRuns, scan_outside hc, emit_of_ne_nil hne, List.singleton_append,
    List.filter_cons_of_pos (by simpa using h), wordRuns]

theorem readsRun_itemOf {kind : Option RedirectTarget} {before read after : CString}
    (hkind : kind = none ↔ ¬ AfterOperator before) :
    ReadsRun (itemOf kind read) ⟨before, read, after⟩ := by
  cases kind with
  | none => exact ⟨rfl, iff_of_false (by simp [itemOf, Item.argument?]) (hkind.mp rfl)⟩
  | some kind => exact ⟨rfl, iff_of_true rfl (by simpa using hkind)⟩

/-- By cases on the mode: a run ends when its item is emitted. -/
theorem At.step {m m' : ReadMode} {before read : CString} {c : UInt8} {items : List Item}
    (hat : m.At before read) (hstep : m.step c = some (m', items)) (t : CString) :
    ∃ before' read' ended, m'.At before' read' ∧ List.Forall₂ ReadsRun items ended ∧
      wordRuns before read (c :: t) = ended ++ wordRuns before' read' t := by
  cases m with
  | between =>
      obtain ⟨rfl, hbefore⟩ := hat
      rw [step_between] at hstep
      cases hstep
      cases hc : isWordByte c with
      | true =>
          rw [enter_byte hc]
          exact ⟨before, [c], [], at_word hc (iff_of_true rfl hbefore), .nil,
            wordRuns_inside hc before [] t⟩
      | false => exact ⟨_, _, [], at_enter hc hbefore, .nil, wordRuns_gap hc before t⟩
  | target kind =>
      obtain ⟨rfl, hbefore⟩ := hat
      cases hc : isWordByte c with
      | true =>
          rw [step_target_byte kind hc] at hstep
          cases hstep
          exact ⟨before, [c], [], at_word hc (iff_of_false (by simp) (not_not.mpr hbefore)), .nil,
            wordRuns_inside hc before [] t⟩
      | false =>
          cases hspace : isSpace c with
          | true =>
              rw [step_target_space kind hspace] at hstep
              cases hstep
              refine ⟨_, _, [], ⟨rfl, ?_⟩, .nil, wordRuns_gap hc before t⟩
              unfold AfterOperator
              rwa [lastByte_space hspace]
          | false =>
              rw [step_target_operator kind hspace hc] at hstep
              cases hstep
  | word kind part =>
      obtain ⟨rfl, hne, hpart, hkind⟩ := hat
      cases hc : isWordByte c with
      | true =>
          rw [step_word_byte kind part hc] at hstep
          cases hstep
          refine ⟨before, part ++ [c], [], ⟨rfl, by simp, ?_, hkind⟩, .nil,
            wordRuns_inside hc before part t⟩
          simpa [or_imp, forall_and, hc] using hpart
      | false =>
          by_cases hdigit : kind = none ∧ part = text "2" ∧ c = 62
          · obtain ⟨rfl, rfl, rfl⟩ := hdigit
            cases hstep
            refine ⟨_, _, [], ⟨rfl, ?_⟩, .nil, wordRuns_digit hne ⟨hkind.mp rfl, rfl, rfl⟩⟩
            rw [← List.append_assoc]
            exact afterOperator_operator (.inr rfl) _
          · have hnot : ¬ IsErrorDigit ⟨before, part, c :: t⟩ := fun h =>
              hdigit ⟨hkind.mpr h.1, h.2.1, Option.some.inj h.2.2⟩
            rw [step_word_end hc fun hnone htwo hgt => hdigit ⟨hnone, htwo, hgt⟩] at hstep
            cases hstep
            refine ⟨_, _, [⟨before, part, c :: t⟩], ?_, .cons (readsRun_itemOf hkind) .nil,
              wordRuns_end hc hne hnot⟩
            rw [← List.append_assoc]
            exact at_enter hc (not_afterOperator_word hne hpart before)

/-- By induction on the bytes, with what every step ends. -/
theorem run_readsRuns {m : ReadMode} {before read t : CString} (hat : m.At before read)
    {items : List Item} (h : run m t = some items) :
    List.Forall₂ ReadsRun items (wordRuns before read t) := by
  induction t generalizing m before read items with
  | nil =>
      cases m with
      | between =>
          obtain ⟨rfl, -⟩ := hat
          cases h
          exact .nil
      | target kind => cases h
      | word kind part =>
          obtain ⟨rfl, hne, -, hkind⟩ := hat
          cases h
          have hkept : wordRuns before part [] = [⟨before, part, []⟩] := by
            simp [wordRuns, scan, emit_of_ne_nil hne, IsErrorDigit]
          rw [hkept]
          exact .cons (readsRun_itemOf hkind) .nil
  | cons c t ih =>
      obtain ⟨r, hstep, hrest⟩ := Option.bind_eq_some_iff.mp h
      obtain ⟨rest, hrun, rfl⟩ := Option.map_eq_some_iff.mp hrest
      obtain ⟨before', read', ended, hat', hended, hruns⟩ := hat.step hstep t
      rw [hruns]
      exact List.rel_append hended (ih hat' hrun)

/-- The arguments among the items are the runs that stand behind no operator. -/
theorem arguments_of_readsRuns {items : List Item} {rs : List (Run UInt8)}
    (h : List.Forall₂ ReadsRun items rs) :
    items.filterMap Item.argument? =
      (rs.filter fun r => ¬ AfterOperator r.before).map Run.word := by
  induction h with
  | nil => rfl
  | @cons item r items rs hitem _ ih =>
      obtain ⟨hword, hkind⟩ := hitem
      cases item with
      | arg word =>
          have hbefore : ¬ AfterOperator r.before := by
            rw [← hkind]
            simp [Item.argument?]
          rw [List.filter_cons_of_pos (by simpa using hbefore), List.map_cons, ← ih, ← hword]
          rfl
      | redirect target word =>
          have hbefore : AfterOperator r.before := hkind.mp rfl
          rw [List.filter_cons_of_neg (by simpa using hbefore), ← ih]
          rfl

theorem words_of_readsRuns {items : List Item} {rs : List (Run UInt8)}
    (h : List.Forall₂ ReadsRun items rs) : ∀ item ∈ items, ∃ r ∈ rs, item.word = r.word := by
  induction h with
  | nil => simp
  | @cons item r items rs hitem _ ih =>
      rw [List.forall_mem_cons]
      refine ⟨⟨r, by simp, hitem.1⟩, fun item hmem => ?_⟩
      obtain ⟨r', hr', hword⟩ := ih item hmem
      exact ⟨r', by simp [hr'], hword⟩

end ReadMode

/-! ## The words of a segment -/

/-- The runs that are arguments. -/
def argumentRuns (segment : CString) : List (Run UInt8) :=
  (ReadMode.wordRuns [] [] segment).filter fun r => ¬ AfterOperator r.before

theorem mem_wordRuns {segment : CString} {r : Run UInt8} :
    r ∈ ReadMode.wordRuns [] [] segment ↔ r.IsMaximal isWordByte segment ∧ ¬ IsErrorDigit r := by
  have hruns : r ∈ scan isWordByte [] [] segment ↔ r.IsMaximal isWordByte segment := mem_runs
  simp only [ReadMode.wordRuns, List.mem_filter, hruns, decide_eq_true_eq]

theorem mem_argumentRuns {segment : CString} {r : Run UInt8} :
    r ∈ argumentRuns segment ↔ r.IsMaximal isWordByte segment ∧ ¬ AfterOperator r.before ∧
      ¬ (r.word = text "2" ∧ r.after.head? = some 62) := by
  simp only [argumentRuns, List.mem_filter, mem_wordRuns, decide_eq_true_eq, IsErrorDigit]
  tauto

theorem argumentRuns_pairwise (segment : CString) :
    (argumentRuns segment).Pairwise fun r r' => r.before.length < r'.before.length :=
  ((runs_pairwise segment).filter _).filter _

section Segment

variable {segment : CString} {stage : Stage}

theorem readStage_args (h : readStage segment = some stage) :
    stage.args = (argumentRuns segment).map Run.word := by
  obtain ⟨items, hitems, rfl⟩ := Option.map_eq_some_iff.mp h
  rw [ReadMode.itemsOf_eq_run] at hitems
  exact ReadMode.arguments_of_readsRuns (ReadMode.run_readsRuns ReadMode.at_start hitems)

/-- A word that a stage is made of. -/
theorem readStage_words (h : readStage segment = some stage) {word : CString}
    (hword : word ∈ stage.args ∨ ∃ kind, stage.files kind = some word) :
    word ≠ [] ∧ ∀ c ∈ word, isWordByte c = true ∧ c ∈ segment := by
  obtain ⟨items, hitems, rfl⟩ := Option.map_eq_some_iff.mp h
  have hitem : ∃ item ∈ items, item.word = word := by
    obtain harg | ⟨kind, hfile⟩ := hword
    · obtain ⟨item, hmem, hitem⟩ := List.mem_filterMap.mp harg
      cases item with
      | arg word' => exact ⟨_, hmem, Option.some.inj hitem⟩
      | redirect target word' => cases hitem
    · obtain ⟨item, hmem, hitem⟩ := List.mem_filterMap.mp (List.mem_of_getLast? hfile)
      cases item with
      | arg word' => cases hitem
      | redirect target word' =>
          refine ⟨_, hmem, ?_⟩
          simp only [Item.fileFor?, Option.ite_none_right_eq_some, Option.some_inj] at hitem
          exact hitem.2
  obtain ⟨item, hmem, rfl⟩ := hitem
  rw [ReadMode.itemsOf_eq_run] at hitems
  obtain ⟨r, hr, hsame⟩ :=
    ReadMode.words_of_readsRuns (ReadMode.run_readsRuns ReadMode.at_start hitems) item hmem
  have hmaximal := (mem_wordRuns.mp hr).1
  rw [hsame]
  refine ⟨hmaximal.ne_nil, fun c hc => ⟨hmaximal.inside c hc, ?_⟩⟩
  rw [hmaximal.split]
  simp [hc]

end Segment

/-- A command that the parser returns has at most 16 stages. In each of them argv is a run
of at most 31 words and then NULLs, the words are the first maximal runs of the segment
that belong to no operator, and no word holds whitespace or an operator. -/
theorem parse_well_formed (malloc : Nat → Bool) (input : CString) :
    ∃ r, parserParse malloc input = some r ∧ ∀ cmd, r.1 = some cmd →
      parserGetStageCount cmd ≤ parserMaxStages ∧
      ∀ i < parserGetStageCount cmd, ∃ stage segment words,
        cmd.stage? i = some stage ∧
        (segments (bounded parserInputBuffer input))[i]? = some segment ∧
        words.length ≤ parserMaxArgs - 1 ∧
        stage.argv.map (Option.map Token.text) =
          words.map some ++ List.replicate (parserMaxArgs - words.length) none ∧
        (∀ word, (word ∈ words ∨ ∃ kind, (stage.target kind).map Token.text = some word) →
          word ≠ [] ∧ ∀ c ∈ word, isSpace c = false ∧ c ≠ 60 ∧ c ≠ 62 ∧ c ≠ 124) ∧
        ∃ rs : List (Run UInt8), rs.Pairwise (fun r r' => r.before.length < r'.before.length) ∧
          (∀ r, r ∈ rs ↔ r.IsMaximal isWordByte segment ∧ ¬ AfterOperator r.before ∧
            ¬ (r.word = text "2" ∧ r.after.head? = some 62)) ∧
          words = (rs.map Run.word).take (parserMaxArgs - 1) := by
  obtain ⟨r, hparse, hparsed⟩ := parserParse_parsed malloc input
  refine ⟨r, hparse, fun cmd hcmd => ?_⟩
  obtain ⟨rest, hrest, hshows⟩ := hparsed.shows cmd hcmd
  rw [List.nil_append] at hshows
  refine ⟨?_, fun i hi => ?_⟩
  · have hlen := congrArg List.length (readStages_eq_some.mp hrest)
    rw [List.length_map, List.length_map, List.length_take] at hlen
    rw [hshows.count, List.length_map, ← hlen]
    exact Nat.min_le_left _ _
  · obtain ⟨stage, s, hstage, hs, hshown⟩ := hshows.stage hi
    rw [List.getElem?_map] at hs
    obtain ⟨whole, hwhole, rfl⟩ := Option.map_eq_some_iff.mp hs
    obtain ⟨segment, hsegment, hread⟩ := readStages_getElem? hrest hwhole
    refine ⟨stage, segment, whole.cut.args, hstage, hsegment, Nat.le_sub_one_of_lt hshown.fits,
      hshown.argv, fun word hword => ?_, argumentRuns segment, argumentRuns_pairwise segment,
      fun r => mem_argumentRuns, ?_⟩
    · have hmem : word ∈ whole.args ∨ ∃ kind, whole.files kind = some word := by
        obtain harg | ⟨kind, hfile⟩ := hword
        · exact .inl (List.mem_of_mem_take harg)
        · exact .inr ⟨kind, (hshown.files kind).symm.trans hfile⟩
      obtain ⟨hne, hclean⟩ := readStage_words hread hmem
      refine ⟨hne, fun c hc => ?_⟩
      obtain ⟨hbyte, hin⟩ := hclean c hc
      have hpipe : c ≠ 124 := by
        rintro rfl
        exact pipe_not_mem_segment (List.mem_of_getElem? hsegment) hin
      obtain ⟨hspace, h60, h62⟩ := isWordByte_iff.mp hbyte
      exact ⟨hspace, h60, h62, hpipe⟩
    · rw [← readStage_args hread]
      rfl

end RunnerOrchestrator
