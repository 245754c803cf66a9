import RunnerOrchestrator.Runner.Grammar
import Mathlib.Data.List.Forall2

/-! # The parser refines the grammar

Whatever `malloc` answers, every round of `parse_stage` stays inside `argv`, and a
stage that is accepted shows the grammar's stage for its segment, cut to the size of
`argv`. Without a failing `malloc` a stage is accepted whenever the grammar reads it.
-/

namespace RunnerOrchestrator

/-- The argv of the stage are the words of `s` and then NULLs only, its targets those of `s`. -/
structure CommandStage.Shows (stage : CommandStage) (s : Stage) : Prop where
  fits : s.args.length < parserMaxArgs
  argv : stage.argv.map (Option.map Token.text) =
    s.args.map some ++ List.replicate (parserMaxArgs - s.args.length) none
  files : ∀ kind, (stage.target kind).map Token.text = s.files kind

/-- The stages before `stage_count` are those of `pipeline`, one for one. -/
structure ParsedCommand.Shows (cmd : ParsedCommand) (pipeline : List Stage) : Prop where
  count : parserGetStageCount cmd = pipeline.length
  stages : List.Forall₂ CommandStage.Shows (cmd.stages.take cmd.stageCount) pipeline

/-! ## Writing to a stage -/

theorem RedirectTarget.forall_iff {P : RedirectTarget → Prop} :
    (∀ kind, P kind) ↔ P .inputFile ∧ P .outputFile ∧ P .errorFile := by
  refine ⟨fun h => ⟨h _, h _, h _⟩, fun h kind => ?_⟩
  cases kind with
  | inputFile => exact h.1
  | outputFile => exact h.2.1
  | errorFile => exact h.2.2

@[simp] theorem CommandStage.setTarget_argv (stage : CommandStage) (target : RedirectTarget)
    (token : Token) : (stage.setTarget target token).argv = stage.argv := by
  cases target <;> rfl

theorem CommandStage.setTarget_target (stage : CommandStage) (target kind : RedirectTarget)
    (token : Token) : (stage.setTarget target token).target kind =
      if target = kind then some token else stage.target kind := by
  cases target <;> cases kind <;> rfl

theorem CommandStage.zero_shows : CommandStage.zero.Shows (stageOf []).cut :=
  ⟨by decide, by decide, fun kind => by cases kind <;> rfl⟩

/-- Writing the first free slot of an array that is filled from the front. -/
theorem set_filled {α : Type} (filled : List α) (free : Nat) (blank value : α) :
    (filled ++ List.replicate (free + 1) blank).set filled.length value =
      filled ++ value :: List.replicate free blank := by
  rw [List.set_append_right _ _ (Nat.le_refl _), Nat.sub_self, List.replicate_succ, List.set_cons_zero]

namespace CommandStage.Shows

variable {stage : CommandStage} {s : Stage}

theorem argv_length (h : stage.Shows s) : stage.argv.length = parserMaxArgs := by
  have hlen := congrArg List.length h.argv
  have hfits := h.fits
  simp only [List.length_map, List.length_append, List.length_replicate] at hlen
  omega

theorem setArg_eq (h : stage.Shows s) (value : Option Token) :
    stage.setArg s.args.length value =
      some { stage with argv := stage.argv.set s.args.length value } := by
  unfold CommandStage.setArg
  rw [if_pos (by rw [h.argv_length]; exact h.fits)]

theorem argv_set (h : stage.Shows s) (value : Option Token) :
    (stage.argv.set s.args.length value).map (Option.map Token.text) =
      s.args.map some ++ value.map Token.text ::
        List.replicate (parserMaxArgs - s.args.length - 1) none := by
  have hfits := h.fits
  have hfree : parserMaxArgs - s.args.length = parserMaxArgs - s.args.length - 1 + 1 := by omega
  have hset := set_filled (s.args.map some) (parserMaxArgs - s.args.length - 1)
    (none : Option CString) (value.map Token.text)
  rw [List.length_map, ← hfree] at hset
  rw [List.map_set, h.argv, hset]

/-- The terminator falls on a slot that is NULL already. -/
theorem terminated (h : stage.Shows s) :
    CommandStage.Shows { stage with argv := stage.argv.set s.args.length none } s := by
  refine ⟨h.fits, ?_, h.files⟩
  have hfits := h.fits
  have hfree : parserMaxArgs - s.args.length = parserMaxArgs - s.args.length - 1 + 1 := by omega
  rw [h.argv_set none, hfree, List.replicate_succ]
  rfl

theorem redirected {done : List Item} (h : stage.Shows (stageOf done).cut)
    (target : RedirectTarget) (token : Token) :
    (stage.setTarget target token).Shows
      (stageOf (done ++ [.redirect target token.text])).cut := by
  have hargs := stageOf_args_snoc_redirect done target token.text
  refine ⟨?_, ?_, fun kind => ?_⟩
  · simpa [Stage.cut, hargs] using h.fits
  · simpa [Stage.cut, hargs] using h.argv
  · have hfiles := h.files kind
    simp only [Stage.cut] at hfiles ⊢
    rw [CommandStage.setTarget_target, stageOf_files_snoc_redirect]
    split
    · rfl
    · exact hfiles

/-- An argument that still has a slot is stored. -/
theorem argued {done : List Item} (h : stage.Shows (stageOf done).cut) (token : Token)
    (hroom : (stageOf done).cut.args.length < parserMaxArgs - 1) :
    CommandStage.Shows
      { stage with argv := stage.argv.set (stageOf done).cut.args.length (some token) }
      (stageOf (done ++ [.arg token.text])).cut := by
  have hlt : (stageOf done).args.length < parserMaxArgs - 1 := by
    simp only [Stage.cut, List.length_take] at hroom
    omega
  have hcut : (stageOf done).cut = stageOf done := Stage.cut_of_le (Nat.le_of_lt hlt)
  have hargs := stageOf_args_snoc_arg done token.text
  have hcut' : (stageOf (done ++ [.arg token.text])).cut = stageOf (done ++ [.arg token.text]) :=
    Stage.cut_of_le (by rw [hargs, List.length_append]; exact hlt)
  rw [hcut] at h ⊢
  rw [hcut']
  refine ⟨?_, ?_, fun kind => ?_⟩
  · rw [hargs, List.length_append]
    simp only [List.length_singleton]
    omega
  · rw [h.argv_set (some token), hargs, List.map_append, List.length_append, Nat.sub_sub]
    simp
  · rw [stageOf_files_snoc_arg]
    exact h.files kind

/-- An argument beyond the last slot is dropped, and the cut stage does not hold it. -/
theorem dropped {done : List Item} (h : stage.Shows (stageOf done).cut) (word : CString)
    (hfull : ¬ (stageOf done).cut.args.length < parserMaxArgs - 1) :
    stage.Shows (stageOf (done ++ [.arg word])).cut := by
  have hcut : (stageOf (done ++ [.arg word])).cut = (stageOf done).cut := by
    have hle : parserMaxArgs - 1 ≤ (stageOf done).args.length := by
      simp only [Stage.cut, List.length_take] at hfull
      omega
    unfold Stage.cut
    rw [stageOf_args_snoc_arg, stageOf_files_snoc_arg, List.take_append_of_le_length hle]
  rw [hcut]
  exact h

end CommandStage.Shows

/-! ## Parsing a stage -/

/-- `parse_stage` against the items that the grammar reads behind those `done` before. -/
structure StageParsed (malloc : Nat → Bool) (done : List Item) (items : Option (List Item))
    (r : Bool × CommandStage × Ledger) : Prop where
  shows : r.1 = true → ∃ rest, items = some rest ∧ r.2.1.Shows (stageOf (done ++ rest)).cut
  accepted : (∀ n, malloc n = true) → items.isSome → r.1 = true

section Stage

variable {malloc : Nat → Bool} {done : List Item}

theorem StageParsed.cons {item : Item} {items : Option (List Item)}
    {r : Bool × CommandStage × Ledger} (h : StageParsed malloc (done ++ [item]) items r) :
    StageParsed malloc done (items.map (item :: ·)) r := by
  refine ⟨fun hok => ?_, fun hm hsome => h.accepted hm (by simpa using hsome)⟩
  obtain ⟨rest, hrest, hshows⟩ := h.shows hok
  refine ⟨item :: rest, by rw [hrest]; rfl, ?_⟩
  simpa using hshows

theorem StageParsed.rejected {stage : CommandStage} {l : Ledger} :
    StageParsed malloc done none (false, stage, l) :=
  ⟨fun hok => (nomatch hok), fun _ hsome => (nomatch hsome)⟩

theorem StageParsed.out_of_memory {items : Option (List Item)} {stage : CommandStage}
    {l : Ledger} {n : Nat} (hfail : malloc n = false) :
    StageParsed malloc done items (false, stage, l) :=
  ⟨fun hok => (nomatch hok), fun hm => by simp [hm n] at hfail⟩

/-- The ledger after a `malloc` that succeeds, and whose result is a token. -/
def Ledger.allocate (l : Ledger) : Ledger :=
  { l with mallocs := l.mallocs + 1, allocated := l.allocated ++ [l.mallocs] }

/-- The ways `parse_token` goes: there is no word, no memory, or a token with the word. -/
theorem parseToken_cases (malloc : Nat → Bool) (cursor : CString) (l : Ledger) :
    (wordAt cursor = none ∧ parseToken malloc cursor l = (none, l)) ∨
    (malloc l.mallocs = false ∧
      parseToken malloc cursor l = (none, { l with mallocs := l.mallocs + 1 })) ∨
    ∃ word rest, wordAt cursor = some (word, rest) ∧
      parseToken malloc cursor l = (some (⟨l.mallocs, word⟩, rest), l.allocate) := by
  rw [parseToken_eq]
  cases hword : wordAt cursor with
  | none => exact .inl ⟨rfl, rfl⟩
  | some w =>
      cases hm : malloc l.mallocs with
      | false => exact .inr (.inl ⟨rfl, by simp [duplicateRange, hm]⟩)
      | true => exact .inr (.inr ⟨w.1, w.2, rfl, by simp [duplicateRange, hm, Ledger.allocate]⟩)

/-- Where the token of a round goes: to the stage that results, and what is freed for it. -/
inductive Stores (stage : CommandStage) (argc : Nat) (token : Token) :
    Item → CommandStage → Option Token → Prop
  | target (kind : RedirectTarget) :
      Stores stage argc token (.redirect kind token.text) (stage.setTarget kind token)
        (stage.target kind)
  | argument (hroom : argc < parserMaxArgs - 1) :
      Stores stage argc token (.arg token.text)
        { stage with argv := stage.argv.set argc (some token) } none
  | beyond (hfull : ¬ argc < parserMaxArgs - 1) :
      Stores stage argc token (.arg token.text) stage (some token)

theorem Stores.shows {stage stage' : CommandStage} {token : Token} {item : Item}
    {freed : Option Token}
    (h : Stores stage (stageOf done).cut.args.length token item stage' freed)
    (hshows : stage.Shows (stageOf done).cut) : stage'.Shows (stageOf (done ++ [item])).cut := by
  cases h with
  | target kind => exact hshows.redirected kind token
  | argument hroom => exact hshows.argued token hroom
  | beyond hfull => exact hshows.dropped token.text hfull

theorem cut_args_length_snoc_arg (done : List Item) (word : CString) :
    (stageOf (done ++ [.arg word])).cut.args.length =
      if (stageOf done).cut.args.length < parserMaxArgs - 1 then
        (stageOf done).cut.args.length + 1
      else (stageOf done).cut.args.length := by
  simp only [Stage.cut, stageOf_args_snoc_arg, List.length_take, List.length_append,
    List.length_singleton]
  split <;> omega

/-- What a round does that finds something to read: it ends the loop with -1 for want
of a word or of memory, or it stores the token of one item and goes on behind that. -/
theorem parseStageLoop_step (fuel : Nat) {cursor : CString} {stage : CommandStage} (l : Ledger)
    (hne : skipSpaces cursor ≠ []) (hshows : stage.Shows (stageOf done).cut) :
    (∃ l', (itemAt (skipSpaces cursor) = none ∧ l' = l ∨
        malloc l.mallocs = false ∧ l' = { l with mallocs := l.mallocs + 1 }) ∧
      parseStageLoop malloc (fuel + 1) cursor (stageOf done).cut.args.length stage l =
        some (false, stage, l')) ∨
    ∃ item rest stage' freed, itemAt (skipSpaces cursor) = some (item, rest) ∧
      Stores stage (stageOf done).cut.args.length ⟨l.mallocs, item.word⟩ item stage' freed ∧
      parseStageLoop malloc (fuel + 1) cursor (stageOf done).cut.args.length stage l =
        parseStageLoop malloc fuel rest (stageOf (done ++ [item])).cut.args.length stage'
          (l.allocate.free freed) := by
  unfold itemAt
  rw [parseStageLoop]
  simp only [hne, if_false]
  cases hop : operatorAt (skipSpaces cursor) with
  | some after =>
      simp only
      obtain ⟨hword, htoken⟩ | ⟨hfail, htoken⟩ | ⟨word, rest, hword, htoken⟩ :=
        parseToken_cases malloc after.2 l
      · rw [htoken, hword]
        exact .inl ⟨l, .inl ⟨rfl, rfl⟩, rfl⟩
      · rw [htoken]
        exact .inl ⟨_, .inr ⟨hfail, rfl⟩, rfl⟩
      · have hargs := stageOf_args_snoc_redirect done after.1 word
        rw [htoken, hword]
        refine .inr ⟨_, rest, _, _, rfl, .target after.1, ?_⟩
        simp only [Stage.cut, hargs]
        rfl
  | none =>
      simp only
      obtain ⟨hword, htoken⟩ | ⟨hfail, htoken⟩ | ⟨word, rest, hword, htoken⟩ :=
        parseToken_cases malloc (skipSpaces cursor) l
      · rw [htoken, hword]
        exact .inl ⟨l, .inl ⟨rfl, rfl⟩, rfl⟩
      · rw [htoken]
        exact .inl ⟨_, .inr ⟨hfail, rfl⟩, rfl⟩
      · rw [htoken, hword]
        by_cases hroom : (stageOf done).cut.args.length < parserMaxArgs - 1
        · refine .inr ⟨_, rest, _, _, rfl, .argument hroom, ?_⟩
          simp only [hroom, if_true, hshows.setArg_eq, cut_args_length_snoc_arg]
          rfl
        · refine .inr ⟨_, rest, _, _, rfl, .beyond hroom, ?_⟩
          simp only [hroom, if_false, cut_args_length_snoc_arg]
          rfl

/-- By induction on the fuel; the consumed items carry what the stage shows so far. -/
theorem parseStageLoop_parsed {fuel : Nat} {cursor : CString} {stage : CommandStage}
    (l : Ledger) (hfuel : cursor.length < fuel) (hshows : stage.Shows (stageOf done).cut) :
    ∃ r, parseStageLoop malloc fuel cursor (stageOf done).cut.args.length stage l = some r ∧
      StageParsed malloc done (itemsOf cursor) r := by
  induction fuel generalizing cursor stage l done with
  | zero => omega
  | succ fuel ih =>
      by_cases hblank : skipSpaces cursor = []
      · rw [parseStageLoop, itemsOf_blank hblank]
        simp only [hblank, if_true, hshows.setArg_eq none]
        exact ⟨_, rfl, fun _ => ⟨[], rfl, by simpa using hshows.terminated⟩, fun _ _ => rfl⟩
      · rw [itemsOf_item hblank]
        obtain ⟨l', hwhy, hloop⟩ | ⟨item, rest, stage', freed, hitem, hstores, hloop⟩ :=
          parseStageLoop_step fuel l hblank hshows
        · refine ⟨_, hloop, ?_⟩
          obtain ⟨hnone, -⟩ | ⟨hfail, -⟩ := hwhy
          · rw [hnone]
            exact .rejected
          · exact .out_of_memory hfail
        · have hlt := length_of_itemAt hitem
          have hle := length_skipSpaces_le cursor
          obtain ⟨r, hr, hparsed⟩ :=
            ih _ (Nat.lt_of_lt_of_le hlt (by omega)) (hstores.shows hshows)
          rw [hloop, hitem]
          exact ⟨r, hr, hparsed.cons⟩

theorem parseStage_parsed (malloc : Nat → Bool) (segment : CString) (l : Ledger) :
    ∃ r, parseStage malloc .zero segment l = some r ∧
      StageParsed malloc [] (itemsOf segment) r :=
  parseStageLoop_parsed l (Nat.lt_succ_self _) CommandStage.zero_shows

end Stage

/-! ## Parsing a command -/

/-- The accessors find each stage that is counted, and it shows its stage of the pipeline. -/
theorem ParsedCommand.Shows.stage {cmd : ParsedCommand} {pipeline : List Stage}
    (h : cmd.Shows pipeline) {i : Nat} (hi : i < parserGetStageCount cmd) :
    ∃ stage s, cmd.stage? i = some stage ∧ pipeline[i]? = some s ∧ stage.Shows s := by
  have hlen : i < pipeline.length := h.count ▸ hi
  have hbuilt : i < (cmd.stages.take cmd.stageCount).length := h.stages.length_eq ▸ hlen
  have hshows := h.stages.get hbuilt hlen
  rw [List.get_eq_getElem, List.get_eq_getElem, List.getElem_take] at hshows
  refine ⟨_, _, ?_, List.getElem?_eq_getElem hlen, hshows⟩
  exact (if_pos hi).trans (List.getElem?_eq_getElem _)

/-- A command under construction: the stages of `pipeline`, then `left` empty ones. -/
structure ParsedCommand.Holds (parsed : ParsedCommand) (pipeline : List Stage) (left : Nat) :
    Prop where
  count : parsed.stageCount = pipeline.length
  stages : ∃ built, parsed.stages = built ++ List.replicate left CommandStage.zero ∧
    List.Forall₂ CommandStage.Shows built pipeline

theorem ParsedCommand.zero_holds : ParsedCommand.zero.Holds [] parserMaxStages :=
  ⟨rfl, [], rfl, .nil⟩

namespace ParsedCommand.Holds

variable {parsed : ParsedCommand} {pipeline : List Stage} {left : Nat}

theorem split (h : parsed.Holds pipeline left) :
    ∃ built, parsed.stageCount = built.length ∧
      parsed.stages = built ++ List.replicate left CommandStage.zero ∧
      List.Forall₂ CommandStage.Shows built pipeline := by
  obtain ⟨built, hstages, hbuilt⟩ := h.stages
  exact ⟨built, h.count.trans hbuilt.length_eq.symm, hstages, hbuilt⟩

theorem shows (h : parsed.Holds pipeline left) : parsed.Shows pipeline := by
  obtain ⟨built, hlen, hstages, hbuilt⟩ := h.split
  refine ⟨h.count, ?_⟩
  rw [hstages, hlen, List.take_left]
  exact hbuilt

theorem next (h : parsed.Holds pipeline (left + 1)) :
    parsed.stages[parsed.stageCount]? = some CommandStage.zero := by
  obtain ⟨built, hlen, hstages, hbuilt⟩ := h.split
  rw [hstages, hlen, List.getElem?_append_right (Nat.le_refl _), Nat.sub_self,
    List.replicate_succ]
  rfl

theorem push (h : parsed.Holds pipeline (left + 1)) {stage : CommandStage} {s : Stage}
    (hshows : stage.Shows s) :
    ParsedCommand.Holds ⟨parsed.stageCount + 1, parsed.stages.set parsed.stageCount stage⟩
      (pipeline ++ [s]) left := by
  obtain ⟨built, hlen, hstages, hbuilt⟩ := h.split
  refine ⟨?_, built ++ [stage], ?_, List.rel_append hbuilt (.cons hshows .nil)⟩
  · simp only [h.count, List.length_append, List.length_singleton]
  · simp only [hstages, hlen, set_filled, List.append_assoc, List.singleton_append]

end ParsedCommand.Holds

/-- `parser_parse` against the stages that the grammar reads behind those of `pipeline`. -/
structure CommandParsed (malloc : Nat → Bool) (pipeline : List Stage)
    (stages : Option (List Stage)) (r : Option ParsedCommand × Ledger) : Prop where
  shows : ∀ cmd, r.1 = some cmd →
    ∃ rest, stages = some rest ∧ cmd.Shows (pipeline ++ rest.map Stage.cut)
  accepted : (∀ n, malloc n = true) → stages.isSome → r.1.isSome

theorem CommandParsed.cons {malloc : Nat → Bool} {pipeline : List Stage} {s : Stage}
    {stages : Option (List Stage)} {r : Option ParsedCommand × Ledger}
    (h : CommandParsed malloc (pipeline ++ [s.cut]) stages r) :
    CommandParsed malloc pipeline (stages.map (s :: ·)) r := by
  refine ⟨fun cmd hcmd => ?_, fun hm hsome => h.accepted hm (by simpa using hsome)⟩
  obtain ⟨rest, hrest, hshows⟩ := h.shows cmd hcmd
  refine ⟨s :: rest, by rw [hrest]; rfl, ?_⟩
  simpa using hshows

/-- By induction on the stages still free. -/
theorem parseStages_parsed (malloc : Nat → Bool) {left : Nat} {save : CString}
    {parsed : ParsedCommand} {pipeline : List Stage} (l : Ledger)
    (h : parsed.Holds pipeline left) :
    ∃ r, parseStages malloc left save parsed l = some r ∧
      CommandParsed malloc pipeline (readStages left save) r := by
  induction left generalizing save parsed pipeline l with
  | zero =>
      rw [readStages_zero]
      refine ⟨_, rfl, fun cmd hcmd => ⟨[], rfl, ?_⟩, fun _ _ => rfl⟩
      cases hcmd
      simpa using h.shows
  | succ left ih =>
      rw [readStages_succ, parseStages]
      cases strtokR save with
      | none =>
          refine ⟨_, rfl, fun cmd hcmd => ⟨[], rfl, ?_⟩, fun _ _ => rfl⟩
          cases hcmd
          simpa using h.shows
      | some r =>
          obtain ⟨segment, save⟩ := r
          obtain ⟨⟨ok, stage, l'⟩, hstage, hparsed⟩ := parseStage_parsed malloc segment l
          simp only [h.next, hstage, readStage]
          cases ok with
          | false =>
              refine ⟨_, rfl, fun cmd hcmd => (nomatch hcmd), fun hm hsome => ?_⟩
              have hok := hparsed.accepted hm
              cases hitems : itemsOf segment with
              | none => simp [hitems] at hsome
              | some items => simp [hitems] at hok
          | true =>
              obtain ⟨items, hitems, hshows⟩ := hparsed.shows rfl
              obtain ⟨r, hr, hrest⟩ := ih l' (h.push hshows)
              rw [hitems]
              exact ⟨r, hr, hrest.cons⟩

/-- Every access of the parser is inside its arrays, the command it returns shows the
stages of the grammar, and only a failing `malloc` makes it reject what the grammar reads. -/
theorem parserParse_parsed (malloc : Nat → Bool) (input : CString) :
    ∃ r, parserParse malloc input = some r ∧
      CommandParsed malloc [] (readStages parserMaxStages (bounded parserInputBuffer input)) r := by
  unfold parserParse
  cases hm : malloc 0 with
  | false =>
      refine ⟨_, rfl, fun cmd hcmd => (nomatch hcmd), fun hall => ?_⟩
      rw [hall 0] at hm
      cases hm
  | true => exact parseStages_parsed malloc _ ParsedCommand.zero_holds

end RunnerOrchestrator
