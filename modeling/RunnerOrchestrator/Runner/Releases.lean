import RunnerOrchestrator.Foundation.Custody
import RunnerOrchestrator.Runner.Acceptance

/-! # Who frees the tokens

A token is held by the stage that it is stored in until it is freed. A command that is
returned holds all of them, and `parser_destroy` frees them. A stage that is rejected
is not counted yet when `parser_destroy` runs, so what it holds is lost.
-/

namespace RunnerOrchestrator

/-! ## What a stage holds -/

/-- The numbers of the tokens in some slots. -/
def tokenIds (slots : List (Option Token)) : List Nat :=
  slots.flatMap fun slot => (slot.map Token.id).toList

def CommandStage.held (stage : CommandStage) : List Nat :=
  tokenIds stage.argv ++ tokenIds [stage.inputFile, stage.outputFile, stage.errorFile]

/-- The tokens not freed so far are those of `held`. -/
def Ledger.Holds (l : Ledger) (held : List Nat) : Prop :=
  Custody l.mallocs l.allocated l.freed held

/-- Every token has been freed exactly once. -/
def Ledger.Released (l : Ledger) : Prop := ∀ id ∈ l.allocated, l.freed.count id = 1

@[simp] theorem tokenIds_nil : tokenIds [] = [] := rfl

@[simp] theorem tokenIds_append (xs ys : List (Option Token)) :
    tokenIds (xs ++ ys) = tokenIds xs ++ tokenIds ys :=
  List.flatMap_append

theorem tokenIds_cons (x : Option Token) (xs : List (Option Token)) :
    tokenIds (x :: xs) = (x.map Token.id).toList ++ tokenIds xs :=
  List.flatMap_cons

@[simp] theorem tokenIds_replicate (n : Nat) : tokenIds (List.replicate n none) = [] := by
  simp [tokenIds]

theorem tokenIds_map_some (tokens : List Token) :
    tokenIds (tokens.map some) = tokens.map Token.id := by
  induction tokens with
  | nil => rfl
  | cons token tokens ih =>
      rw [List.map_cons, tokenIds_cons, ih]
      rfl

theorem Ledger.free_eq (l : Ledger) (token : Option Token) :
    l.free token = { l with freed := l.freed ++ tokenIds [token] } := by
  cases token <;> simp [Ledger.free, tokenIds]

theorem foldl_free (slots : List (Option Token)) (l : Ledger) :
    slots.foldl Ledger.free l = { l with freed := l.freed ++ tokenIds slots } := by
  induction slots generalizing l with
  | nil => simp [tokenIds]
  | cons slot slots ih =>
      rw [List.foldl_cons, ih, Ledger.free_eq]
      simp [tokenIds]

/-! ## Stages filled from the front -/

theorem exists_map_some {slots : List (Option Token)} {words : List CString}
    (h : slots.map (Option.map Token.text) = words.map some) :
    ∃ tokens : List Token, slots = tokens.map some ∧ tokens.map Token.text = words := by
  induction words generalizing slots with
  | nil => exact ⟨[], by simpa using h, rfl⟩
  | cons word words ih =>
      obtain ⟨slot, rest, rfl, hslot, hrest⟩ := List.map_eq_cons_iff.mp h
      obtain ⟨tokens, rfl, rfl⟩ := ih hrest
      obtain ⟨token, rfl, rfl⟩ := Option.map_eq_some_iff.mp hslot
      exact ⟨token :: tokens, rfl, rfl⟩

namespace CommandStage.Shows

variable {stage : CommandStage} {s : Stage}

/-- The tokens of argv, and the free slots behind them. -/
theorem filled (h : stage.Shows s) : ∃ (tokens : List Token) (free : Nat),
    tokens.map Token.text = s.args ∧
      stage.argv = tokens.map some ++ List.replicate (free + 1) none := by
  have hfits := h.fits
  obtain ⟨front, back, hargv, hfront, hback⟩ := List.map_eq_append_iff.mp h.argv
  obtain ⟨tokens, rfl, htexts⟩ := exists_map_some hfront
  refine ⟨tokens, parserMaxArgs - s.args.length - 1, htexts, ?_⟩
  have hnone : ∀ slot ∈ back, slot = none := fun slot hslot => by
    have hmem : slot.map Token.text ∈ back.map (Option.map Token.text) := List.mem_map_of_mem hslot
    rw [hback] at hmem
    simpa using List.eq_of_mem_replicate hmem
  have hlen := congrArg List.length hback
  rw [List.length_map, List.length_replicate] at hlen
  rw [hargv, List.eq_replicate_of_mem hnone, hlen]
  congr 2
  omega

theorem set_none (h : stage.Shows s) : stage.argv.set s.args.length none = stage.argv := by
  obtain ⟨tokens, free, htexts, hargv⟩ := h.filled
  have hlen : s.args.length = (tokens.map some).length := by simp [← htexts]
  rw [hargv, hlen, set_filled, List.replicate_succ]

/-- `parser_destroy` frees what the stage holds. -/
theorem destroyStage_eq (h : stage.Shows s) (l : Ledger) :
    destroyStage stage l = { l with freed := l.freed ++ stage.held } := by
  obtain ⟨tokens, free, -, hargv⟩ := h.filled
  have htake : stage.argv.takeWhile Option.isSome = tokens.map some := by
    rw [hargv, List.takeWhile_append_of_pos (by simp)]
    simp [List.replicate_succ]
  have hids : tokenIds stage.argv = tokenIds (tokens.map some) := by simp [hargv]
  unfold destroyStage CommandStage.held
  rw [htake, foldl_free, hids]
  simp [Ledger.free_eq, tokenIds]

theorem targets_eq_nil (stage : CommandStage) :
    tokenIds [stage.inputFile, stage.outputFile, stage.errorFile] = [] ↔
      ∀ kind, stage.target kind = none := by
  simp only [RedirectTarget.forall_iff, CommandStage.target, tokenIds_cons, tokenIds_nil,
    List.append_eq_nil_iff, Option.toList_eq_nil_iff, Option.map_eq_none_iff, and_true]

/-- A stage that shows any item holds a token. -/
theorem held_eq_nil {done : List Item} (h : stage.Shows (stageOf done).cut) :
    stage.held = [] ↔ done = [] := by
  obtain ⟨tokens, free, htexts, hargv⟩ := h.filled
  have hheld : stage.held =
      tokens.map Token.id ++ tokenIds [stage.inputFile, stage.outputFile, stage.errorFile] := by
    simp [CommandStage.held, hargv, tokenIds_map_some]
  have hargs : tokens = [] ↔ (stageOf done).cut.args = [] := by
    rw [← htexts, List.map_eq_nil_iff]
  have hfiles : ∀ kind, stage.target kind = none ↔ (stageOf done).cut.files kind = none :=
    fun kind => by rw [← h.files kind, Option.map_eq_none_iff]
  rw [hheld, List.append_eq_nil_iff, List.map_eq_nil_iff, targets_eq_nil, hargs,
    forall_congr' hfiles, ← cut_eq_empty]
  constructor
  · rintro ⟨hnil, hnone⟩
    exact congrArg₂ Stage.mk hnil (funext hnone)
  · intro heq
    rw [heq]
    exact ⟨rfl, fun _ => rfl⟩

end CommandStage.Shows

/-- The token of a round is stored, or freed, and then it was the only one of the round. -/
theorem Stores.held {done : List Item} {stage stage' : CommandStage} {token : Token} {item : Item}
    {freed : Option Token}
    (h : Stores stage (stageOf done).cut.args.length token item stage' freed)
    (hshows : stage.Shows (stageOf done).cut) :
    (token.id :: stage.held).Perm (tokenIds [freed] ++ stage'.held) := by
  rw [List.perm_iff_count]
  intro id
  cases h with
  | target kind =>
      cases kind <;>
        simp only [CommandStage.held, CommandStage.setTarget, CommandStage.target, tokenIds_cons,
          List.count_append, List.count_cons, Option.map_some, Option.toList_some] <;>
        simp <;> omega
  | argument hroom =>
      obtain ⟨tokens, free, htexts, hargv⟩ := hshows.filled
      have hlen : (stageOf done).cut.args.length = (tokens.map some).length := by simp [← htexts]
      have hset := set_filled (tokens.map some) free none (some token)
      rw [← hargv, ← hlen] at hset
      have hids : tokenIds stage.argv = tokens.map Token.id := by
        simp [hargv, tokenIds_map_some]
      simp only [CommandStage.held, hset, hids, tokenIds_append, tokenIds_map_some, tokenIds_cons,
        tokenIds_replicate, List.count_append, List.count_cons, Option.map_some, Option.toList_some]
      simp
      omega
  | beyond hfull => simp [tokenIds]

/-! ## Parsing a stage -/

/-- `parse_stage` from `cursor` on, behind the items `done` and with `others` held elsewhere. -/
structure StageAccounted (malloc : Nat → Bool) (done : List Item) (cursor : CString)
    (others : List Nat) (r : Bool × CommandStage × Ledger) : Prop where
  held : r.2.2.Holds (r.2.1.held ++ others)
  rejected : r.1 = false → (∀ n < r.2.2.mallocs, malloc n = true) →
    itemsOf cursor = none ∧
      (r.2.1.held = [] ↔ done = [] ∧ itemAt (skipSpaces cursor) = none)

section Stage

variable {malloc : Nat → Bool} {done : List Item} {others : List Nat}

theorem StageAccounted.cons {item : Item} {cursor rest : CString}
    {r : Bool × CommandStage × Ledger} (h : StageAccounted malloc (done ++ [item]) rest others r)
    (hne : skipSpaces cursor ≠ []) (hitem : itemAt (skipSpaces cursor) = some (item, rest)) :
    StageAccounted malloc done cursor others r := by
  refine ⟨h.held, fun hok hm => ?_⟩
  obtain ⟨hnone, hheld⟩ := h.rejected hok hm
  refine ⟨?_, ?_⟩
  · rw [itemsOf_item hne, hitem, Option.bind_some, hnone]
    rfl
  · rw [hheld, hitem]
    simp

/-- By induction on the fuel: in every round the token goes into the stage or is freed. -/
theorem parseStageLoop_accounted {fuel : Nat} {cursor : CString} {stage : CommandStage}
    {l : Ledger} (hfuel : cursor.length < fuel) (hshows : stage.Shows (stageOf done).cut)
    (hholds : l.Holds (stage.held ++ others)) :
    ∃ r, parseStageLoop malloc fuel cursor (stageOf done).cut.args.length stage l = some r ∧
      StageAccounted malloc done cursor others r := by
  induction fuel generalizing cursor stage l done with
  | zero => omega
  | succ fuel ih =>
      by_cases hblank : skipSpaces cursor = []
      · rw [parseStageLoop]
        simp only [hblank, if_true, hshows.setArg_eq none, hshows.set_none]
        exact ⟨_, rfl, hholds, fun hok => by cases hok⟩
      · obtain ⟨l', hwhy, hloop⟩ | ⟨item, rest, stage', freed, hitem, hstores, hloop⟩ :=
          parseStageLoop_step fuel l hblank hshows
        · refine ⟨_, hloop, ?_⟩
          obtain ⟨hnone, rfl⟩ | ⟨hfail, rfl⟩ := hwhy
          · refine ⟨hholds, fun _ _ => ⟨?_, ?_⟩⟩
            · rw [itemsOf_item hblank, hnone]
              rfl
            · rw [hshows.held_eq_nil, and_iff_left hnone]
          · refine ⟨hholds.skip, fun _ hm => ?_⟩
            rw [hm l.mallocs (Nat.lt_succ_self _)] at hfail
            cases hfail
        · have hlt := length_of_itemAt hitem
          have hle := length_skipSpaces_le cursor
          have hgiven := hholds.allocate.transfer ((hstores.held hshows).append_right others)
          rw [List.append_assoc] at hgiven
          have hnext : (l.allocate.free freed).Holds (stage'.held ++ others) := by
            rw [Ledger.free_eq]
            exact hgiven.release
          obtain ⟨r, hr, haccount⟩ :=
            ih (Nat.lt_of_lt_of_le hlt (by omega)) (hstores.shows hshows) hnext
          exact ⟨r, hloop.trans hr, haccount.cons hblank hitem⟩

theorem parseStage_accounted (malloc : Nat → Bool) (segment : CString) {l : Ledger}
    (hholds : l.Holds others) :
    ∃ r, parseStage malloc .zero segment l = some r ∧
      StageAccounted malloc [] segment others r :=
  parseStageLoop_accounted (Nat.lt_succ_self _) CommandStage.zero_shows hholds

end Stage

/-! ## Parsing a command -/

def ParsedCommand.held (cmd : ParsedCommand) : List Nat :=
  (cmd.stages.take cmd.stageCount).flatMap CommandStage.held

theorem foldl_destroyStage {stages : List CommandStage} {pipeline : List Stage}
    (h : List.Forall₂ CommandStage.Shows stages pipeline) (l : Ledger) :
    stages.foldl (fun l stage => destroyStage stage l) l =
      { l with freed := l.freed ++ stages.flatMap CommandStage.held } := by
  induction h generalizing l with
  | nil => simp
  | cons hstage _ ih =>
      rw [List.foldl_cons, hstage.destroyStage_eq, ih, List.flatMap_cons, List.append_assoc]

/-- `parser_destroy` frees what the counted stages hold. -/
theorem ParsedCommand.Shows.parserDestroy_eq {cmd : ParsedCommand} {pipeline : List Stage}
    (h : cmd.Shows pipeline) (l : Ledger) :
    parserDestroy cmd l = { l with freed := l.freed ++ cmd.held } :=
  foldl_destroyStage h.stages l

/-- Nothing is left of a command that has been destroyed. -/
theorem ParsedCommand.Shows.destroyed {cmd : ParsedCommand} {pipeline : List Stage}
    (h : cmd.Shows pipeline) {l : Ledger} (hholds : l.Holds cmd.held) :
    (parserDestroy cmd l).Holds [] := by
  rw [h.parserDestroy_eq]
  have hgiven : l.Holds (cmd.held ++ []) := by rwa [List.append_nil]
  exact hgiven.release

/-- The stage that is being parsed is not counted yet. -/
theorem parserDestroy_uncounted (cmd : ParsedCommand) (stage : CommandStage) (l : Ledger) :
    parserDestroy ⟨cmd.stageCount, cmd.stages.set cmd.stageCount stage⟩ l = parserDestroy cmd l := by
  unfold parserDestroy
  rw [List.take_set_of_le (Nat.le_refl _)]

theorem ParsedCommand.Holds.held_push {parsed : ParsedCommand} {pipeline : List Stage} {left : Nat}
    (h : parsed.Holds pipeline (left + 1)) (stage : CommandStage) :
    ParsedCommand.held ⟨parsed.stageCount + 1, parsed.stages.set parsed.stageCount stage⟩ =
      parsed.held ++ stage.held := by
  obtain ⟨built, hlen, hstages, -⟩ := h.split
  have hset := set_filled built left CommandStage.zero stage
  have hleft : (built ++ stage :: List.replicate left CommandStage.zero).take (built.length + 1) =
      built ++ [stage] := by
    simp [List.take_append, List.take_of_length_le]
  unfold ParsedCommand.held
  simp only [hstages, hlen, hset, hleft, List.take_left, List.flatMap_append,
    List.flatMap_singleton]

/-- `parser_parse` on the first `left` segments of `save`. -/
structure CommandAccounted (malloc : Nat → Bool) (left : Nat) (save : CString)
    (r : Option ParsedCommand × Ledger) : Prop where
  returned : ∀ cmd, r.1 = some cmd → (parserDestroy cmd r.2).Holds []
  rejected : r.1 = none → (∀ n < r.2.mallocs, malloc n = true) →
    ∃ segment lost,
      ((segments save).take left).find? (fun s => (readStage s).isNone) = some segment ∧
      r.2.Holds lost ∧ (lost = [] ↔ itemAt (skipSpaces segment) = none)

theorem parseStages_accounted (malloc : Nat → Bool) {left : Nat} (save : CString)
    {parsed : ParsedCommand} {pipeline : List Stage} {l : Ledger}
    (h : parsed.Holds pipeline left) (hholds : l.Holds parsed.held) :
    ∃ r, parseStages malloc left save parsed l = some r ∧
      CommandAccounted malloc left save r := by
  induction left generalizing save parsed pipeline l with
  | zero =>
      refine ⟨_, rfl, fun cmd hcmd => ?_, fun hnone => by cases hnone⟩
      cases hcmd
      exact h.shows.destroyed hholds
  | succ left ih =>
      rw [parseStages]
      cases hsave : strtokR save with
      | none =>
          refine ⟨_, rfl, fun cmd hcmd => ?_, fun hnone => by cases hnone⟩
          cases hcmd
          exact h.shows.destroyed hholds
      | some r =>
          obtain ⟨segment, save'⟩ := r
          have hsegments : (segments save).take (left + 1) =
              segment :: (segments save').take left := by
            rw [segments_eq_strtokR, hsave, List.take_succ_cons]
          obtain ⟨⟨ok, stage, l'⟩, hstage, hparsed⟩ := parseStage_parsed malloc segment l
          obtain ⟨r', hstage', haccount⟩ := parseStage_accounted malloc segment hholds
          obtain rfl := Option.some.inj (hstage.symm.trans hstage')
          simp only [h.next, hstage]
          cases ok with
          | false =>
              refine ⟨_, rfl, fun cmd hcmd => (by cases hcmd), fun _ hm => ?_⟩
              have hrejected := haccount.rejected rfl
              have hsame := parserDestroy_uncounted parsed stage l'
              rw [h.shows.parserDestroy_eq] at hsame
              rw [hsame] at hm ⊢
              obtain ⟨hnone, hlost⟩ := hrejected hm
              refine ⟨segment, stage.held, ?_, ?_, ?_⟩
              · rw [hsegments, List.find?_cons_of_pos (by simp [readStage, hnone])]
              · exact (haccount.held.transfer List.perm_append_comm).release
              · rw [hlost, and_iff_right rfl]
          | true =>
              obtain ⟨items, hitems, hshows⟩ := hparsed.shows rfl
              have hgiven : l'.Holds (ParsedCommand.held
                  ⟨parsed.stageCount + 1, parsed.stages.set parsed.stageCount stage⟩) := by
                rw [h.held_push]
                exact haccount.held.transfer List.perm_append_comm
              obtain ⟨r, hr, hrest⟩ := ih save' (h.push hshows) hgiven
              refine ⟨r, hr, hrest.returned, ?_⟩
              rw [hsegments, List.find?_cons_of_neg (by simp [readStage, hitems])]
              exact hrest.rejected

/-! ## Which tokens are lost -/

/-- The operator without a target comes before anything else that the segment holds. -/
def OperatorFirst (segment : CString) : Prop :=
  ∃ gap kind after, segment = gap ++ (RedirectTarget.operator kind ++ after) ∧ Blank gap ∧
    ¬ WordFollows after

theorem itemAt_eq_none {segment : CString} (h : ¬ OperatorsFollowed segment) :
    itemAt (skipSpaces segment) = none ↔ OperatorFirst segment := by
  constructor
  · intro hnone
    cases hop : operatorAt (skipSpaces segment) with
    | some r =>
        obtain ⟨kind, after⟩ := r
        refine ⟨segment.takeWhile isSpace, kind, after, ?_, fun c hc => List.mem_takeWhile_imp hc,
          fun hword => ?_⟩
        · rw [← operatorAt_eq_some hop]
          exact List.takeWhile_append_dropWhile.symm
        · obtain ⟨w, hw⟩ := Option.isSome_iff_exists.mp (wordAt_isSome.mpr hword)
          simp [itemAt, hop, hw] at hnone
    | none =>
        have hword : wordAt (skipSpaces segment) = none := by
          simpa [itemAt, hop] using hnone
        refine absurd ?_ h
        cases hskip : skipSpaces segment with
        | nil =>
            rw [← readStage_isSome, readStage, itemsOf_blank hskip]
            rfl
        | cons c t =>
            rw [hskip] at hop hword
            have hfollows : WordFollows (c :: t) :=
              (wordFollows_byte (skipSpaces_head hskip)).mpr (ne_operator_of_operatorAt hop)
            rw [← wordAt_isSome, hword] at hfollows
            cases hfollows
  · rintro ⟨gap, kind, after, rfl, hgap, hword⟩
    have hhead : skipSpaces (kind.operator ++ after) = kind.operator ++ after := by
      cases kind <;> rfl
    have hnone : wordAt after = none := by
      rwa [← wordAt_isSome, Option.not_isSome_iff_eq_none] at hword
    rw [skipSpaces_blank_append hgap, hhead, itemAt, operatorAt_operator]
    simp only [hnone, Option.map_none]

theorem find?_malformed {stages : List CString} {segment : CString} :
    stages.find? (fun s => (readStage s).isNone) = some segment ↔
      ¬ OperatorsFollowed segment ∧ ∃ wellFormed rest, stages = wellFormed ++ segment :: rest ∧
        ∀ s ∈ wellFormed, OperatorsFollowed s := by
  rw [List.find?_eq_some_iff_append]
  simp only [← readStage_isSome, Option.not_isNone, Option.isNone_iff_eq_none,
    Option.not_isSome_iff_eq_none]

/-- A string with a malformed stage is rejected. -/
theorem parserParse_malformed {malloc : Nat → Bool} {input segment : CString}
    {r : Option ParsedCommand × Ledger} (hr : parserParse malloc input = some r)
    (hfind : ((segments (bounded parserInputBuffer input)).take parserMaxStages).find?
      (fun s => (readStage s).isNone) = some segment) : r.1 = none := by
  obtain ⟨r', hr', hparsed⟩ := parserParse_parsed malloc input
  obtain rfl := Option.some.inj (hr.symm.trans hr')
  by_contra hsome
  obtain ⟨cmd, hcmd⟩ := Option.ne_none_iff_exists'.mp hsome
  obtain ⟨rest, hrest, -⟩ := hparsed.shows cmd hcmd
  have hall := readStages_isSome.mp (Option.isSome_of_eq_some hrest)
  have hread := hall segment (List.mem_of_find?_eq_some hfind)
  rw [readStage_isSome] at hread
  exact (find?_malformed.mp hfind).1 hread

/-- A string that is rejected with every allocation answered leaves no token behind, and
neither does a command that is returned once it is destroyed. -/
def ReleasesTokens (malloc : Nat → Bool) (input : CString) : Prop :=
  ∃ r, parserParse malloc input = some r ∧
    (r.1 = none → (∀ n < r.2.mallocs, malloc n = true) → r.2.Released) ∧
    ∀ cmd, r.1 = some cmd → (parserDestroy cmd r.2).Released

theorem parserParse_accounted (malloc : Nat → Bool) (input : CString) :
    ∃ r, parserParse malloc input = some r ∧
      (r.1 = none → (∀ n < r.2.mallocs, malloc n = true) →
        ∃ segment lost,
          ((segments (bounded parserInputBuffer input)).take parserMaxStages).find?
            (fun s => (readStage s).isNone) = some segment ∧
          r.2.Holds lost ∧ (lost = [] ↔ itemAt (skipSpaces segment) = none)) ∧
      ∀ cmd, r.1 = some cmd → (parserDestroy cmd r.2).Released := by
  unfold parserParse
  cases hm : malloc 0 with
  | false =>
      refine ⟨_, rfl, fun _ hall => ?_, fun cmd hcmd => (nomatch hcmd)⟩
      rw [hall 0 Nat.one_pos] at hm
      cases hm
  | true =>
      obtain ⟨r, hr, haccount⟩ :=
        parseStages_accounted malloc (bounded parserInputBuffer input)
          ParsedCommand.zero_holds (l := { Ledger.start with mallocs := 1 }) (Custody.start 1)
      exact ⟨r, hr, haccount.rejected, fun cmd hcmd =>
        (haccount.returned cmd hcmd).released_iff.mpr rfl⟩

/-- The tokens are all released when the first malformed stage among those that are read,
if there is one, begins with the operator that has no target. The tokens that a stage
holds before such an operator are lost. -/
theorem parse_releases_iff (input : CString) :
    (∀ malloc, ReleasesTokens malloc input) ↔
      ∀ wellFormed segment rest,
        (segments (bounded parserInputBuffer input)).take parserMaxStages =
          wellFormed ++ segment :: rest →
        (∀ s ∈ wellFormed, OperatorsFollowed s) → ¬ OperatorsFollowed segment →
        OperatorFirst segment := by
  constructor
  · intro h wellFormed segment rest hsplit hwell hmalformed
    obtain ⟨r, hr, hreleased, -⟩ := h fun _ => true
    obtain ⟨r', hr', hrejected, -⟩ := parserParse_accounted (fun _ => true) input
    obtain rfl := Option.some.inj (hr.symm.trans hr')
    have hfind := find?_malformed.mpr ⟨hmalformed, wellFormed, rest, hsplit, hwell⟩
    have hnone : r.1 = none := parserParse_malformed hr hfind
    obtain ⟨segment', lost, hfirst, hholds, hlost⟩ := hrejected hnone fun _ _ => rfl
    obtain rfl := Option.some.inj (hfind.symm.trans hfirst)
    have hnil := hholds.released_iff.mp (hreleased hnone fun _ _ => rfl)
    exact (itemAt_eq_none hmalformed).mp (hlost.mp hnil)
  · intro h malloc
    obtain ⟨r, hr, hrejected, hreturned⟩ := parserParse_accounted malloc input
    refine ⟨r, hr, fun hnone hm => ?_, hreturned⟩
    obtain ⟨segment, lost, hfirst, hholds, hlost⟩ := hrejected hnone hm
    obtain ⟨hmalformed, wellFormed, rest, hsplit, hwell⟩ := find?_malformed.mp hfirst
    have hnil : lost = [] := by
      rw [hlost, itemAt_eq_none hmalformed]
      exact h wellFormed segment rest hsplit hwell hmalformed
    exact hholds.released_iff.mpr hnil

/-- Before the stage that is rejected is counted, its argument is lost. -/
theorem parse_leaks_argument : ¬ ∀ malloc, ReleasesTokens malloc (text "a <") := by
  intro h
  obtain ⟨r, hr, hreleased, -⟩ := h fun _ => true
  obtain rfl := Option.some.inj
    ((show parserParse (fun _ => true) (text "a <") = some (none, ⟨2, [1], []⟩) by decide).symm.trans hr)
  exact absurd (hreleased rfl (fun _ _ => rfl) 1 (by simp)) (by decide)

end RunnerOrchestrator
