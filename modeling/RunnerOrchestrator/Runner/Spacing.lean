import RunnerOrchestrator.Runner.Arguments

/-! # Operators attached and spaced

Whitespace around an operator makes no difference to the items of a stage. It makes a
difference to the pipeline when it falls between two pipes, or between a pipe and an
end of the string: `strtok_r` drops an empty segment, but not a blank one.
-/

namespace RunnerOrchestrator

/-! ## Inserting whitespace -/

def IsOperator (c : UInt8) : Prop := c = 124 ∨ c = 60 ∨ c = 62

/-- What stands behind `before` begins a token that is not the target of a redirection. -/
def TokenStart (before : CString) : Prop :=
  (∀ c ∈ before.getLast?, isSpace c = true ∨ c = 124) ∧ ¬ AfterOperator before

/-- Between `before` and `after` there is an operator on one side at least, and not the
2 of `2>` on the left of its '>'. -/
def MayInsert (before after : CString) : Prop :=
  ((∃ c ∈ before.getLast?, IsOperator c) ∨ ∃ c ∈ after.head?, IsOperator c) ∧
    ¬ ∃ start, before = start ++ text "2" ∧ TokenStart start ∧ after.head? = some 62

/-- The second string is the first one, which stands behind `before`, with whitespace
inserted next to operators. -/
inductive Spaced : CString → CString → CString → Prop
  | done {before : CString} : Spaced before [] []
  | keep {before s s' : CString} {c : UInt8} :
      Spaced (before ++ [c]) s s' → Spaced before (c :: s) (c :: s')
  | insert {before s s' : CString} {c : UInt8} :
      isSpace c = true → MayInsert before s → Spaced before s s' → Spaced before s (c :: s')

/-! ## The automaton on both strings -/

namespace ReadMode

/-- What a mode says about the string up to `before` that led to it, with `s` to come. -/
def Fits : ReadMode → CString → CString → Prop
  | .between, before, s => TokenStart before ∨ ∃ c ∈ s.head?, IsOperator c
  | .target _, _, _ => True
  | .word kind read, before, _ => read ≠ [] ∧ (∀ c ∈ read, isWordByte c = true ∧ c ≠ 124) ∧
      ∃ start, before = start ++ read ∧ (kind = none → TokenStart start)

theorem tokenStart_pipe (before : CString) : TokenStart (before ++ [124]) := by
  refine ⟨by simp, ?_⟩
  unfold AfterOperator
  rw [lastByte_byte rfl]
  decide

theorem tokenStart_space {c : UInt8} (hc : isSpace c = true) {before : CString}
    (h : ¬ AfterOperator before) : TokenStart (before ++ [c]) := by
  refine ⟨by simp [hc], ?_⟩
  unfold AfterOperator
  rwa [lastByte_space hc]

theorem tokenStart_nil : TokenStart [] := ⟨by simp, by decide⟩

theorem fits_enter {c : UInt8} {before s : CString} (hpipe : c ≠ 124)
    (hspace : isSpace c = true → ¬ AfterOperator before)
    (hword : isWordByte c = true → TokenStart before) : (enter c).Fits (before ++ [c]) s := by
  cases hc : isSpace c with
  | true =>
      rw [enter_space hc]
      exact .inl (tokenStart_space hc (hspace hc))
  | false =>
      cases hbyte : isWordByte c with
      | true =>
          rw [enter_byte hbyte]
          exact ⟨List.cons_ne_nil c [], by simp [hbyte, hpipe], before, rfl, fun _ => hword hbyte⟩
      | false =>
          obtain ⟨kind, htarget⟩ := enter_operator (operator_of_not_isWordByte hc hbyte)
          rw [htarget]
          trivial

/-- By cases on the mode: a byte other than a pipe leads to a mode that fits again. -/
theorem Fits.step {m m' : ReadMode} {before s : CString} {c : UInt8} {items : List Item}
    (h : m.Fits before (c :: s)) (hpipe : c ≠ 124) (hstep : m.step c = some (m', items)) :
    m'.Fits (before ++ [c]) s := by
  cases m with
  | between =>
      rw [step_between] at hstep
      cases hstep
      have hstart : isSpace c = true ∨ isWordByte c = true → TokenStart before := fun hc => by
        obtain hstart | ⟨d, hd, hop⟩ := h
        · exact hstart
        · obtain rfl : c = d := Option.some.inj hd
          obtain rfl | rfl | rfl := hop
          · exact absurd rfl hpipe
          · exact absurd hc (by decide)
          · exact absurd hc (by decide)
      exact fits_enter hpipe (fun hc => (hstart (.inl hc)).2) fun hc => hstart (.inr hc)
  | target kind =>
      cases hc : isSpace c with
      | true =>
          rw [step_target_space kind hc] at hstep
          cases hstep
          trivial
      | false =>
          cases hbyte : isWordByte c with
          | true =>
              rw [step_target_byte kind hbyte] at hstep
              cases hstep
              exact ⟨List.cons_ne_nil c [], by simp [hbyte, hpipe], before, rfl, fun h => nomatch h⟩
          | false =>
              rw [step_target_operator kind hc hbyte] at hstep
              cases hstep
  | word kind read =>
      obtain ⟨hne, hread, start, rfl, hstart⟩ := h
      cases hbyte : isWordByte c with
      | true =>
          rw [step_word_byte kind read hbyte] at hstep
          cases hstep
          refine ⟨by simp, ?_, start, List.append_assoc _ _ _, hstart⟩
          simpa [or_imp, forall_and, hbyte, hpipe] using hread
      | false =>
          by_cases hdigit : kind = none ∧ read = text "2" ∧ c = 62
          · obtain ⟨rfl, rfl, rfl⟩ := hdigit
            cases hstep
            trivial
          · rw [step_word_end hbyte fun hnone htwo hgt => hdigit ⟨hnone, htwo, hgt⟩] at hstep
            cases hstep
            have hafter := not_afterOperator_word hne (fun d hd => (hread d hd).1) start
            exact fits_enter hpipe (fun _ => hafter) fun hc => by simp [hc] at hbyte

/-- Whitespace is inserted behind a word only where the word ends anyway. -/
theorem Fits.word_ends {kind : Option RedirectTarget} {read before s : CString}
    (h : Fits (.word kind read) before s) (hinsert : MayInsert before s) :
    (∃ c ∈ s.head?, IsOperator c) ∧ (kind = none → read = text "2" → s.head? ≠ some 62) := by
  obtain ⟨hne, hread, start, rfl, hstart⟩ := h
  obtain ⟨hnear, hdigit⟩ := hinsert
  constructor
  · refine hnear.resolve_left ?_
    rintro ⟨c, hc, hop⟩
    rw [List.getLast?_append_of_ne_nil _ hne] at hc
    obtain ⟨hbyte, hpipe⟩ := hread c (List.mem_of_getLast? hc)
    have hnot := ne_operator_of_isWordByte hbyte
    exact hop.elim hpipe fun hop => hop.elim hnot.1 hnot.2
  · rintro rfl rfl hgt
    exact hdigit ⟨start, rfl, hstart rfl, hgt⟩

theorem run_byte {m : ReadMode} {c : UInt8} {t t' : CString}
    (h : ∀ m' items, m.step c = some (m', items) → run m' t = run m' t') :
    run m (c :: t) = run m (c :: t') := by
  cases hstep : m.step c with
  | none => rw [run_failed hstep, run_failed hstep]
  | some r => simp only [run, hstep, Option.bind_some, h r.1 r.2 hstep]

/-- A word ends in front of an operator or of whitespace. -/
theorem run_word_inserted {kind : Option RedirectTarget} {read part part' : CString} {c : UInt8}
    (hc : isSpace c = true) (hends : EndsWord part)
    (hdigit : kind = none → read = text "2" → part.head? ≠ some 62)
    (hreads : run .between part = run .between part') :
    run (.word kind read) part = run (.word kind read) (c :: part') := by
  have hgt : c ≠ 62 := by
    rintro rfl
    cases hc
  have hstep := step_word_end (isWordByte_of_isSpace hc) fun (_ : kind = none) (_ : read = text "2") =>
    hgt
  rw [run_word_end hends hdigit, run_emitting hstep, enter_space hc, hreads]

theorem run_between_inserted {m : ReadMode} {c : UInt8} (hc : isSpace c = true)
    (hm : ∀ kind read, m ≠ .word kind read) (t : CString) : run m (c :: t) = run m t := by
  cases m with
  | between => exact run_between_space hc t
  | target kind => exact run_silent (step_target_space kind hc) t
  | word kind read => exact absurd rfl (hm kind read)

/-- The first part of a string that begins with an operator. -/
theorem endsWord_part {s part : CString} {parts : List CString}
    (hs : s.splitOn 124 = part :: parts) (hop : ∃ c ∈ s.head?, IsOperator c) :
    EndsWord part ∧ (s.head? ≠ some 62 → part.head? ≠ some 62) := by
  obtain ⟨c, hc, hop⟩ := hop
  obtain ⟨t, rfl⟩ := List.head?_eq_some_iff.mp hc
  by_cases hpipe : c = 124
  · subst hpipe
    rw [splitOn_pipe] at hs
    cases hs
    exact ⟨fun d hd => (nomatch hd), fun _ => by simp⟩
  · obtain ⟨q, qs, -, hq⟩ := splitOn_byte hpipe t
    rw [hq] at hs
    cases hs
    refine ⟨fun d hd => ?_, id⟩
    obtain rfl : c = d := Option.some.inj hd
    exact isWordByte_of_operator (hop.resolve_left hpipe)

end ReadMode

/-- By induction on the insertions: the parts between the pipes are read the same. -/
theorem Spaced.parts {before s s' : CString} (h : Spaced before s s') {m : ReadMode}
    (hfits : m.Fits before s) {part part' : CString} {parts parts' : List CString}
    (hs : s.splitOn 124 = part :: parts) (hs' : s'.splitOn 124 = part' :: parts') :
    m.run part = m.run part' ∧ parts.map itemsOf = parts'.map itemsOf := by
  induction h generalizing m part part' parts parts' with
  | done =>
      cases hs
      cases hs'
      exact ⟨rfl, rfl⟩
  | @keep before s s' c _ ih =>
      by_cases hpipe : c = 124
      · subst hpipe
        rw [splitOn_pipe] at hs hs'
        cases hs
        cases hs'
        obtain ⟨q, qs, hq⟩ := List.exists_cons_of_ne_nil (List.splitOn_ne_nil (124 : UInt8) s)
        obtain ⟨q', qs', hq'⟩ := List.exists_cons_of_ne_nil (List.splitOn_ne_nil (124 : UInt8) s')
        obtain ⟨hpart, hparts⟩ :=
          ih (m := .between) (.inl (ReadMode.tokenStart_pipe before)) hq hq'
        refine ⟨rfl, ?_⟩
        rw [hq, hq', List.map_cons, List.map_cons, hparts, ReadMode.itemsOf_eq_run, hpart,
          ReadMode.itemsOf_eq_run]
      · obtain ⟨q, qs, hq, hcq⟩ := splitOn_byte hpipe s
        obtain ⟨q', qs', hq', hcq'⟩ := splitOn_byte hpipe s'
        rw [hcq] at hs
        rw [hcq'] at hs'
        cases hs
        cases hs'
        refine ⟨ReadMode.run_byte fun m' items hstep => ?_, ?_⟩
        · exact (ih (hfits.step hpipe hstep) hq hq').1
        · exact (ih (m := .target .inputFile) trivial hq hq').2
  | @insert before s s' c hc hinsert _ ih =>
      have hpipe : c ≠ 124 := by
        rintro rfl
        cases hc
      obtain ⟨q', qs', hq', hcq'⟩ := splitOn_byte hpipe s'
      rw [hcq'] at hs'
      cases hs'
      by_cases hword : ∃ kind read, m = .word kind read
      · obtain ⟨kind, read, rfl⟩ := hword
        obtain ⟨hop, hdigit⟩ := hfits.word_ends hinsert
        obtain ⟨hends, hhead⟩ := ReadMode.endsWord_part hs hop
        obtain ⟨hpart, hparts⟩ := ih (m := .between) (.inr hop) hs hq'
        refine ⟨?_, hparts⟩
        exact ReadMode.run_word_inserted hc hends (fun hkind hread => hhead (hdigit hkind hread))
          hpart
      · obtain ⟨hpart, hparts⟩ := ih hfits hs hq'
        refine ⟨?_, hparts⟩
        rw [ReadMode.run_between_inserted hc fun kind read hm => hword ⟨kind, read, hm⟩]
        exact hpart

/-- Part by part the two strings hold the same items. -/
theorem Spaced.map_itemsOf {s s' : CString} (h : Spaced [] s s') :
    (s.splitOn 124).map itemsOf = (s'.splitOn 124).map itemsOf := by
  obtain ⟨part, parts, hs⟩ := List.exists_cons_of_ne_nil (List.splitOn_ne_nil (124 : UInt8) s)
  obtain ⟨part', parts', hs'⟩ := List.exists_cons_of_ne_nil (List.splitOn_ne_nil (124 : UInt8) s')
  obtain ⟨hpart, hparts⟩ := h.parts (m := .between) (.inl ReadMode.tokenStart_nil) hs hs'
  rw [hs, hs', List.map_cons, List.map_cons, hparts, ReadMode.itemsOf_eq_run, hpart,
    ReadMode.itemsOf_eq_run]

/-! ## From the parts to the segments -/

theorem itemsOf_eq_nil {part : CString} : itemsOf part = some [] ↔ Blank part := by
  constructor
  · intro h
    by_cases hskip : skipSpaces part = []
    · exact List.dropWhile_eq_nil_iff.mp hskip
    · rw [itemsOf_item hskip] at h
      obtain ⟨r, -, hr⟩ := Option.bind_eq_some_iff.mp h
      simp at hr
  · exact fun h => itemsOf_blank (skipSpaces_blank h)

/-- The segments that are not blank are the parts that are not. -/
theorem map_itemsOf_segments (s : CString) :
    ((segments s).map itemsOf).filter (· ≠ some []) =
      ((s.splitOn 124).map itemsOf).filter (· ≠ some []) := by
  rw [segments, List.filter_map, List.filter_map, List.filter_filter]
  congr 1
  refine List.filter_congr fun part _ => ?_
  by_cases hnil : part = []
  · simp [hnil, itemsOf_eq_nil.mpr blank_nil]
  · simp [hnil]

/-- Two lists that agree but for the places of `d` have the same front if these agree there. -/
theorem take_eq_of_filter_ne {α : Type} [DecidableEq α] {d : α} {n : Nat} {xs ys : List α}
    (h : xs.filter (· ≠ d) = ys.filter (· ≠ d))
    (hplaces : List.Forall₂ (fun x y => x = d ↔ y = d) (xs.take n) (ys.take n)) :
    xs.take n = ys.take n := by
  induction n generalizing xs ys with
  | zero => rfl
  | succ n ih =>
      cases xs with
      | nil =>
          cases ys with
          | nil => rfl
          | cons y ys => cases hplaces
      | cons x xs =>
          cases ys with
          | nil => cases hplaces
          | cons y ys =>
              rw [List.take_succ_cons, List.take_succ_cons] at hplaces ⊢
              obtain ⟨hxy, hplaces⟩ := List.forall₂_cons.mp hplaces
              by_cases hx : x = d
              · have hy := hxy.mp hx
                rw [List.filter_cons_of_neg (by simpa using hx),
                  List.filter_cons_of_neg (by simpa using hy)] at h
                rw [ih h hplaces, hx, hy]
              · have hy := fun hy => hx (hxy.mpr hy)
                rw [List.filter_cons_of_pos (by simpa using hx),
                  List.filter_cons_of_pos (by simpa using hy)] at h
                obtain ⟨hhead, htail⟩ := List.cons.inj h
                rw [ih htail hplaces, hhead]

/-- Blank segments stand at the same places among the first 16. -/
def BlanksAlike (s s' : CString) : Prop :=
  List.Forall₂ (fun segment segment' => Blank segment ↔ Blank segment')
    ((segments s).take parserMaxStages) ((segments s').take parserMaxStages)

theorem filter_alike {parts parts' : List CString}
    (hempty : List.Forall₂ (fun part part' => part = [] ↔ part' = []) parts parts')
    (hitems : parts.map itemsOf = parts'.map itemsOf) :
    List.Forall₂ (fun part part' => Blank part ↔ Blank part') (parts.filter (· ≠ []))
      (parts'.filter (· ≠ [])) := by
  induction hempty with
  | nil => exact .nil
  | @cons part part' parts parts' hpart _ ih =>
      obtain ⟨hitem, hitems⟩ := List.cons.inj hitems
      by_cases hnil : part = []
      · rw [List.filter_cons_of_neg (by simpa using hnil),
          List.filter_cons_of_neg (by simpa using hpart.mp hnil)]
        exact ih hitems
      · have hnil' := fun hnil' => hnil (hpart.mpr hnil')
        rw [List.filter_cons_of_pos (by simpa using hnil),
          List.filter_cons_of_pos (by simpa using hnil')]
        exact .cons (by rw [← itemsOf_eq_nil, hitem, itemsOf_eq_nil]) (ih hitems)

/-- Whitespace that falls into no empty part leaves the blank segments at their places. -/
theorem Spaced.blanksAlike {s s' : CString} (h : Spaced [] s s')
    (hempty : List.Forall₂ (fun part part' => part = [] ↔ part' = []) (s.splitOn 124)
      (s'.splitOn 124)) : BlanksAlike s s' :=
  List.forall₂_take parserMaxStages (filter_alike hempty h.map_itemsOf)

theorem Spaced.readStages_eq {s s' : CString} (h : Spaced [] s s') (hblanks : BlanksAlike s s') :
    readStages parserMaxStages s = readStages parserMaxStages s' := by
  have hitems : ((segments s).take parserMaxStages).map itemsOf =
      ((segments s').take parserMaxStages).map itemsOf := by
    rw [List.map_take, List.map_take]
    refine take_eq_of_filter_ne (d := some []) ?_ ?_
    · rw [map_itemsOf_segments, map_itemsOf_segments, h.map_itemsOf]
    · rw [← List.map_take, ← List.map_take, List.forall₂_map_left_iff, List.forall₂_map_right_iff]
      exact hblanks.imp fun _ _ hblank => itemsOf_eq_nil.trans (hblank.trans itemsOf_eq_nil.symm)
  have hread : ((segments s).take parserMaxStages).map readStage =
      ((segments s').take parserMaxStages).map readStage := by
    have hmap := congrArg (List.map (Option.map stageOf)) hitems
    rwa [List.map_map, List.map_map] at hmap
  refine Option.ext fun stages => ?_
  rw [readStages_eq_some, readStages_eq_some, hread]

/-- And only then are two strings that are both accepted read as the same stages. -/
theorem blanks_of_cut_eq {parts parts' : List CString} {stages stages' : List Stage}
    (h : parts.map readStage = stages.map some) (h' : parts'.map readStage = stages'.map some)
    (hcut : stages.map Stage.cut = stages'.map Stage.cut) :
    List.Forall₂ (fun part part' => Blank part ↔ Blank part') parts parts' := by
  have hblank : ∀ {part stage}, readStage part = some stage →
      (Blank part ↔ stage.cut = (stageOf []).cut) := fun {part stage} hread => by
    obtain ⟨items, hitems, rfl⟩ := Option.map_eq_some_iff.mp hread
    rw [cut_eq_empty, ← itemsOf_eq_nil, hitems, Option.some_inj]
  induction parts generalizing parts' stages stages' with
  | nil =>
      obtain rfl : stages = [] := by simpa using h.symm
      obtain rfl : stages' = [] := by simpa using hcut.symm
      obtain rfl : parts' = [] := by simpa using h'
      exact .nil
  | cons part parts ih =>
      obtain ⟨stage, stages, rfl, hread, hreads⟩ := List.map_eq_cons_iff.mp h.symm
      obtain ⟨stage', stages', rfl, hcut', hcuts⟩ := List.map_eq_cons_iff.mp hcut.symm
      obtain ⟨part', parts', rfl, hread', hreads'⟩ := List.map_eq_cons_iff.mp h'
      refine .cons ?_ (ih hreads.symm hreads' hcuts.symm)
      rw [hblank hread.symm, hblank hread', hcut']

/-! ## What the caller sees -/

/-- Both are NULL, or the accessors find the same in both. -/
def SameCommand : Option ParsedCommand → Option ParsedCommand → Prop
  | none, none => True
  | some cmd, some cmd' =>
      parserGetStageCount cmd = parserGetStageCount cmd' ∧ ∀ i,
        (parserGetStageArgv cmd i).map (List.map (Option.map Token.text)) =
          (parserGetStageArgv cmd' i).map (List.map (Option.map Token.text)) ∧
        (parserGetInputFile cmd i).map Token.text = (parserGetInputFile cmd' i).map Token.text ∧
        (parserGetOutputFile cmd i).map Token.text = (parserGetOutputFile cmd' i).map Token.text ∧
        (parserGetErrorFile cmd i).map Token.text = (parserGetErrorFile cmd' i).map Token.text
  | _, _ => False

namespace CommandStage.Shows

variable {stage stage' : CommandStage} {s s' : Stage}

theorem argv_eq (h : stage.Shows s) (h' : stage'.Shows s) :
    stage.argv.map (Option.map Token.text) = stage'.argv.map (Option.map Token.text) := by
  rw [h.argv, h'.argv]

theorem files_eq (h : stage.Shows s) (h' : stage'.Shows s) (kind : RedirectTarget) :
    (stage.target kind).map Token.text = (stage'.target kind).map Token.text := by
  rw [h.files, h'.files]

/-- The texts of a stage determine what it shows. -/
theorem unique (h : stage.Shows s) (h' : stage'.Shows s')
    (hargv : stage.argv.map (Option.map Token.text) = stage'.argv.map (Option.map Token.text))
    (hfiles : ∀ kind, (stage.target kind).map Token.text = (stage'.target kind).map Token.text) :
    s = s' := by
  have hargs : s.args = s'.args := by
    rw [h.argv, h'.argv] at hargv
    simpa using congrArg (List.filterMap id) hargv
  have hsame : s.files = s'.files := by
    funext kind
    rw [← h.files, ← h'.files, hfiles]
  exact congrArg₂ Stage.mk hargs hsame

end CommandStage.Shows

theorem sameCommand_iff {cmd cmd' : ParsedCommand} {pipeline pipeline' : List Stage}
    (h : cmd.Shows pipeline) (h' : cmd'.Shows pipeline') :
    SameCommand (some cmd) (some cmd') ↔ pipeline = pipeline' := by
  have hbeyond : ∀ (cmd : ParsedCommand) {i}, ¬ i < parserGetStageCount cmd → cmd.stage? i = none :=
    fun _ _ hi => if_neg hi
  constructor
  · rintro ⟨hcount, hsame⟩
    refine List.ext_getElem? fun i => ?_
    by_cases hi : i < parserGetStageCount cmd
    · obtain ⟨stage, s, hstage, hs, hshows⟩ := h.stage hi
      obtain ⟨stage', s', hstage', hs', hshows'⟩ := h'.stage (hcount ▸ hi)
      have hfields := hsame i
      simp only [parserGetStageArgv, parserGetInputFile, parserGetOutputFile, parserGetErrorFile,
        hstage, hstage', Option.map_some, Option.bind_some, Option.some_inj] at hfields
      obtain ⟨hargv, hinput, houtput, herror⟩ := hfields
      have hstages : s = s' := hshows.unique hshows' hargv
        (RedirectTarget.forall_iff.mpr ⟨hinput, houtput, herror⟩)
      rw [hs, hs', hstages]
    · have hlen : pipeline.length ≤ i := h.count ▸ Nat.le_of_not_lt hi
      have hlen' : pipeline'.length ≤ i := h'.count ▸ hcount ▸ Nat.le_of_not_lt hi
      rw [List.getElem?_eq_none hlen, List.getElem?_eq_none hlen']
  · rintro rfl
    have hcount := h.count.trans h'.count.symm
    refine ⟨hcount, fun i => ?_⟩
    unfold parserGetStageArgv parserGetInputFile parserGetOutputFile parserGetErrorFile
    by_cases hi : i < parserGetStageCount cmd
    · obtain ⟨stage, s, hstage, hs, hshows⟩ := h.stage hi
      obtain ⟨stage', s', hstage', hs', hshows'⟩ := h'.stage (hcount ▸ hi)
      obtain rfl := Option.some.inj (hs.symm.trans hs')
      rw [hstage, hstage']
      exact ⟨congrArg some (hshows.argv_eq hshows'), hshows.files_eq hshows' .inputFile,
        hshows.files_eq hshows' .outputFile, hshows.files_eq hshows' .errorFile⟩
    · rw [hbeyond cmd hi, hbeyond cmd' (hcount ▸ hi)]
      exact ⟨rfl, rfl, rfl, rfl⟩

/-- With memory at hand, `parser_parse` answers what the grammar reads, cut to the arrays. -/
theorem parserParse_pipeline {malloc : Nat → Bool} (hmalloc : ∀ n, malloc n = true)
    {input : CString} (hlength : input.length < parserInputBuffer) :
    ∃ r, parserParse malloc input = some r ∧
      (r.1 = none ∧ readStages parserMaxStages input = none ∨
        ∃ cmd stages, r.1 = some cmd ∧ readStages parserMaxStages input = some stages ∧
          cmd.Shows (stages.map Stage.cut)) := by
  obtain ⟨r, hr, hparsed⟩ := parserParse_parsed malloc input
  rw [bounded, List.take_of_length_le (Nat.le_sub_one_of_lt hlength)] at hparsed
  refine ⟨r, hr, ?_⟩
  cases hcmd : r.1 with
  | none =>
      refine .inl ⟨rfl, Option.not_isSome_iff_eq_none.mp fun hread => ?_⟩
      have hsome := hparsed.accepted hmalloc hread
      simp [hcmd] at hsome
  | some cmd =>
      obtain ⟨stages, hstages, hshows⟩ := hparsed.shows cmd hcmd
      exact .inr ⟨cmd, stages, rfl, hstages, by simpa using hshows⟩

theorem readStages_eq_none {left : Nat} {s : CString} :
    readStages left s = none ↔ ∃ segment ∈ (segments s).take left, ¬ OperatorsFollowed segment := by
  rw [← Option.not_isSome_iff_eq_none, readStages_isSome]
  simp only [readStage_isSome, not_forall, exists_prop]

/-- The two strings are both rejected, or both parsed to the same command. -/
def ParsedAlike (malloc : Nat → Bool) (s s' : CString) : Prop :=
  ∃ r r', parserParse malloc s = some r ∧ parserParse malloc s' = some r' ∧ SameCommand r.1 r'.1

/-- Whitespace next to operators makes no difference when both strings have a malformed
stage anyway, or when it leaves the blank segments at their places. -/
theorem parse_spaced_iff {malloc : Nat → Bool} (hmalloc : ∀ n, malloc n = true) {s s' : CString}
    (h : Spaced [] s s') (hs : s.length < parserInputBuffer) (hs' : s'.length < parserInputBuffer) :
    ParsedAlike malloc s s' ↔
      ((∃ segment ∈ (segments s).take parserMaxStages, ¬ OperatorsFollowed segment) ∧
        ∃ segment ∈ (segments s').take parserMaxStages, ¬ OperatorsFollowed segment) ∨
      BlanksAlike s s' := by
  obtain ⟨r, hr, hread⟩ := parserParse_pipeline hmalloc hs
  obtain ⟨r', hr', hread'⟩ := parserParse_pipeline hmalloc hs'
  have halike : ParsedAlike malloc s s' ↔ SameCommand r.1 r'.1 := by
    constructor
    · rintro ⟨q, q', hq, hq', hsame⟩
      obtain rfl := Option.some.inj (hr.symm.trans hq)
      obtain rfl := Option.some.inj (hr'.symm.trans hq')
      exact hsame
    · exact fun hsame => ⟨r, r', hr, hr', hsame⟩
  rw [halike, ← readStages_eq_none, ← readStages_eq_none]
  obtain ⟨hnone, hstages⟩ | ⟨cmd, stages, hcmd, hstages, hshows⟩ := hread
  · obtain ⟨hnone', hstages'⟩ | ⟨cmd', stages', hcmd', hstages', hshows'⟩ := hread'
    · rw [hnone, hnone']
      exact iff_of_true trivial (.inl ⟨hstages, hstages'⟩)
    · rw [hnone, hcmd']
      refine iff_of_false id ?_
      rintro (⟨-, hnone'⟩ | hblanks)
      · rw [hstages'] at hnone'
        cases hnone'
      · rw [h.readStages_eq hblanks, hstages'] at hstages
        cases hstages
  · obtain ⟨hnone', hstages'⟩ | ⟨cmd', stages', hcmd', hstages', hshows'⟩ := hread'
    · rw [hcmd, hnone']
      refine iff_of_false id ?_
      rintro (⟨hnone, -⟩ | hblanks)
      · rw [hstages] at hnone
        cases hnone
      · rw [h.readStages_eq hblanks, hstages'] at hstages
        cases hstages
    · rw [hcmd, hcmd', sameCommand_iff hshows hshows']
      constructor
      · intro hcut
        exact .inr (blanks_of_cut_eq (readStages_eq_some.mp hstages)
          (readStages_eq_some.mp hstages') hcut)
      · rintro (⟨hnone, -⟩ | hblanks)
        · rw [hstages] at hnone
          cases hnone
        · rw [h.readStages_eq hblanks, hstages'] at hstages
          rw [Option.some.inj hstages]

theorem mayInsert_front {c : UInt8} (hc : c = 124 ∨ c = 60) (before t : CString) :
    MayInsert before (c :: t) := by
  obtain rfl | rfl := hc
  · exact ⟨.inr ⟨124, rfl, .inl rfl⟩, fun ⟨_, _, _, hgt⟩ => (nomatch hgt)⟩
  · exact ⟨.inr ⟨60, rfl, .inr (.inl rfl)⟩, fun ⟨_, _, _, hgt⟩ => (nomatch hgt)⟩

theorem parse_spaced_pipe :
    ParsedAlike (fun _ => true) (text "a<b|c") (text "a <b |c") := by
  have hspaced : Spaced [] (text "a<b|c") (text "a <b |c") :=
    .keep (.insert rfl (mayInsert_front (.inr rfl) _ _)
      (.keep (.keep (.insert rfl (mayInsert_front (.inl rfl) _ _) (.keep (.keep .done))))))
  refine (parse_spaced_iff (fun _ => rfl) hspaced (by decide) (by decide)).mpr (.inr ?_)
  unfold BlanksAlike
  decide

/-- A space between two pipes makes a third stage, which has no program. -/
theorem parse_spaced_pipes : Spaced [] (text "a||b") (text "a| |b") ∧
    (text "a||b").length < parserInputBuffer ∧ (text "a| |b").length < parserInputBuffer ∧
    ¬ ParsedAlike (fun _ => true) (text "a||b") (text "a| |b") := by
  refine ⟨.keep (.keep (.insert rfl (mayInsert_front (.inl rfl) _ _) (.keep (.keep .done)))),
    by decide, by decide, ?_⟩
  rintro ⟨r, r', hr, hr', hsame⟩
  have hcount : (parserParse (fun _ => true) (text "a||b")).map
      (fun r => r.1.map parserGetStageCount) = some (some 2) := by decide
  have hcount' : (parserParse (fun _ => true) (text "a| |b")).map
      (fun r => r.1.map parserGetStageCount) = some (some 3) := by decide
  rw [hr, Option.map_some, Option.some_inj] at hcount
  rw [hr', Option.map_some, Option.some_inj] at hcount'
  obtain ⟨cmd, hcmd, htwo⟩ := Option.map_eq_some_iff.mp hcount
  obtain ⟨cmd', hcmd', hthree⟩ := Option.map_eq_some_iff.mp hcount'
  rw [hcmd, hcmd'] at hsame
  have hequal := hsame.1
  omega

end RunnerOrchestrator
