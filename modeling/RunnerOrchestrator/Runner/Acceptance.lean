import RunnerOrchestrator.Runner.Automaton

/-! # Which strings the parser accepts

A stage is rejected for one reason only: an operator without a target. Whether every
operator has one can be seen from the bytes that follow it.
-/

namespace RunnerOrchestrator

/-- After any spaces comes a byte that is neither '<' nor '>'. -/
def WordFollows (after : CString) : Prop :=
  ∃ gap c rest, after = gap ++ c :: rest ∧ Blank gap ∧ isSpace c = false ∧ c ≠ 60 ∧ c ≠ 62

/-- Every '<' and every '>' is followed by a word. -/
def OperatorsFollowed (segment : CString) : Prop :=
  ∀ before c after, segment = before ++ c :: after → c = 60 ∨ c = 62 → WordFollows after

/-! ## One byte at a time -/

theorem isWordByte_iff {c : UInt8} :
    isWordByte c = true ↔ isSpace c = false ∧ c ≠ 60 ∧ c ≠ 62 := by
  simp [isWordByte, and_assoc]

theorem not_operator_of_isSpace {c : UInt8} (h : isSpace c = true) : ¬ (c = 60 ∨ c = 62) := by
  rintro (rfl | rfl)
  · cases h
  · cases h

theorem isSpace_of_operator {c : UInt8} (h : c = 60 ∨ c = 62) : isSpace c = false := by
  obtain rfl | rfl := h
  · rfl
  · rfl

theorem isWordByte_of_operator {c : UInt8} (h : c = 60 ∨ c = 62) : isWordByte c = false := by
  obtain rfl | rfl := h
  · rfl
  · rfl

theorem operator_of_not_isWordByte {c : UInt8} (hspace : isSpace c = false)
    (hword : isWordByte c = false) : c = 60 ∨ c = 62 := by
  by_contra hne
  rw [isWordByte_iff.mpr ⟨hspace, not_or.mp hne⟩] at hword
  cases hword

theorem not_wordFollows_nil : ¬ WordFollows [] := by
  rintro ⟨gap, c, rest, heq, -⟩
  exact List.append_ne_nil_of_right_ne_nil gap (List.cons_ne_nil c rest) heq.symm

theorem wordFollows_space {c : UInt8} (hc : isSpace c = true) {t : CString} :
    WordFollows (c :: t) ↔ WordFollows t := by
  constructor
  · rintro ⟨gap, d, rest, heq, hgap, hd, hop⟩
    cases gap with
    | nil =>
        obtain ⟨rfl, -⟩ := List.cons.inj heq
        rw [hc] at hd
        cases hd
    | cons e gap =>
        obtain ⟨-, rfl⟩ := List.cons.inj heq
        exact ⟨gap, d, rest, rfl, (List.forall_mem_cons.mp hgap).2, hd, hop⟩
  · rintro ⟨gap, d, rest, rfl, hgap, hd, hop⟩
    exact ⟨c :: gap, d, rest, rfl, List.forall_mem_cons.mpr ⟨hc, hgap⟩, hd, hop⟩

theorem wordFollows_byte {c : UInt8} (hc : isSpace c = false) {t : CString} :
    WordFollows (c :: t) ↔ c ≠ 60 ∧ c ≠ 62 := by
  constructor
  · rintro ⟨gap, d, rest, heq, hgap, -, hop⟩
    cases gap with
    | nil =>
        obtain ⟨rfl, -⟩ := List.cons.inj heq
        exact hop
    | cons e gap =>
        obtain ⟨rfl, -⟩ := List.cons.inj heq
        rw [hgap c List.mem_cons_self] at hc
        cases hc
  · exact fun hop => ⟨[], c, t, rfl, blank_nil, hc, hop⟩

theorem wordAt_isSome {t : CString} : (wordAt t).isSome ↔ WordFollows t := by
  induction t with
  | nil => exact iff_of_false (by simp [wordAt, skipSpaces]) not_wordFollows_nil
  | cons c t ih =>
      cases hc : isSpace c with
      | true => rw [wordAt_space hc, wordFollows_space hc, ih]
      | false =>
          rw [wordFollows_byte hc]
          cases hword : isWordByte c with
          | true =>
              rw [wordAt_byte hword]
              exact iff_of_true rfl (ne_operator_of_isWordByte hword)
          | false =>
              rw [wordAt_operator hc hword]
              exact iff_of_false (by simp) fun hop =>
                (operator_of_not_isWordByte hc hword).elim hop.1 hop.2

theorem operatorsFollowed_nil : OperatorsFollowed [] := fun before c after heq =>
  absurd heq.symm (List.append_ne_nil_of_right_ne_nil before (List.cons_ne_nil c after))

theorem operatorsFollowed_cons {c : UInt8} {t : CString} :
    OperatorsFollowed (c :: t) ↔ (c = 60 ∨ c = 62 → WordFollows t) ∧ OperatorsFollowed t := by
  constructor
  · intro h
    exact ⟨fun hc => h [] c t rfl hc, fun before d after heq hd =>
      h (c :: before) d after (by rw [heq]; rfl) hd⟩
  · rintro ⟨hhead, htail⟩ before d after heq hd
    cases before with
    | nil =>
        obtain ⟨rfl, rfl⟩ := List.cons.inj heq
        exact hhead hd
    | cons e before =>
        obtain ⟨-, rfl⟩ := List.cons.inj heq
        exact htail before d after rfl hd

/-! ## The automaton's answer -/

namespace ReadMode

/-- What a mode still needs. -/
def Awaits (m : ReadMode) (t : CString) : Prop := ∀ kind, m = .target kind → WordFollows t

theorem awaits_between (t : CString) : Awaits .between t := fun _ h => nomatch h

theorem awaits_word (kind : Option RedirectTarget) (read t : CString) : Awaits (.word kind read) t :=
  fun _ h => nomatch h

theorem awaits_target (kind : RedirectTarget) (t : CString) :
    Awaits (.target kind) t ↔ WordFollows t :=
  ⟨fun h => h kind rfl, fun h _ _ => h⟩

theorem enter_operator {c : UInt8} (h : c = 60 ∨ c = 62) : ∃ kind, enter c = .target kind := by
  obtain rfl | rfl := h
  · exact ⟨_, rfl⟩
  · exact ⟨_, rfl⟩

theorem awaits_enter (c : UInt8) (t : CString) :
    Awaits (enter c) t ↔ (c = 60 ∨ c = 62 → WordFollows t) := by
  cases hc : isSpace c with
  | true =>
      rw [enter_space hc]
      exact iff_of_true (awaits_between t) fun h => absurd h (not_operator_of_isSpace hc)
  | false =>
      by_cases hop : c = 60 ∨ c = 62
      · obtain ⟨kind, htarget⟩ := enter_operator hop
        rw [htarget, awaits_target]
        exact ⟨fun h _ => h, fun h => h hop⟩
      · rw [enter_byte (isWordByte_iff.mpr ⟨hc, not_or.mp hop⟩)]
        exact iff_of_true (awaits_word _ _ t) fun h => absurd h hop

/-- By induction on the bytes: each '<' and '>' is met outside of words or ends one. -/
theorem run_isSome {m : ReadMode} {t : CString} :
    (run m t).isSome ↔ OperatorsFollowed t ∧ Awaits m t := by
  induction t generalizing m with
  | nil =>
      simp only [operatorsFollowed_nil, true_and]
      cases m with
      | between => exact iff_of_true rfl (awaits_between [])
      | target kind =>
          rw [awaits_target]
          exact iff_of_false (by simp [run, finish]) not_wordFollows_nil
      | word kind read => exact iff_of_true rfl (awaits_word kind read [])
  | cons c t ih =>
      rw [operatorsFollowed_cons]
      cases m with
      | between =>
          rw [run_silent (step_between c), ih, awaits_enter, and_comm]
          exact (and_iff_left (awaits_between (c :: t))).symm
      | target kind =>
          rw [awaits_target]
          cases hc : isSpace c with
          | true =>
              have hop := not_operator_of_isSpace hc
              rw [run_silent (step_target_space kind hc), ih, awaits_target, wordFollows_space hc]
              exact ⟨fun h => ⟨⟨fun h' => absurd h' hop, h.1⟩, h.2⟩, fun h => ⟨h.1.2, h.2⟩⟩
          | false =>
              rw [wordFollows_byte hc]
              by_cases hop : c = 60 ∨ c = 62
              · rw [run_failed (step_target_operator kind hc (isWordByte_of_operator hop))]
                exact iff_of_false (by simp) fun h => hop.elim h.2.1 h.2.2
              · have hne := not_or.mp hop
                rw [run_silent (step_target_byte kind (isWordByte_iff.mpr ⟨hc, hne⟩)), ih]
                rw [and_iff_left (awaits_word _ _ t), and_iff_left hne]
                exact (and_iff_right fun h => absurd h hop).symm
      | word kind read =>
          rw [and_iff_left (awaits_word kind read (c :: t))]
          cases hword : isWordByte c with
          | true =>
              have hop := ne_operator_of_isWordByte hword
              rw [run_silent (step_word_byte kind read hword), ih, and_iff_left (awaits_word _ _ t)]
              simp [hop]
          | false =>
              by_cases hdigit : kind = none ∧ read = text "2" ∧ c = 62
              · obtain ⟨rfl, rfl, rfl⟩ := hdigit
                rw [run_errorDigit, ih, awaits_target]
                simp [and_comm]
              · have hstep := step_word_end hword fun hkind hread hc => hdigit ⟨hkind, hread, hc⟩
                rw [run_emitting hstep, Option.isSome_map, ih, awaits_enter, and_comm]

end ReadMode

theorem readStage_isSome {segment : CString} :
    (readStage segment).isSome ↔ OperatorsFollowed segment := by
  rw [readStage, Option.isSome_map, ReadMode.itemsOf_eq_run, ReadMode.run_isSome,
    and_iff_left (ReadMode.awaits_between segment)]

/-- The parser accepts a string when in each of its first 16 stages every operator is
followed by a word, and it counts those stages. -/
theorem parse_accepts {malloc : Nat → Bool} (hmalloc : ∀ n, malloc n = true) (input : CString) :
    let stages := segments (bounded parserInputBuffer input)
    ∃ r, parserParse malloc input = some r ∧
      (r.1.isSome ↔ ∀ segment ∈ stages.take parserMaxStages, OperatorsFollowed segment) ∧
      ∀ cmd, r.1 = some cmd → parserGetStageCount cmd = min parserMaxStages stages.length := by
  intro stages
  obtain ⟨r, hparse, hparsed⟩ := parserParse_parsed malloc input
  refine ⟨r, hparse, ?_, fun cmd hcmd => ?_⟩
  · have hread : (readStages parserMaxStages (bounded parserInputBuffer input)).isSome ↔
        ∀ segment ∈ stages.take parserMaxStages, OperatorsFollowed segment := by
      rw [readStages_isSome]
      exact forall₂_congr fun _ _ => readStage_isSome
    rw [← hread]
    refine ⟨fun hsome => ?_, hparsed.accepted hmalloc⟩
    obtain ⟨cmd, hcmd⟩ := Option.isSome_iff_exists.mp hsome
    obtain ⟨rest, hrest, -⟩ := hparsed.shows cmd hcmd
    rw [hrest]
    rfl
  · obtain ⟨rest, hrest, hshows⟩ := hparsed.shows cmd hcmd
    have hlen := congrArg List.length (readStages_eq_some.mp hrest)
    rw [List.length_map, List.length_map, List.length_take] at hlen
    rw [hshows.count, List.nil_append, List.length_map, ← hlen]

theorem parse_accepts_attached_operator :
    ∃ r, parserParse (fun _ => true) (text "a 2>e|b >\t<") = some r ∧ r.1.isSome = false := by
  obtain ⟨r, hparse, haccepts, -⟩ := parse_accepts (fun _ => rfl) (text "a 2>e|b >\t<")
  refine ⟨r, hparse, Bool.eq_false_iff.mpr fun hsome => ?_⟩
  have hfollowed := haccepts.mp hsome (text "b >\t<") (by decide)
  exact absurd (readStage_isSome.mpr hfollowed) (by decide)

end RunnerOrchestrator
