import RunnerOrchestrator.Runner.Rendering

/-! # Reading a stage byte by byte

The grammar reads an item at a time and looks two bytes ahead for `2>`. The same items
come out of an automaton that reads one byte at a time and decides about a word when
it ends. A statement about every string is then an induction on its bytes.
-/

namespace RunnerOrchestrator

/-- Between two items, behind an operator whose target has not begun, or inside a word:
the target of `kind`, or an argument. -/
inductive ReadMode
  | between
  | target (kind : RedirectTarget)
  | word (kind : Option RedirectTarget) (read : CString)

/-- The item that a word is. -/
def itemOf : Option RedirectTarget → CString → Item
  | none, word => .arg word
  | some kind, word => .redirect kind word

namespace ReadMode

/-- The mode after a byte outside of words. -/
def enter (c : UInt8) : ReadMode :=
  if isSpace c then .between
  else if c = 60 then .target .inputFile
  else if c = 62 then .target .outputFile
  else .word none [c]

/-- The mode after one more byte and the items that end before it. -/
def step : ReadMode → UInt8 → Option (ReadMode × List Item)
  | .between, c => some (enter c, [])
  | .target kind, c =>
      if isSpace c then some (.target kind, [])
      else if isWordByte c then some (.word (some kind) [c], [])
      else none
  | .word kind read, c =>
      if isWordByte c then some (.word kind (read ++ [c]), [])
      else if c = 62 ∧ kind = none ∧ read = text "2" then some (.target .errorFile, [])
      else some (enter c, [itemOf kind read])

/-- The items that end with the string. -/
def finish : ReadMode → Option (List Item)
  | .between => some []
  | .target _ => none
  | .word kind read => some [itemOf kind read]

/-- The items read from a mode on. -/
def run : ReadMode → CString → Option (List Item)
  | m, [] => m.finish
  | m, c :: t => (m.step c).bind fun r => (run r.1 t).map (r.2 ++ ·)

theorem run_silent {m m' : ReadMode} {c : UInt8} (h : m.step c = some (m', [])) (t : CString) :
    run m (c :: t) = run m' t := by
  simp [run, h]

theorem run_failed {m : ReadMode} {c : UInt8} (h : m.step c = none) (t : CString) :
    run m (c :: t) = none := by
  rw [run, h]
  rfl

theorem run_emitting {m m' : ReadMode} {c : UInt8} {item : Item}
    (h : m.step c = some (m', [item])) (t : CString) :
    run m (c :: t) = (run m' t).map (item :: ·) := by
  rw [run, h]
  rfl

theorem step_between (c : UInt8) : step .between c = some (enter c, []) := rfl

theorem step_word_byte (kind : Option RedirectTarget) (read : CString) {c : UInt8}
    (hc : isWordByte c = true) : step (.word kind read) c = some (.word kind (read ++ [c]), []) :=
  if_pos hc

theorem step_target_space (kind : RedirectTarget) {c : UInt8} (hc : isSpace c = true) :
    step (.target kind) c = some (.target kind, []) :=
  if_pos hc

theorem step_target_byte (kind : RedirectTarget) {c : UInt8} (hc : isWordByte c = true) :
    step (.target kind) c = some (.word (some kind) [c], []) := by
  simp [step, hc, isSpace_of_isWordByte hc]

theorem step_target_operator (kind : RedirectTarget) {c : UInt8} (hspace : isSpace c = false)
    (hc : isWordByte c = false) : step (.target kind) c = none := by
  simp [step, hspace, hc]

/-- A word that ends is an item, unless it is the 2 of `2>`. -/
theorem step_word_end {kind : Option RedirectTarget} {read : CString} {c : UInt8}
    (hc : isWordByte c = false) (hdigit : kind = none → read = text "2" → c ≠ 62) :
    step (.word kind read) c = some (enter c, [itemOf kind read]) := by
  have hne : ¬ (c = 62 ∧ kind = none ∧ read = text "2") := fun h => hdigit h.2.1 h.2.2 h.1
  simp only [step, hc, hne, if_false, Bool.false_eq_true]

theorem run_errorDigit (t : CString) :
    run (.word none (text "2")) (62 :: t) = run (.target .errorFile) t :=
  run_silent rfl t

theorem enter_space {c : UInt8} (hc : isSpace c = true) : enter c = .between :=
  if_pos hc

theorem enter_byte {c : UInt8} (hc : isWordByte c = true) : enter c = .word none [c] := by
  have hne := ne_operator_of_isWordByte hc
  simp [enter, isSpace_of_isWordByte hc, hne]

/-! ## Words -/

theorem run_word (kind : Option RedirectTarget) (read : CString) {word : CString}
    (hword : ∀ c ∈ word, isWordByte c = true) (t : CString) :
    run (.word kind read) (word ++ t) = run (.word kind (read ++ word)) t := by
  induction word generalizing read with
  | nil => simp
  | cons c word ih =>
      obtain ⟨hc, hword⟩ := List.forall_mem_cons.mp hword
      rw [List.cons_append, run_silent (step_word_byte kind read hc), ih _ hword]
      simp

theorem run_word_end {kind : Option RedirectTarget} {read t : CString} (ht : EndsWord t)
    (hdigit : kind = none → read = text "2" → t.head? ≠ some 62) :
    run (.word kind read) t = (run .between t).map (itemOf kind read :: ·) := by
  cases t with
  | nil => rfl
  | cons c t =>
      have hstep := step_word_end (ht c rfl) fun hkind htwo heq =>
        hdigit hkind htwo (congrArg some heq)
      rw [run_emitting hstep, run_silent (step_between c)]

theorem run_word_wordAt (kind : Option RedirectTarget) {c : UInt8} {t : CString}
    (hdigit : kind = none → c = 50 → t.head? ≠ some 62) :
    run (.word kind [c]) t =
      (run .between (t.dropWhile isWordByte)).map (itemOf kind (c :: t.takeWhile isWordByte) :: ·) := by
  have hword : ∀ d ∈ t.takeWhile isWordByte, isWordByte d = true := fun d hd =>
    List.mem_takeWhile_imp hd
  have hsplit := run_word kind [c] hword (t.dropWhile isWordByte)
  rw [List.takeWhile_append_dropWhile] at hsplit
  have hends : EndsWord (t.dropWhile isWordByte) := fun d hd => by
    have hstop := List.head?_dropWhile_not isWordByte t
    rw [Option.mem_def.mp hd] at hstop
    simpa using hstop
  rw [hsplit]
  refine run_word_end hends fun hkind htwo => ?_
  obtain ⟨hc, hnil⟩ := List.cons.inj (htwo : c :: t.takeWhile isWordByte = [50])
  have hrest : t.dropWhile isWordByte = t := by
    have hparts := List.takeWhile_append_dropWhile (p := isWordByte) (l := t)
    rwa [show t.takeWhile isWordByte = [] from hnil, List.nil_append] at hparts
  rw [hrest]
  exact hdigit hkind hc

end ReadMode

/-! ## The items of the grammar -/

theorem wordAt_space {c : UInt8} (hc : isSpace c = true) (t : CString) :
    wordAt (c :: t) = wordAt t := by
  simp [wordAt, skipSpaces, hc]

theorem wordAt_byte {c : UInt8} (hc : isWordByte c = true) (t : CString) :
    wordAt (c :: t) = some (c :: t.takeWhile isWordByte, t.dropWhile isWordByte) := by
  simp [wordAt, skipSpaces_of_head (isSpace_of_isWordByte hc), hc]

theorem wordAt_operator {c : UInt8} (hspace : isSpace c = false) (hc : isWordByte c = false)
    (t : CString) : wordAt (c :: t) = none := by
  simp [wordAt, skipSpaces_of_head hspace, hc]

theorem operatorAt_eq_some {cursor rest : CString} {kind : RedirectTarget}
    (h : operatorAt cursor = some (kind, rest)) : cursor = kind.operator ++ rest := by
  unfold operatorAt at h
  split at h
  · cases h
    rfl
  · cases h
    rfl
  · cases h
    rfl
  · cases h

theorem ne_operator_of_operatorAt {c : UInt8} {t : CString} (h : operatorAt (c :: t) = none) :
    c ≠ 60 ∧ c ≠ 62 := by
  constructor
  · rintro rfl
    cases h
  · rintro rfl
    cases h

namespace ReadMode

theorem run_between_space {c : UInt8} (hc : isSpace c = true) (t : CString) :
    run .between (c :: t) = run .between t := by
  rw [run_silent (step_between c), enter_space hc]

theorem run_between_skipSpaces (t : CString) : run .between (skipSpaces t) = run .between t := by
  induction t with
  | nil => rfl
  | cons c t ih =>
      cases hc : isSpace c with
      | true =>
          rw [run_between_space hc, ← ih]
          simp [skipSpaces, hc]
      | false => rw [skipSpaces_of_head hc]

/-- Behind an operator the next word is its target. -/
theorem run_target (kind : RedirectTarget) (t : CString) :
    run (.target kind) t =
      (wordAt t).bind fun w => (run .between w.2).map (.redirect kind w.1 :: ·) := by
  induction t with
  | nil => rfl
  | cons c t ih =>
      cases hc : isSpace c with
      | true => rw [run_silent (step_target_space kind hc), ih, wordAt_space hc]
      | false =>
          cases hbyte : isWordByte c with
          | true =>
              rw [run_silent (step_target_byte kind hbyte), wordAt_byte hbyte,
                run_word_wordAt (some kind) fun hkind => nomatch hkind]
              rfl
          | false =>
              rw [run_failed (step_target_operator kind hc hbyte), wordAt_operator hc hbyte]
              rfl

theorem run_operatorAt {cursor rest : CString} {kind : RedirectTarget}
    (h : operatorAt cursor = some (kind, rest)) :
    run .between cursor = run (.target kind) rest := by
  rw [operatorAt_eq_some h]
  cases kind with
  | inputFile => exact run_silent rfl rest
  | outputFile => exact run_silent rfl rest
  | errorFile => exact (run_silent (step_between 50) (62 :: rest)).trans (run_errorDigit rest)

/-- One item of the grammar is one stretch of the automaton. -/
theorem run_itemAt {c : UInt8} {t : CString} (hc : isSpace c = false) :
    run .between (c :: t) =
      (itemAt (c :: t)).bind fun r => (run .between r.2).map (r.1 :: ·) := by
  cases hop : operatorAt (c :: t) with
  | some after =>
      have hitem : itemAt (c :: t) =
          (wordAt after.2).map fun w => (.redirect after.1 w.1, w.2) := by
        simp only [itemAt, hop]
      rw [run_operatorAt hop, run_target, hitem, Option.bind_map]
      rfl
  | none =>
      have hne := ne_operator_of_operatorAt hop
      have hdigit : c = 50 → t.head? ≠ some 62 := by
        rintro rfl htwo
        obtain ⟨t, rfl⟩ := List.head?_eq_some_iff.mp htwo
        cases hop
      have hbyte : isWordByte c = true := by simp [isWordByte, hc, hne]
      have hitem : itemAt (c :: t) =
          some (.arg (c :: t.takeWhile isWordByte), t.dropWhile isWordByte) := by
        simp only [itemAt, hop, wordAt_byte hbyte, Option.map_some]
      rw [run_silent (step_between c), enter_byte hbyte, run_word_wordAt none fun _ => hdigit,
        hitem]
      rfl

/-- By induction on the length: both read one item and go on behind it. -/
theorem itemsOf_eq_run (t : CString) : itemsOf t = run .between t := by
  induction hn : t.length using Nat.strongRecOn generalizing t with
  | ind n ih =>
      rw [← run_between_skipSpaces]
      cases hskip : skipSpaces t with
      | nil =>
          rw [itemsOf_blank hskip]
          rfl
      | cons c rest =>
          have hle := length_skipSpaces_le t
          rw [itemsOf_item (by simp [hskip]), hskip, run_itemAt (skipSpaces_head hskip)]
          refine Option.bind_congr fun r hr => ?_
          have hlt := length_of_itemAt hr
          rw [hskip] at hle
          rw [ih r.2.length (by omega) r.2 rfl]

end ReadMode

end RunnerOrchestrator
