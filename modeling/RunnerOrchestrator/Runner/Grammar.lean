import RunnerOrchestrator.Runner.Parser
import Mathlib.Data.List.TakeWhile

/-! # The command language without its bounds

The same lexical rules as the parser's, on strings of any length, with any number of
arguments and stages, and without a heap. A stage of the parser shows a stage of
this grammar when its argv holds the words of that stage and then NULLs only, and
its targets are those of that stage.
-/

namespace RunnerOrchestrator

/-! ## Items and stages -/

/-- What one round of the loop of `parse_stage` reads. -/
inductive Item
  | arg (word : CString)
  | redirect (target : RedirectTarget) (word : CString)
deriving Repr, DecidableEq

def Item.word : Item → CString
  | .arg word => word
  | .redirect _ word => word

def Item.argument? : Item → Option CString
  | .arg word => some word
  | .redirect _ _ => none

def Item.fileFor? (target : RedirectTarget) : Item → Option CString
  | .arg _ => none
  | .redirect kind word => if kind = target then some word else none

structure Stage where
  args : List CString
  files : RedirectTarget → Option CString

/-- The arguments in order, and for each operator the target of its last use. -/
def stageOf (items : List Item) : Stage :=
  ⟨items.filterMap Item.argument?, fun target => (items.filterMap (Item.fileFor? target)).getLast?⟩

/-- The stage with the arguments that `argv` has room for. -/
def Stage.cut (stage : Stage) : Stage := { stage with args := stage.args.take (parserMaxArgs - 1) }

theorem stageOf_args_snoc_arg (items : List Item) (word : CString) :
    (stageOf (items ++ [.arg word])).args = (stageOf items).args ++ [word] := by
  simp [stageOf, Item.argument?]

theorem stageOf_args_snoc_redirect (items : List Item) (target : RedirectTarget) (word : CString) :
    (stageOf (items ++ [.redirect target word])).args = (stageOf items).args := by
  simp [stageOf, Item.argument?]

theorem stageOf_files_snoc_arg (items : List Item) (word : CString) :
    (stageOf (items ++ [.arg word])).files = (stageOf items).files := by
  simp [stageOf, Item.fileFor?]

theorem stageOf_files_snoc_redirect (items : List Item) (target : RedirectTarget)
    (word : CString) (kind : RedirectTarget) :
    (stageOf (items ++ [.redirect target word])).files kind =
      if target = kind then some word else (stageOf items).files kind := by
  unfold stageOf
  by_cases h : target = kind
  · simp [Item.fileFor?, h]
  · simp [Item.fileFor?, h]

theorem Stage.cut_of_le {stage : Stage} (h : stage.args.length ≤ parserMaxArgs - 1) :
    stage.cut = stage := by
  unfold Stage.cut
  rw [List.take_of_length_le h]

/-- Every item leaves its mark on the stage. -/
theorem cut_eq_empty {items : List Item} : (stageOf items).cut = (stageOf []).cut ↔ items = [] := by
  refine ⟨fun h => ?_, fun h => by rw [h]⟩
  obtain rfl | ⟨init, item, rfl⟩ := List.eq_nil_or_concat items
  · rfl
  · rw [List.concat_eq_append] at h
    cases item with
    | arg word =>
        have hargs := congrArg Stage.args h
        rw [Stage.cut, stageOf_args_snoc_arg] at hargs
        simp [Stage.cut, stageOf, parserMaxArgs] at hargs
    | redirect kind word =>
        have hfile := congrArg (fun stage => stage.files kind) h
        simp only [Stage.cut, stageOf_files_snoc_redirect] at hfile
        simp [stageOf] at hfile

theorem map_cut_of_fits {pipeline : List Stage}
    (h : ∀ s ∈ pipeline, s.args.length < parserMaxArgs) : pipeline.map Stage.cut = pipeline := by
  have hcut : pipeline.map Stage.cut = pipeline.map id :=
    List.map_congr_left fun s hs => Stage.cut_of_le (Nat.le_sub_one_of_lt (h s hs))
  rw [hcut, List.map_id]

/-! ## Reading a stage -/

/-- The word at the cursor, past spaces, with the position after it. -/
def wordAt (cursor : CString) : Option (CString × CString) :=
  let start := skipSpaces cursor
  if start.takeWhile isWordByte = [] then none
  else some (start.takeWhile isWordByte, start.dropWhile isWordByte)

/-- The item at the cursor, with the position after it. -/
def itemAt (cursor : CString) : Option (Item × CString) :=
  match operatorAt cursor with
  | some (target, rest) => (wordAt rest).map fun w => (.redirect target w.1, w.2)
  | none => (wordAt cursor).map fun w => (.arg w.1, w.2)

/-- At most `fuel` rounds of reading items to the end of the string. -/
def readItems : Nat → CString → Option (List Item)
  | 0, _ => none
  | fuel + 1, cursor =>
      if skipSpaces cursor = [] then some []
      else (itemAt (skipSpaces cursor)).bind fun r => (readItems fuel r.2).map (r.1 :: ·)

def itemsOf (segment : CString) : Option (List Item) := readItems (segment.length + 1) segment

def readStage (segment : CString) : Option Stage := (itemsOf segment).map stageOf

/-! ## Reading a pipeline -/

/-- The parts between '|', without the empty ones. -/
def segments (s : CString) : List CString := (s.splitOn 124).filter (· ≠ [])

/-- The parse of the whole string; it fails when one stage does. -/
def readPipeline (s : CString) : Option (List Stage) := (segments s).mapM readStage

/-- The stages of the first `left` segments. -/
def readStages (left : Nat) (s : CString) : Option (List Stage) :=
  ((segments s).take left).mapM readStage

theorem mapM_eq_some {α β : Type} {f : α → Option β} {xs : List α} {ys : List β} :
    xs.mapM f = some ys ↔ xs.map f = ys.map some := by
  induction xs generalizing ys with
  | nil => cases ys <;> simp
  | cons x xs ih =>
      rw [List.mapM_cons]
      cases ys with
      | nil => cases f x <;> cases xs.mapM f <;> simp
      | cons y ys =>
          rw [List.map_cons, List.map_cons, List.cons.injEq, ← ih]
          cases f x <;> cases xs.mapM f <;> simp

theorem readStages_eq_some {left : Nat} {s : CString} {stages : List Stage} :
    readStages left s = some stages ↔
      ((segments s).take left).map readStage = stages.map some :=
  mapM_eq_some

theorem readStages_getElem? {left : Nat} {s : CString} {stages : List Stage}
    (h : readStages left s = some stages) {i : Nat} {stage : Stage} (hi : stages[i]? = some stage) :
    ∃ segment, (segments s)[i]? = some segment ∧ readStage segment = some stage := by
  have hmap := congrArg (·[i]?) (readStages_eq_some.mp h)
  simp only [List.getElem?_map, hi, Option.map_some] at hmap
  obtain ⟨segment, hsegment, hread⟩ := Option.map_eq_some_iff.mp hmap
  rw [List.getElem?_take] at hsegment
  split at hsegment
  · exact ⟨segment, hsegment, hread⟩
  · cases hsegment

/-- A pipeline is read when each of its segments is. -/
theorem readStages_isSome {left : Nat} {s : CString} :
    (readStages left s).isSome ↔ ∀ segment ∈ (segments s).take left, (readStage segment).isSome := by
  unfold readStages
  induction (segments s).take left with
  | nil => simp
  | cons segment rest ih =>
      rw [List.mapM_cons, List.forall_mem_cons, ← ih]
      cases readStage segment <;> cases rest.mapM readStage <;> simp

example : (readPipeline (text "a b<in||c 2>e")).map (List.map Stage.args) =
    some [[text "a", text "b"], [text "c"]] := by decide

/-! ## Every item shortens the cursor -/

theorem length_skipSpaces_le (cursor : CString) : (skipSpaces cursor).length ≤ cursor.length :=
  List.length_dropWhile_le isSpace cursor

theorem length_of_wordAt {cursor : CString} {r : CString × CString} (h : wordAt cursor = some r) :
    r.2.length < cursor.length := by
  simp only [wordAt] at h
  split at h
  · cases h
  · next hne =>
    cases h
    have hsplit := congrArg List.length
      (List.takeWhile_append_dropWhile (p := isWordByte) (l := skipSpaces cursor))
    rw [List.length_append] at hsplit
    have hpos := List.length_pos_iff.mpr hne
    have hle := length_skipSpaces_le cursor
    dsimp only
    omega

theorem length_of_operatorAt {cursor : CString} {r : RedirectTarget × CString}
    (h : operatorAt cursor = some r) : r.2.length < cursor.length := by
  unfold operatorAt at h
  split at h <;> cases h <;> simp only [List.length_cons] <;> omega

theorem length_of_itemAt {cursor : CString} {r : Item × CString} (h : itemAt cursor = some r) :
    r.2.length < cursor.length := by
  unfold itemAt at h
  split at h
  · next target after hop =>
    obtain ⟨w, hword, rfl⟩ := Option.map_eq_some_iff.mp h
    exact Nat.lt_trans (length_of_wordAt hword) (length_of_operatorAt hop)
  · obtain ⟨w, hword, rfl⟩ := Option.map_eq_some_iff.mp h
    exact length_of_wordAt hword

/-- Fuel beyond the length of the cursor makes no difference. -/
theorem readItems_fuel {fuel fuel' : Nat} {cursor : CString} (h : cursor.length < fuel)
    (h' : cursor.length < fuel') : readItems fuel cursor = readItems fuel' cursor := by
  induction fuel generalizing fuel' cursor with
  | zero => omega
  | succ fuel ih =>
      obtain ⟨fuel', rfl⟩ : ∃ k, fuel' = k + 1 := ⟨fuel' - 1, by omega⟩
      unfold readItems
      split
      · rfl
      · refine Option.bind_congr fun r hr => ?_
        have hlt := length_of_itemAt hr
        have hle := length_skipSpaces_le cursor
        have hrest : readItems fuel r.2 = readItems fuel' r.2 := ih (by omega) (by omega)
        rw [hrest]

theorem readItems_eq_itemsOf {fuel : Nat} {cursor : CString} (h : cursor.length < fuel) :
    readItems fuel cursor = itemsOf cursor :=
  readItems_fuel h (Nat.lt_succ_self _)

theorem itemsOf_blank {cursor : CString} (h : skipSpaces cursor = []) :
    itemsOf cursor = some [] := by
  simp [itemsOf, readItems, h]

theorem itemsOf_item {cursor : CString} (h : skipSpaces cursor ≠ []) :
    itemsOf cursor =
      (itemAt (skipSpaces cursor)).bind fun r => (itemsOf r.2).map (r.1 :: ·) := by
  rw [itemsOf, readItems, if_neg h]
  refine Option.bind_congr fun r hr => ?_
  have hlt := length_of_itemAt hr
  have hle := length_skipSpaces_le cursor
  rw [readItems_eq_itemsOf (by omega)]

/-! ## The parser's tokens -/

theorem skipSpaces_head {cursor rest : CString} {c : UInt8} (h : skipSpaces cursor = c :: rest) :
    isSpace c = false := by
  have hhead := List.head?_dropWhile_not isSpace cursor
  unfold skipSpaces at h
  rw [h] at hhead
  simpa using hhead

/-- `parse_token` reads the word at the cursor, and fails without one or without memory. -/
theorem parseToken_eq (malloc : Nat → Bool) (cursor : CString) (l : Ledger) :
    parseToken malloc cursor l =
      match wordAt cursor with
      | none => (none, l)
      | some w =>
          ((duplicateRange malloc w.1 l).1.map fun token => (token, w.2),
            (duplicateRange malloc w.1 l).2) := by
  unfold parseToken wordAt
  cases hstart : skipSpaces cursor with
  | nil => rfl
  | cons c rest =>
      have hspace := skipSpaces_head hstart
      by_cases hop : c = 60 ∨ c = 62
      · have hword : isWordByte c = false := by
          obtain rfl | rfl := hop <;> rfl
        simp only [hop, if_true, List.takeWhile_cons, hword]
        rfl
      · have hword : isWordByte c = true := by
          simpa [isWordByte, hspace] using not_or.mp hop
        simp only [hop, if_false, List.takeWhile_cons, hword, if_true]
        rfl

/-! ## Splitting at pipes -/

theorem splitOn_pipe (s : CString) : (124 :: s).splitOn (124 : UInt8) = [] :: s.splitOn 124 := by
  rw [List.splitOn_cons_eq_if_modifyHead]
  rfl

/-- Another byte belongs to the first part. -/
theorem splitOn_byte {c : UInt8} (hc : c ≠ 124) (s : CString) :
    ∃ part parts, s.splitOn 124 = part :: parts ∧
      (c :: s).splitOn (124 : UInt8) = (c :: part) :: parts := by
  obtain ⟨part, parts, hparts⟩ := List.exists_cons_of_ne_nil (List.splitOn_ne_nil (124 : UInt8) s)
  refine ⟨part, parts, hparts, ?_⟩
  rw [List.splitOn_cons_eq_if_modifyHead, if_neg (by simpa using hc), hparts]
  rfl

theorem pipe_not_mem_part {s part : CString} (h : part ∈ s.splitOn 124) : (124 : UInt8) ∉ part := by
  induction s generalizing part with
  | nil =>
      rw [List.splitOn_nil, List.mem_singleton] at h
      simp [h]
  | cons c s ih =>
      by_cases hc : c = 124
      · rw [hc, splitOn_pipe] at h
        obtain rfl | h := List.mem_cons.mp h
        · simp
        · exact ih h
      · obtain ⟨first, parts, hs, hcs⟩ := splitOn_byte hc s
        rw [hcs] at h
        obtain rfl | h := List.mem_cons.mp h
        · have hfirst : (124 : UInt8) ∉ first := ih (by simp [hs])
          simpa [hfirst] using Ne.symm hc
        · exact ih (by simp [hs, h])

theorem pipe_not_mem_segment {s segment : CString} (h : segment ∈ segments s) :
    (124 : UInt8) ∉ segment :=
  pipe_not_mem_part (List.mem_of_mem_filter h)

theorem segments_pipe (s : CString) : segments (124 :: s) = segments s := by
  unfold segments
  rw [splitOn_pipe]
  simp

theorem segments_dropWhile_pipe (s : CString) :
    segments (s.dropWhile fun c => c == 124) = segments s := by
  induction s with
  | nil => rfl
  | cons c s ih =>
      by_cases hc : c = 124
      · rw [List.dropWhile_cons_of_pos (by simpa using hc), ih, hc, segments_pipe]
      · rw [List.dropWhile_cons_of_neg (by simpa using hc)]

theorem segments_of_not_mem {s : CString} (h : (124 : UInt8) ∉ s) (hne : s ≠ []) :
    segments s = [s] := by
  unfold segments
  rw [List.splitOn_eq_singleton h]
  simp [hne]

theorem segments_append_pipe {segment : CString} (h : (124 : UInt8) ∉ segment)
    (hne : segment ≠ []) (rest : CString) :
    segments (segment ++ 124 :: rest) = segment :: segments rest := by
  unfold segments
  rw [List.splitOn_append_cons_self_of_not_mem h, List.filter_cons_of_pos (by simpa using hne)]

/-- What stands before the first '|' and what stands behind it. -/
theorem segments_takeWhile_pipe {c : UInt8} (hc : c ≠ 124) (rest : CString) :
    segments (c :: rest) =
      (c :: rest).takeWhile (fun c => c != 124) ::
        segments (((c :: rest).dropWhile fun c => c != 124).drop 1) := by
  have hno : (124 : UInt8) ∉ (c :: rest).takeWhile fun c => c != 124 := fun hmem => by
    simpa using List.mem_takeWhile_imp hmem
  have hne : ((c :: rest).takeWhile fun c => c != 124) ≠ [] := by
    simp [hc]
  have hstop := List.head?_dropWhile_not (fun c : UInt8 => c != 124) (c :: rest)
  have hsplit := List.takeWhile_append_dropWhile (p := fun c : UInt8 => c != 124) (l := c :: rest)
  generalize (c :: rest).takeWhile (fun c => c != 124) = segment at hno hne hsplit ⊢
  generalize (c :: rest).dropWhile (fun c => c != 124) = after at hstop hsplit ⊢
  rw [← hsplit]
  cases after with
  | nil =>
      rw [List.append_nil, segments_of_not_mem hno hne]
      rfl
  | cons d save =>
      have hd : d = 124 := by simpa using hstop
      rw [hd, segments_append_pipe hno hne]
      rfl

/-- `strtok_r` hands out the segments one by one. -/
theorem segments_eq_strtokR (s : CString) :
    segments s =
      match strtokR s with
      | none => []
      | some (segment, save) => segment :: segments save := by
  rw [← segments_dropWhile_pipe]
  unfold strtokR
  cases hstart : s.dropWhile fun c => c == 124 with
  | nil => rfl
  | cons c rest =>
      have hhead := List.head?_dropWhile_not (fun c : UInt8 => c == 124) s
      rw [hstart] at hhead
      exact segments_takeWhile_pipe (by simpa using hhead) rest

theorem readStages_zero (s : CString) : readStages 0 s = some [] := by
  simp [readStages]

theorem readStages_succ (left : Nat) (s : CString) :
    readStages (left + 1) s =
      match strtokR s with
      | none => some []
      | some (segment, save) =>
          (readStage segment).bind fun stage => (readStages left save).map (stage :: ·) := by
  unfold readStages
  rw [segments_eq_strtokR]
  cases strtokR s with
  | none => rfl
  | some r =>
      simp only [List.take_succ_cons, List.mapM_cons]
      cases readStage r.1 with
      | none => rfl
      | some stage => cases ((segments r.2).take left).mapM readStage <;> rfl

end RunnerOrchestrator
