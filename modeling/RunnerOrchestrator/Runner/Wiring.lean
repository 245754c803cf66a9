import RunnerOrchestrator.Runner.Executor

/-! # The wiring of a pipeline

At the head of a round the parent's table is the one at entry plus the read end left
by the round before, if there is one. A child inherits that and its own pipe, and
ends up with the table at entry where only the three standard descriptors differ.
-/

namespace RunnerOrchestrator

open Descriptors

/-- Every `pipe`, `fork`, `dup2` and `open` succeeds. -/
structure Kernel.CallsSucceed (k : Kernel) : Prop where
  pipe : ∀ stage t, (k.pipe stage t).isSome
  fork : ∀ stage, k.fork stage = true
  dup2 : ∀ stage n, k.dup2 stage n = true
  openFd : ∀ stage target t, (k.openFd stage target t).isSome

/-- A kernel whose calls succeed, with new descriptors above all others. -/
def Kernel.calm : Kernel where
  pipe _ t := some (above t, above t + 1)
  pipe_free h := by
    cases h
    exact ⟨notMem_above (Nat.le_refl _), notMem_above (Nat.le_succ _), Nat.ne_add_one _⟩
  fork _ := true
  dup2 _ _ := true
  openFd _ _ t := some (above t)
  openFd_free h := by
    cases h
    exact notMem_above (Nat.le_refl _)
  program _ := .exited 0
  wait _ left := left.head?
  wait_mem h := List.mem_of_mem_head? h

theorem Kernel.calm_callsSucceed : Kernel.calm.CallsSucceed :=
  ⟨fun _ _ => rfl, fun _ => rfl, fun _ _ => rfl, fun _ _ _ => rfl⟩

/-- Descriptors 0, 1 and 2 are open. -/
structure Standard (t : FdTable) : Prop where
  stdin : 0 ∈ t
  stdout : 1 ∈ t
  stderr : 2 ∈ t

theorem Standard.install {t : FdTable} (h : Standard t) (o : Option OpenFile) (target : Fd) :
    Standard (install o target t) :=
  ⟨mem_install_of_mem o h.stdin, mem_install_of_mem o h.stdout, mem_install_of_mem o h.stderr⟩

/-- The standard descriptors are open, and the pipes of the pipeline do not exist yet. -/
structure Entry (t : FdTable) : Prop where
  standard : Standard t
  inherited : ∀ fd obj, t.lookup fd = some obj → ∃ description, obj = .inherited description

/-- What the redirection of a stage opens. -/
def redirection (cmd : ParsedCommand) (i : Nat) (target : RedirectTarget) : Option OpenFile :=
  let file := match target with
    | .inputFile => parserGetInputFile cmd i
    | .outputFile => parserGetOutputFile cmd i
    | .errorFile => parserGetErrorFile cmd i
  file.map fun token => .file token.text target.openMode

/-- The read end of the pipe before stage `i`. -/
def readEndBefore (i : Nat) : Option OpenFile := if 0 < i then some (.readEnd (i - 1)) else none

/-- The write end of the pipe behind stage `i`. -/
def writeEndAfter (numStages i : Nat) : Option OpenFile :=
  if i < numStages - 1 then some (.writeEnd i) else none

/-- The descriptors of stage `i` at its `execvp`. -/
structure Wired (cmd : ParsedCommand) (entry : FdTable) (i : Nat) (t : FdTable) : Prop where
  stdin : t.lookup 0 =
    ((redirection cmd i .inputFile).or (readEndBefore i)).or (entry.lookup 0)
  stdout : t.lookup 1 =
    ((redirection cmd i .outputFile).or (writeEndAfter cmd.stageCount i)).or (entry.lookup 1)
  stderr : t.lookup 2 = (redirection cmd i .errorFile).or (entry.lookup 2)
  others : ∀ fd, 2 < fd → t.lookup fd = entry.lookup fd

/-! ## Redirections of a child -/

/-- The descriptors of the pipe ends that the parent holds at a fork: the read end of
the pipe before the stage, and the two ends of the pipe behind it. -/
structure PipeEnds (entry : FdTable) (prev read write : Option Fd) : Prop where
  prev_free : ∀ fd ∈ prev, fd ∉ entry
  read_free : ∀ fd ∈ read, fd ∉ entry
  write_free : ∀ fd ∈ write, fd ∉ entry
  prev_read : ∀ fd ∈ prev, ∀ fd' ∈ read, fd ≠ fd'
  prev_write : ∀ fd ∈ prev, ∀ fd' ∈ write, fd ≠ fd'
  read_write : ∀ fd ∈ read, ∀ fd' ∈ write, fd ≠ fd'

/-- The parent's table at the fork of stage `i`. -/
def atFork (entry : FdTable) (i : Nat) (prev read write : Option Fd) : FdTable :=
  hold write (.writeEnd i) (hold read (.readEnd i) (hold prev (.readEnd (i - 1)) entry))

theorem lookup_write {entry : FdTable} {i : Nat} {prev read write : Option Fd} {fd : Fd}
    (hfd : fd ∈ write) : (atFork entry i prev read write).lookup fd = some (.writeEnd i) :=
  lookup_hold_self hfd

namespace PipeEnds

variable {entry : FdTable} {prev read write : Option Fd}

theorem close_prev (h : PipeEnds entry prev read write) (i : Nat) :
    closeIf prev (atFork entry i prev read write) =
      hold write (.writeEnd i) (hold read (.readEnd i) entry) := by
  rw [atFork, closeIf_hold_of_ne h.prev_write, closeIf_hold_of_ne h.prev_read,
    closeIf_hold h.prev_free]

theorem close_read (h : PipeEnds entry prev read write) (i : Nat) :
    closeIf read (hold write (.writeEnd i) (hold read (.readEnd i) entry)) =
      hold write (.writeEnd i) entry := by
  rw [closeIf_hold_of_ne h.read_write, closeIf_hold h.read_free]

theorem close_write (h : PipeEnds entry prev read write) (i : Nat) :
    closeIf write (hold write (.writeEnd i) (hold read (.readEnd i) entry)) =
      hold read (.readEnd i) entry := by
  have hfree : ∀ fd ∈ write, fd ∉ hold read (OpenFile.readEnd i) entry := fun fd hfd hmem => by
    obtain hread | hentry := mem_hold.mp hmem
    · exact h.read_write fd hread fd hfd rfl
    · exact h.write_free fd hfd hentry
  exact closeIf_hold hfree

/-- The three closes after a failing `fork`. -/
theorem close_early (h : PipeEnds entry prev read write) (i : Nat) :
    closeIf prev (closeIf write (closeIf read (atFork entry i prev read write))) = entry := by
  rw [closeIf_comm prev, closeIf_comm prev, h.close_prev, h.close_read, closeIf_hold h.write_free]

theorem lookup_prev (h : PipeEnds entry prev read write) {i : Nat} {fd : Fd} (hfd : fd ∈ prev) :
    (atFork entry i prev read write).lookup fd = some (.readEnd (i - 1)) := by
  rw [atFork, lookup_hold_of_ne (h.prev_write fd hfd), lookup_hold_of_ne (h.prev_read fd hfd),
    lookup_hold_self hfd]

/-- A descriptor that is open at entry is none of the pipe ends. -/
theorem ne_of_mem (h : PipeEnds entry prev read write) {target : Fd} (ht : target ∈ entry) :
    (∀ fd ∈ prev, fd ≠ target) ∧ (∀ fd ∈ read, fd ≠ target) ∧ ∀ fd ∈ write, fd ≠ target :=
  ⟨fun fd hfd heq => h.prev_free fd hfd (heq ▸ ht),
    fun fd hfd heq => h.read_free fd hfd (heq ▸ ht),
    fun fd hfd heq => h.write_free fd hfd (heq ▸ ht)⟩

/-- After its closes a child has its two ends on descriptors 0 and 1 only. -/
theorem close_standard (h : PipeEnds entry prev read write) (hstandard : Standard entry) (i : Nat)
    (stdin stdout : Option OpenFile) :
    closeIf write (closeIf read (closeIf prev
      (install stdout 1 (install stdin 0 (atFork entry i prev read write))))) =
      install stdout 1 (install stdin 0 entry) := by
  obtain ⟨hprev0, hread0, hwrite0⟩ := h.ne_of_mem hstandard.stdin
  obtain ⟨hprev1, hread1, hwrite1⟩ := h.ne_of_mem hstandard.stdout
  rw [closeIf_install stdout hprev1, closeIf_install stdin hprev0, h.close_prev,
    closeIf_install stdout hread1, closeIf_install stdin hread0, h.close_read,
    closeIf_install stdout hwrite1, closeIf_install stdin hwrite0, closeIf_hold h.write_free]

end PipeEnds

/-! ## A child at its `execvp` -/

/-- A `dup2` of a pipe end that the process may or may not have. -/
theorem dup2_end {end? : Option Fd} {obj : OpenFile} {t : FdTable} (target : Fd)
    (h : ∀ fd ∈ end?, t.lookup fd = some obj) :
    dup2If end?.isSome true end? target t = some (install (end?.map fun _ => obj) target t) := by
  cases end? with
  | none => rfl
  | some fd => simpa [dup2If, dup2, install] using dup2_of_lookup (h fd rfl) target

/-- The table of the child: the pipe ends first, then the redirections over them. -/
def childTable (cmd : ParsedCommand) (entry : FdTable) (numStages i : Nat) : FdTable :=
  let t := install (writeEndAfter numStages i) 1 (install (readEndBefore i) 0 entry)
  install (redirection cmd i .errorFile) 2
    (install (redirection cmd i .outputFile) 1 (install (redirection cmd i .inputFile) 0 t))

section Child

variable {k : Kernel} {cmd : ParsedCommand} {entry : FdTable} {prev read write : Option Fd}
  {numStages i : Nat}

theorem map_prev_eq (h : prev.isSome ↔ 0 < i) :
    prev.map (fun _ => OpenFile.readEnd (i - 1)) = readEndBefore i := by
  cases prev <;> simp_all [readEndBefore]

theorem map_write_eq (h : write.isSome ↔ i < numStages - 1) :
    write.map (fun _ => OpenFile.writeEnd i) = writeEndAfter numStages i := by
  cases write <;> simp_all [writeEndAfter]

end Child

theorem childTable_wired (cmd : ParsedCommand) (entry : FdTable) (i : Nat) :
    Wired cmd entry i (childTable cmd entry cmd.stageCount i) := by
  unfold childTable
  refine ⟨?_, ?_, ?_, fun fd hfd => ?_⟩
  · simp [lookup_install_self, lookup_install_of_ne, Option.or_assoc]
  · simp [lookup_install_self, lookup_install_of_ne, Option.or_assoc]
  · simp [lookup_install_self, lookup_install_of_ne]
  · have h0 : fd ≠ 0 := by rintro rfl; exact absurd hfd (by decide)
    have h1 : fd ≠ 1 := by rintro rfl; exact absurd hfd (by decide)
    have h2 : fd ≠ 2 := by rintro rfl; exact absurd hfd (by decide)
    simp [lookup_install_of_ne, h0, h1, h2]

/-! ## The parent's rounds -/

/-- The parent at the head of the round of stage `i`. -/
structure AtRound (entry : FdTable) (numStages i : Nat) (p : Parent) : Prop where
  prev : p.prevReadFd.isSome ↔ 0 < i ∧ i < numStages
  free : ∀ fd ∈ p.prevReadFd, fd ∉ entry
  table : p.table = hold p.prevReadFd (.readEnd (i - 1)) entry

section Parent

variable {k : Kernel} {cmd : ParsedCommand} {entry : FdTable} {numStages i : Nat} {p : Parent}

theorem openPipe_cases (k : Kernel) (h : AtRound entry numStages i p) :
    k.pipe i p.table = none ∧ openPipe k numStages i p.table = none ∨
    ∃ read write, openPipe k numStages i p.table =
        some ((read, write), atFork entry i p.prevReadFd read write) ∧
      PipeEnds entry p.prevReadFd read write ∧ (write.isSome ↔ i < numStages - 1) ∧
      (read.isSome ↔ i < numStages - 1) := by
  unfold openPipe
  by_cases hlast : i < numStages - 1
  · simp only [hlast, if_true]
    cases hpipe : k.pipe i p.table with
    | none => exact .inl ⟨rfl, rfl⟩
    | some fds =>
        have hfree := k.pipe_free hpipe
        rw [h.table] at hfree
        simp only [mem_hold, not_or] at hfree
        obtain ⟨⟨hreadprev, hread⟩, ⟨hwriteprev, hwrite⟩, hne⟩ := hfree
        have ends : PipeEnds entry p.prevReadFd (some fds.1) (some fds.2) :=
          { prev_free := h.free
            read_free := by simpa using hread
            write_free := by simpa using hwrite
            prev_read := fun fd hfd fd' hfd' heq => hreadprev (by cases hfd'; exact heq ▸ hfd)
            prev_write := fun fd hfd fd' hfd' heq => hwriteprev (by cases hfd'; exact heq ▸ hfd)
            read_write := by simpa using hne }
        exact .inr ⟨_, _, by rw [h.table]; rfl, ends, by simp, by simp⟩
  · simp only [hlast, if_false]
    have ends : PipeEnds entry p.prevReadFd none none :=
      ⟨h.free, by simp, by simp, by simp, by simp, by simp⟩
    exact .inr ⟨none, none, by rw [h.table]; rfl, ends, by simp, by simp⟩

/-- The parent closes what it held and the write end, and keeps the read end. -/
theorem AtRound.next {prev read write : Option Fd} (hi : i < numStages)
    (ends : PipeEnds entry prev read write) (hread : read.isSome ↔ i < numStages - 1)
    (children : List (Option Exec)) :
    AtRound entry numStages (i + 1)
      ⟨closeIf write (closeIf prev (atFork entry i prev read write)), read, children⟩ := by
  refine ⟨?_, ends.read_free, ?_⟩
  · simp only [hread]
    omega
  · simp only [ends.close_prev, ends.close_write]
    rfl

/-- One round: on an early exit the parent has its table of the entry again; otherwise
the child of the stage is started from the table at the fork. -/
theorem executeStage_round (k : Kernel) (cmd : ParsedCommand) (h : AtRound entry numStages i p)
    (hi : i < numStages) :
    (∃ p', executeStage k cmd numStages i p = (false, p') ∧
      (k.pipe i p.table = none ∨ k.fork i = false) ∧ p'.table = entry ∧
      p'.children = p.children) ∨
    ∃ p' read write, executeStage k cmd numStages i p = (true, p') ∧
      AtRound entry numStages (i + 1) p' ∧ PipeEnds entry p.prevReadFd read write ∧
      (write.isSome ↔ i < numStages - 1) ∧
      p'.children = p.children ++ [childProcess k cmd numStages i p.prevReadFd (read, write)
        (atFork entry i p.prevReadFd read write)] := by
  unfold executeStage
  obtain ⟨hnone, hopen⟩ | ⟨read, write, hopen, ends, hwrite, hread⟩ := openPipe_cases k h
  · rw [hopen]
    refine .inl ⟨_, rfl, .inl hnone, ?_, rfl⟩
    simp only [h.table, closeIf_hold h.free]
  · rw [hopen]
    simp only
    cases hfork : k.fork i with
    | false =>
        refine .inl ⟨_, rfl, .inr rfl, ?_, rfl⟩
        exact ends.close_early i
    | true =>
        refine .inr ⟨_, read, write, ?_, AtRound.next hi ends hread _, ends, hwrite, rfl⟩
        by_cases hlast : i < numStages - 1
        · simp only [hlast, if_true]
        · have hread' : read = none := by simpa [hlast] using hread
          have hwrite' : write = none := by simpa [hlast] using hwrite
          simp only [hlast, if_false, hread', hwrite']
          rfl

theorem AtRound.start (entry : FdTable) (numStages : Nat) :
    AtRound entry numStages 0 ⟨entry, none, []⟩ :=
  ⟨by simp, by simp, rfl⟩

theorem AtRound.finished (h : AtRound entry numStages numStages p) : p.table = entry := by
  have hnone : p.prevReadFd = none := by
    have hprev := h.prev
    rw [← Option.not_isSome_iff_eq_none, hprev]
    omega
  rw [h.table, hnone]
  rfl

end Parent

/-! ## Who holds the pipes -/

theorem redirection_isFile {cmd : ParsedCommand} {i : Nat} {target : RedirectTarget}
    {obj : OpenFile} (h : redirection cmd i target = some obj) :
    ∃ path mode, obj = .file path mode := by
  obtain ⟨token, -, rfl⟩ := Option.map_eq_some_iff.mp h
  exact ⟨_, _, rfl⟩

theorem eq_some_of_or {α : Type} {o o' : Option α} {x : α} (h : o.or o' = some x) :
    o = some x ∨ o' = some x :=
  (Option.or_eq_some_iff.mp h).imp_right And.right

namespace Wired

variable {cmd : ParsedCommand} {entry t : FdTable} {i : Nat}

/-- What the descriptors of a child refer to, and where a pipe end can be among it. -/
theorem lookup_cases (h : Wired cmd entry i t) {fd : Fd} {obj : OpenFile}
    (hobj : t.lookup fd = some obj) :
    (∃ path mode, obj = .file path mode) ∨ fd = 0 ∧ readEndBefore i = some obj ∨
      fd = 1 ∧ writeEndAfter cmd.stageCount i = some obj ∨ entry.lookup fd = some obj := by
  by_cases h0 : fd = 0
  · rw [h0, h.stdin] at hobj
    obtain hor | hentry := eq_some_of_or hobj
    · obtain hfile | hend := eq_some_of_or hor
      · exact .inl (redirection_isFile hfile)
      · exact .inr (.inl ⟨h0, hend⟩)
    · exact .inr (.inr (.inr (h0 ▸ hentry)))
  by_cases h1 : fd = 1
  · rw [h1, h.stdout] at hobj
    obtain hor | hentry := eq_some_of_or hobj
    · obtain hfile | hend := eq_some_of_or hor
      · exact .inl (redirection_isFile hfile)
      · exact .inr (.inr (.inl ⟨h1, hend⟩))
    · exact .inr (.inr (.inr (h1 ▸ hentry)))
  by_cases h2 : fd = 2
  · rw [h2, h.stderr] at hobj
    obtain hfile | hentry := eq_some_of_or hobj
    · exact .inl (redirection_isFile hfile)
    · exact .inr (.inr (.inr (h2 ▸ hentry)))
  · have hlt : 2 < fd := by
      have hne : ∀ n : Nat, n ≠ 0 → n ≠ 1 → n ≠ 2 → 2 < n := by omega
      exact hne fd h0 h1 h2
    rw [h.others fd hlt] at hobj
    exact .inr (.inr (.inr hobj))

/-- The pipes of the pipeline do not exist at entry. -/
theorem pipe_cases (h : Wired cmd entry i t) (hentry : Entry entry) {fd : Fd} {obj : OpenFile}
    (hobj : t.lookup fd = some obj) (hpipe : ∃ j, obj = .readEnd j ∨ obj = .writeEnd j) :
    fd = 0 ∧ readEndBefore i = some obj ∨ fd = 1 ∧ writeEndAfter cmd.stageCount i = some obj := by
  obtain ⟨j, hj⟩ := hpipe
  obtain ⟨path, mode, rfl⟩ | hread | hwrite | hold := h.lookup_cases hobj
  · simp at hj
  · exact .inl hread
  · exact .inr hwrite
  · obtain ⟨description, rfl⟩ := hentry.inherited fd obj hold
    simp at hj

theorem readEnd (h : Wired cmd entry i t) (hentry : Entry entry) {fd : Fd} {j : Nat}
    (hobj : t.lookup fd = some (.readEnd j)) : fd = 0 ∧ i = j + 1 := by
  obtain ⟨hfd, hend⟩ | ⟨-, hend⟩ := h.pipe_cases hentry hobj ⟨j, .inl rfl⟩
  · unfold readEndBefore at hend
    split at hend
    · cases hend
      exact ⟨hfd, by omega⟩
    · cases hend
  · unfold writeEndAfter at hend
    split at hend <;> cases hend

theorem writeEnd (h : Wired cmd entry i t) (hentry : Entry entry) {fd : Fd} {j : Nat}
    (hobj : t.lookup fd = some (.writeEnd j)) : fd = 1 ∧ i = j := by
  obtain ⟨-, hend⟩ | ⟨hfd, hend⟩ := h.pipe_cases hentry hobj ⟨j, .inr rfl⟩
  · unfold readEndBefore at hend
    split at hend <;> cases hend
  · unfold writeEndAfter at hend
    split at hend
    · cases hend
      exact ⟨hfd, rfl⟩
    · cases hend

end Wired

/-! ## The pipeline -/

/-- `cat<in|wc>out`. -/
def twoStages : ParsedCommand :=
  ⟨2, [⟨[some ⟨1, text "cat"⟩, none], some ⟨2, text "in"⟩, none, none⟩,
    ⟨[some ⟨3, text "wc"⟩, none], none, some ⟨4, text "out"⟩, none⟩]⟩

/-- The terminal on the three standard descriptors. -/
def terminal : FdTable :=
  hold (some 2) (.inherited 0) (hold (some 1) (.inherited 0) (hold (some 0) (.inherited 0) ∅))

theorem terminal_entry : Entry terminal := by
  refine ⟨⟨?_, ?_, ?_⟩, fun fd obj h => ?_⟩
  · simp [terminal, mem_hold]
  · simp [terminal, mem_hold]
  · simp [terminal, mem_hold]
  · obtain rfl | h := lookup_hold_cases h
    · exact ⟨0, rfl⟩
    · obtain rfl | h := lookup_hold_cases h
      · exact ⟨0, rfl⟩
      · obtain rfl | h := lookup_hold_cases h
        · exact ⟨0, rfl⟩
        · rw [Finmap.lookup_empty] at h
          cases h

end RunnerOrchestrator
