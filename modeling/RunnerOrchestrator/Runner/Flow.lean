import RunnerOrchestrator.Foundation.PipeChain
import RunnerOrchestrator.Runner.Cleanup

/-! # A pipeline at work

What the programs of the stages do to each other once they run: their reads and writes meet in
the pipes that `execute_pipeline` has left them. Whatever failed while the stages were
created, the children that have reached `execvp` and the waiting parent are a chain.
-/

namespace RunnerOrchestrator

open Descriptors
open PipeChain (Holds InChain Frugal Request)

/-! ## The descriptors at the start -/

/-- The end of a pipe that an open file is. -/
def OpenFile.end? : OpenFile → Option PipeChain.End
  | .readEnd stage => some (.read stage)
  | .writeEnd stage => some (.write stage)
  | .inherited _ | .file _ _ => none

/-- The standard descriptors are open, and there is no pipe yet. -/
structure Fresh (t : FdTable) : Prop where
  standard : Standard t
  noPipe : ∀ e, ¬ Holds OpenFile.end? t e

theorem Entry.fresh {t : FdTable} (h : Entry t) : Fresh t := by
  refine ⟨h.standard, ?_⟩
  rintro e ⟨fd, hfd⟩
  rcases Option.bind_eq_some_iff.mp hfd with ⟨obj, hobj, hend⟩
  rcases h.inherited fd obj hobj with ⟨description, rfl⟩
  cases hend

/-- A runner has its private FIFO open besides. -/
theorem Fresh.insert_file {t : FdTable} (h : Fresh t) (fd : Fd) (path : CString) (mode : OpenMode) :
    Fresh (t.insert fd (.file path mode)) := by
  refine ⟨⟨?_, ?_, ?_⟩, ?_⟩
  · exact Finmap.mem_insert.mpr (.inr h.standard.stdin)
  · exact Finmap.mem_insert.mpr (.inr h.standard.stdout)
  · exact Finmap.mem_insert.mpr (.inr h.standard.stderr)
  · rintro e ⟨fd', hfd'⟩
    by_cases heq : fd' = fd
    · rw [heq, PipeChain.endAt, Finmap.lookup_insert] at hfd'
      cases hfd'
    · rw [PipeChain.endAt, Finmap.lookup_insert_of_ne _ heq] at hfd'
      exact h.noPipe e ⟨fd', hfd'⟩

/-! ## Children of any kernel -/

theorem dup2If_eq_some {end? : Option Fd} {obj : OpenFile} {ok : Bool} {t t' : FdTable}
    {target : Fd} (hend : ∀ fd ∈ end?, t.lookup fd = some obj)
    (h : dup2If end?.isSome ok end? target t = some t') :
    t' = install (end?.map fun _ => obj) target t := by
  cases ok with
  | true =>
      rw [dup2_end target hend, Option.some.injEq] at h
      exact h.symm
  | false =>
      cases end? with
      | none =>
          cases h
          rfl
      | some fd => cases h

theorem redirect_eq_some {k : Kernel} {stage : Nat} {target : RedirectTarget} {t t' : FdTable}
    (ht : target.fileno ∈ t) {file : Option Token} (h : redirect k stage target file t = some t') :
    t' = install (file.map fun token => .file token.text target.openMode) target.fileno t := by
  cases file with
  | none =>
      cases h
      rfl
  | some path =>
      cases hopen : k.openFd stage target t with
      | none => simp [redirect, hopen] at h
      | some fd =>
          have hfree : fd ∉ t := k.openFd_free hopen
          have hne : fd ≠ target.fileno := fun heq => hfree (heq ▸ ht)
          have hmove := close_dup2_open hfree hne (OpenFile.file path.text target.openMode)
          cases hok : k.dup2 stage (target.fileno + 2) with
          | false => simp [redirect, hopen, dup2, hok] at h
          | true =>
              have hsame : redirect k stage target (some path) t =
                  (Descriptors.dup2 (t.insert fd (.file path.text target.openMode)) fd
                    target.fileno).map (Finmap.erase fd) := by
                simp [redirect, hopen, dup2, hok, Option.map_eq_bind]
              rw [hsame, hmove, Option.some.injEq] at h
              exact h.symm

section Children

variable {k : Kernel} {cmd : ParsedCommand} {entry : FdTable}

/-- A child that reaches `execvp` has its table, whatever other children met with. -/
theorem childProcess_table {prev read write : Option Fd} {numStages i : Nat} (hentry : Fresh entry)
    (ends : PipeEnds entry prev read write) (hprev : prev.isSome ↔ 0 < i)
    (hwrite : write.isSome ↔ i < numStages - 1) {exec : Exec}
    (h : childProcess k cmd numStages i prev (read, write) (atFork entry i prev read write) =
      some exec) : exec.table = childTable cmd entry numStages i := by
  have hlast : decide (i < numStages - 1) = write.isSome := by
    rw [Bool.eq_iff_iff, decide_eq_true_iff, hwrite]
  rw [childProcess, hlast] at h
  rcases Option.bind_eq_some_iff.mp h with ⟨t₀, h₀, h⟩
  rcases Option.bind_eq_some_iff.mp h with ⟨t₁, h₁, h⟩
  rcases Option.bind_eq_some_iff.mp h with ⟨argv, -, h⟩
  -- the two ends on descriptors 0 and 1, then the originals closed
  have hpiped : t₁ = install (writeEndAfter numStages i) 1
      (install (readEndBefore i) 0 (atFork entry i prev read write)) := by
    have hwrite0 := (ends.ne_of_mem hentry.standard.stdin).2.2
    have ht₀ := dup2If_eq_some (fun fd hfd => ends.lookup_prev (i := i) hfd) h₀
    rw [map_prev_eq hprev] at ht₀
    rw [← map_write_eq hwrite, ← ht₀]
    refine dup2If_eq_some (fun fd hfd => ?_) h₁
    rw [ht₀, lookup_install_of_ne _ (hwrite0 fd hfd), lookup_write hfd]
  rw [hpiped] at h
  dsimp only at h
  rw [ends.close_standard hentry.standard] at h
  -- the redirections
  split at h
  · cases h
  · rcases Option.bind_eq_some_iff.mp h with ⟨t₂, h₂, h⟩
    rcases Option.bind_eq_some_iff.mp h with ⟨t₃, h₃, h⟩
    rcases Option.bind_eq_some_iff.mp h with ⟨t₄, h₄, h⟩
    have hstandard := (hentry.standard.install (readEndBefore i) 0).install
      (writeEndAfter numStages i) 1
    have hin := hstandard.install (redirection cmd i .inputFile) 0
    have hout := hin.install (redirection cmd i .outputFile) 1
    have ht₂ := redirect_eq_some hstandard.stdin h₂
    rw [ht₂] at h₃
    have ht₃ := redirect_eq_some hin.stdout h₃
    rw [ht₃] at h₄
    have ht₄ := redirect_eq_some hout.stderr h₄
    cases h
    exact ht₄

/-- The children among `p.children` that have reached `execvp` have the tables of their stages. -/
def Tabled (cmd : ParsedCommand) (entry : FdTable) (p : Parent) : Prop :=
  ∀ i exec, p.children[i]? = some (some exec) →
    exec.table = childTable cmd entry cmd.stageCount i

/-- By induction on the stages to go. -/
theorem executeStages_tabled (k : Kernel) (hentry : Fresh entry) {left i : Nat} {p : Parent}
    (hleft : i + left = cmd.stageCount) (h : AtRound entry cmd.stageCount i p)
    (hcount : p.children.length = i) (htabled : Tabled cmd entry p) :
    Tabled cmd entry (executeStages k cmd cmd.stageCount left i p).2 := by
  induction left generalizing i p with
  | zero => exact htabled
  | succ left ih =>
      have hi : i < cmd.stageCount := by omega
      rcases executeStage_round k cmd h hi with
        ⟨p', hround, -, -, hchildren⟩ | ⟨p', read, write, hround, hnext, ends, hwrite, hchildren⟩
      · rw [executeStages, hround]
        intro j exec hj
        rw [hchildren] at hj
        exact htabled j exec hj
      · rw [executeStages, hround]
        refine ih (by omega) hnext ?_ fun j exec hj => ?_
        · rw [hchildren, List.length_append, hcount]
          rfl
        · rw [hchildren] at hj
          by_cases hlt : j < i
          · rw [List.getElem?_append_left (by omega)] at hj
            exact htabled j exec hj
          · have hlast : j = i := by
              have hbound := (List.getElem?_eq_some_iff.mp hj).1
              rw [List.length_append, List.length_singleton] at hbound
              omega
            rw [hlast, ← hcount, List.getElem?_concat_length, hcount, Option.some.injEq] at hj
            rw [hlast]
            exact childProcess_table hentry ends (h.prev.trans (and_iff_left hi)) hwrite hj

/-- Whatever failed, the parent waits without a pipe end and each child has its own table. -/
theorem executePipeline_tabled (k : Kernel) (hentry : Fresh entry) (cmd : ParsedCommand) :
    (executePipeline k (some cmd) entry).parent.table = entry ∧
      Tabled cmd entry (executePipeline k (some cmd) entry).parent := by
  by_cases hnone : parserGetStageCount cmd = 0
  · simp [executePipeline, hnone, Tabled]
  · rw [executePipeline_parent k hnone]
    obtain ⟨ok, p, hrun, hended⟩ :=
      executeStages_ended k cmd (Nat.zero_add (parserGetStageCount cmd)) (AtRound.start entry _) rfl
    refine ⟨by rw [hrun]; exact hended.table, ?_⟩
    exact executeStages_tabled k hentry (Nat.zero_add _) (AtRound.start entry _) rfl
      fun i exec hi => by simp at hi

end Children

/-! ## The chain of the stages -/

section Running

variable {σ : Type} (load : Nat → List (Option Token) → σ) (next : σ → Request σ UInt8) (capacity : Nat)

/-- The children of a parent with their programs, the pipes still empty. A child without an
`Exec` is past its `_exit(1)`. -/
def Parent.started (p : Parent) : PipeChain.State σ OpenFile UInt8 :=
  { process := fun i => match p.children[i]? with
      | some (some exec) => .running (load i exec.argv) exec.table
      | some none => .exited 1
      | none => .exited 0
    pipe := fun _ => []
    written := fun _ => []
    taken := fun _ => []
    ended := fun _ => false }

/-- What `execute_pipeline` has left running when it begins to wait. -/
def pipelineSystem (k : Kernel) (cmd : ParsedCommand) (entry : FdTable) :
    TransitionSystem (PipeChain.State σ OpenFile UInt8) PipeChain.Label :=
  let p := (executePipeline k (some cmd) entry).parent
  PipeChain.system OpenFile.end? next capacity p.table (p.started load)

variable {load next capacity} {k : Kernel} {cmd : ParsedCommand} {entry : FdTable}

theorem Wired.inChain {i : Nat} {t : FdTable} (h : Wired cmd entry i t) (hentry : Fresh entry) :
    InChain OpenFile.end? i t := by
  rintro e ⟨fd, hfd⟩
  rcases Option.bind_eq_some_iff.mp hfd with ⟨obj, hobj, hend⟩
  rcases h.lookup_cases hobj with ⟨path, mode, rfl⟩ | ⟨-, hread⟩ | ⟨-, hwrite⟩ | hold
  · cases hend
  · unfold readEndBefore at hread
    split at hread
    · next hpos =>
      cases hread
      cases hend
      exact .inl ⟨i - 1, by omega, rfl⟩
    · cases hread
  · unfold writeEndAfter at hwrite
    split at hwrite
    · cases hwrite
      cases hend
      exact .inr rfl
    · cases hwrite
  · exact absurd ⟨fd, by rw [PipeChain.endAt, hold]; exact hend⟩ (hentry.noPipe e)

theorem started_within (k : Kernel) (cmd : ParsedCommand) (hentry : Fresh entry) :
    let p := (executePipeline k (some cmd) entry).parent
    (p.started load).Within OpenFile.end? p.children.length := by
  intro p
  refine ⟨fun i program t hp => ?_, fun i hi hrun => ?_⟩
  · simp only [Parent.started] at hp
    split at hp
    · next exec hexec =>
      cases hp
      rw [(executePipeline_tabled k hentry cmd).2 i exec hexec]
      exact (childTable_wired cmd entry i).inChain hentry
    · cases hp
    · cases hp
  · simp only [Parent.started, List.getElem?_eq_none_iff.mpr hi] at hrun
    exact hrun

theorem started_kept (p : Parent) (parent : FdTable) :
    (p.started load).Kept OpenFile.end? capacity parent :=
  ⟨fun _ => rfl, fun _ hended => (nomatch hended), fun _ => Nat.zero_le _⟩

theorem pipelineSystem_parent (hentry : Fresh entry) :
    pipelineSystem load next capacity k cmd entry =
      PipeChain.system OpenFile.end? next capacity entry
        ((executePipeline k (some cmd) entry).parent.started load) := by
  rw [pipelineSystem, (executePipeline_tabled k hentry cmd).1]

/-- No pipeline hangs by itself: whatever the programs do and however their calls interleave,
as long as one of them runs, some program can go on. -/
theorem pipeline_never_hangs (hcapacity : 0 < capacity) (hentry : Fresh entry)
    {s : PipeChain.State σ OpenFile UInt8}
    (h : TransitionSystem.Reachable (pipelineSystem load next capacity k cmd entry) s) {i : Nat}
    (hi : (s.process i).Running) :
    ∃ l s', (pipelineSystem load next capacity k cmd entry).step s l s' := by
  rw [pipelineSystem_parent hentry] at h ⊢
  have hwithin := (PipeChain.kept_of_reachable (started_within k cmd hentry) (started_kept _ _) h).1
  exact PipeChain.exists_step (hentry.noPipe) hwithin.chained hcapacity hwithin.bound hi

/-- No byte is lost or read twice on its way, in every pipe the first written is the first read,
and the end of the file comes behind the last of them: nobody can write any more. -/
theorem pipeline_bytes (hentry : Fresh entry) {s : PipeChain.State σ OpenFile UInt8}
    (h : TransitionSystem.Reachable (pipelineSystem load next capacity k cmd entry) s) :
    (∀ j, s.written j = s.taken j ++ s.pipe j ∧ (s.pipe j).length ≤ capacity ∧
      (s.ended j = true → s.taken j = s.written j ∧
        ∀ i program t, s.process i = .running program t → ¬ Holds OpenFile.end? t (.write j))) ∧
    ∀ i program t, s.process i = .running program t → InChain OpenFile.end? i t := by
  rw [pipelineSystem_parent hentry] at h
  rcases PipeChain.kept_of_reachable (started_within k cmd hentry) (started_kept _ _) h with
    ⟨hwithin, hkept⟩
  refine ⟨fun j => ⟨hkept.split j, hkept.bounded j, fun hended => ?_⟩, hwithin.chained⟩
  rcases hkept.ended j hended with ⟨hempty, hclosed⟩
  constructor
  · rw [hkept.split j, hempty, List.append_nil]
  · intro i program t hp hholds
    exact hclosed (.inr ⟨i, program, t, hp, hholds⟩)

/-- Every pipeline of programs that do so much by themselves and so much for each byte they
read comes to its end, after so many calls and so many more for each byte from files and from
outside, in whatever order the calls come. -/
theorem pipeline_ends (hentry : Fresh entry) {rank : σ → Nat} {gain : Nat}
    (hfrugal : Frugal next rank gain) :
    ∃ base perByte, ∀ past s,
      TransitionSystem.Run (pipelineSystem load next capacity k cmd entry) past s →
        past.length ≤ base + perByte * PipeChain.inputs past := by
  let p := (executePipeline k (some cmd) entry).parent
  refine ⟨(p.started load).potential rank gain p.children.length,
    gain * PipeChain.weight gain p.children.length, fun past s h => ?_⟩
  rw [pipelineSystem_parent hentry] at h
  exact PipeChain.length_le_potential hfrugal (started_within k cmd hentry) h

end Running

/-! ## `cat` -/

inductive Cat
  | reading
  | writing (byte : UInt8)
  | done

def Cat.next : Cat → Request Cat UInt8
  | .reading => .read 0 fun byte => match byte with
      | some byte => .writing byte
      | none => .done
  | .writing byte => .write 1 byte fun ok => if ok then .reading else .done
  | .done => .exit 0

def Cat.rank : Cat → Nat
  | .reading => 1
  | .writing _ => 2
  | .done => 0

theorem Cat.frugal : Frugal Cat.next Cat.rank 2 := by
  constructor
  · intro program fd resume h
    cases program with
    | reading =>
        cases h
        exact ⟨Nat.one_pos, fun byte => Nat.le_refl 3⟩
    | writing byte | done => cases h
  · intro program fd byte resume h ok
    cases program with
    | writing byte =>
        cases h
        cases ok with
        | true => exact Nat.lt_succ_self 1
        | false => exact Nat.two_pos
    | reading | done => cases h
  all_goals
    intro program
    intros
    cases program <;> contradiction

/-- `cat<in|wc>out`, the private FIFO of a runner open beside the terminal, and a `cat` in the
place of each program. -/
abbrev catPipeline (k : Kernel) : TransitionSystem (PipeChain.State Cat OpenFile UInt8) PipeChain.Label :=
  pipelineSystem (fun _ _ => Cat.reading) Cat.next 65536 k twoStages
    (terminal.insert 3 (.file (text "/tmp/runner_11") .readOnly))

theorem catPipeline_fresh :
    Fresh (terminal.insert 3 (.file (text "/tmp/runner_11") .readOnly)) :=
  terminal_entry.fresh.insert_file 3 _ _

theorem pipeline_ends_cat :
    ∃ base perByte, ∀ past s, TransitionSystem.Run (catPipeline .calm) past s →
      past.length ≤ base + perByte * PipeChain.inputs past :=
  pipeline_ends catPipeline_fresh Cat.frugal

/-- The second `fork` fails, and the first `cat` is alone with a pipe that nobody reads. -/
theorem pipeline_never_hangs_one_child :
    ∃ l s', (catPipeline .oneChild).step
      ((executePipeline .oneChild (some twoStages)
        (terminal.insert 3 (.file (text "/tmp/runner_11") .readOnly))).parent.started
          fun _ _ => Cat.reading) l s' := by
  have hstart : TransitionSystem.Reachable (catPipeline .oneChild) _ := .init rfl
  exact pipeline_never_hangs (by decide) catPipeline_fresh hstart (i := 0) trivial

/-- One byte from the file through the pipe into the second `cat`. -/
theorem pipeline_bytes_one_byte :
    ∃ s, TransitionSystem.Reachable (catPipeline .calm) s ∧ s.taken 0 = [65] ∧
      s.written 0 = s.taken 0 ++ s.pipe 0 ∧ (s.pipe 0).length ≤ 65536 := by
  have hstart : TransitionSystem.Reachable (catPipeline .calm) _ := .init rfl
  have hread := hstart.step (PipeChain.Step.readInput (i := 0) rfl rfl
    (by
      intro j h
      have hnone : none = some (PipeChain.End.read j) := h
      cases hnone) 65)
  have hwrite := hread.step (PipeChain.Step.write (i := 0) rfl rfl rfl
    (.inr ⟨1, _, _, rfl, 0, rfl⟩) (by decide))
  have htaken := hwrite.step (PipeChain.Step.read (i := 1) rfl rfl rfl rfl)
  rcases (pipeline_bytes catPipeline_fresh htaken).1 0 with ⟨hsplit, hbound, -⟩
  exact ⟨_, htaken, rfl, hsplit, hbound⟩

end RunnerOrchestrator
