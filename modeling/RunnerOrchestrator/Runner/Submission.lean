import RunnerOrchestrator.Runner.Refinement
import RunnerOrchestrator.Runner.RunnerCli

/-! # What is executed of what was submitted

The runner parses the payload it has sent, not its own argument. Three bounds decide
one after the other what is left of a long command: the payload holds its first 479
bytes, the parser the first 16 stages of these, and `argv` the first 31 arguments of
a stage. Redirections are not bounded.
-/

namespace RunnerOrchestrator

/-- What `runner_run_execute` hands to `execute_pipeline` once it has read `reply`;
`none` stands for a reply that is not a whole message. -/
def pipelineToExecute (malloc : Nat → Bool) (pid userId : Int32) (command : CString)
    (reply : Option RpcMessage) : Option ParsedCommand :=
  match reply with
  | none => none
  | some ackMsg =>
      if isAuthorised ackMsg then
        (parserParse malloc (submitMsg pid userId command).payload).bind Prod.fst
      else none

/-! ## Commands within the bounds -/

/-- The parser's own buffer holds every payload. -/
theorem bounded_payload (pid userId : Int32) (command : CString) :
    bounded parserInputBuffer (submitMsg pid userId command).payload =
      command.take (rpcPayloadSize - 1) := by
  simp only [bounded, submitMsg, List.take_take]
  rfl

theorem readStages_eq_readPipeline {s : CString} (h : (segments s).length ≤ parserMaxStages) :
    readStages parserMaxStages s = readPipeline s := by
  unfold readStages readPipeline
  rw [List.take_of_length_le h]

theorem pipelineToExecute_shows {malloc : Nat → Bool} {pid userId : Int32} {command : CString}
    {reply : Option RpcMessage} {cmd : ParsedCommand}
    (h : pipelineToExecute malloc pid userId command reply = some cmd) :
    ∃ pipeline, readStages parserMaxStages (command.take (rpcPayloadSize - 1)) = some pipeline ∧
      cmd.Shows (pipeline.map Stage.cut) := by
  unfold pipelineToExecute at h
  split at h
  · cases h
  · split at h
    · obtain ⟨r, hparse, hr⟩ := Option.bind_eq_some_iff.mp h
      obtain ⟨r', hparse', hparsed⟩ :=
        parserParse_parsed malloc (submitMsg pid userId command).payload
      rw [hparse] at hparse'
      cases hparse'
      rw [bounded_payload] at hparsed
      simpa using hparsed.shows cmd hr
    · cases h

/-! ## The executed pipeline -/

/-- The executed pipeline is that of the first 479 bytes, cut to 16 stages of 31
arguments each, and that of the whole command when nothing of it had to be cut. -/
theorem executed_pipeline {malloc : Nat → Bool} {pid userId : Int32} {command : CString}
    {reply : Option RpcMessage} {cmd : ParsedCommand}
    (h : pipelineToExecute malloc pid userId command reply = some cmd) :
    ∃ pipeline, readStages parserMaxStages (command.take (rpcPayloadSize - 1)) = some pipeline ∧
      cmd.Shows (pipeline.map Stage.cut) ∧
      (command.length < rpcPayloadSize → (segments command).length ≤ parserMaxStages →
        (∀ s ∈ pipeline, s.args.length < parserMaxArgs) →
        readPipeline command = some pipeline ∧ cmd.Shows pipeline) := by
  obtain ⟨pipeline, hread, hshows⟩ := pipelineToExecute_shows h
  refine ⟨pipeline, hread, hshows, fun hlength hstages hargs => ?_⟩
  rw [List.take_of_length_le (Nat.le_sub_one_of_lt hlength),
    readStages_eq_readPipeline hstages] at hread
  rw [map_cut_of_fits hargs] at hshows
  exact ⟨hread, hshows⟩

/-- The reply on which a runner goes on. -/
def anAck : RpcMessage := { RpcMessage.zero with type := .ack }

theorem executed_pipeline_two_stages :
    ∃ cmd pipeline,
      pipelineToExecute (fun _ => true) 11 1 (text "cat<in.txt|wc -l>out.txt") (some anAck) =
        some cmd ∧
      readPipeline (text "cat<in.txt|wc -l>out.txt") = some pipeline ∧ cmd.Shows pipeline := by
  have hsome : (pipelineToExecute (fun _ => true) 11 1 (text "cat<in.txt|wc -l>out.txt")
      (some anAck)).isSome := by decide
  have hargs : ∀ pipeline ∈ readStages parserMaxStages (text "cat<in.txt|wc -l>out.txt"),
      ∀ s ∈ pipeline, s.args.length < parserMaxArgs := by
    rintro _ ⟨⟩
    decide
  obtain ⟨cmd, hcmd⟩ := Option.isSome_iff_exists.mp hsome
  obtain ⟨pipeline, hread, -, hwhole⟩ := executed_pipeline hcmd
  exact ⟨cmd, pipeline, hcmd, hwhole (by decide) (by decide) (hargs pipeline hread)⟩

/-- Sixteen stages of a pipeline of seventeen are executed. -/
theorem seventeenth_stage_dropped :
    ∃ cmd, pipelineToExecute (fun _ => true) 11 1 (text "a|a|a|a|a|a|a|a|a|a|a|a|a|a|a|a|a")
        (some anAck) = some cmd ∧
      ¬ ∃ pipeline, readPipeline (text "a|a|a|a|a|a|a|a|a|a|a|a|a|a|a|a|a") = some pipeline ∧
        cmd.Shows pipeline := by
  have hcount : (pipelineToExecute (fun _ => true) 11 1
      (text "a|a|a|a|a|a|a|a|a|a|a|a|a|a|a|a|a") (some anAck)).map ParsedCommand.stageCount = some 16 := by
    decide
  have hstages : (readPipeline (text "a|a|a|a|a|a|a|a|a|a|a|a|a|a|a|a|a")).map List.length =
      some 17 := by decide
  obtain ⟨cmd, hcmd, hsixteen⟩ := Option.map_eq_some_iff.mp hcount
  refine ⟨cmd, hcmd, fun ⟨pipeline, hread, hshows⟩ => ?_⟩
  rw [hread] at hstages
  have hseventeen : pipeline.length = 17 := by simpa using hstages
  have hsame := hshows.count
  rw [parserGetStageCount, hsixteen, hseventeen] at hsame
  cases hsame

end RunnerOrchestrator
