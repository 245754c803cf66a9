import RunnerOrchestrator.Runner.Wiring

/-! # What is left of a pipeline

Whatever `pipe` and `fork` answer, the loop ends with the parent's table of the entry
and one child for each stage begun, and each of the three exits waits as often as
there are children. A `wait` that fails only without children reaps them all.
-/

namespace RunnerOrchestrator

open Descriptors

/-- `wait` fails only when no child is left. -/
def Kernel.Reaps (k : Kernel) : Prop := ∀ n left, left ≠ [] → (k.wait n left).isSome

theorem Kernel.calm_reaps : Kernel.calm.Reaps := fun _ left h => by
  cases left with
  | nil => exact absurd rfl h
  | cons child left => rfl

/-! ## The loop over the stages -/

section Stages

variable {entry : FdTable} {numStages i : Nat} {p : Parent}

/-- The parent when the loop is over: its table is that of the entry, and on an early
exit fewer children exist than there are stages. -/
structure Ended (entry : FdTable) (numStages : Nat) (ok : Bool) (p : Parent) : Prop where
  table : p.table = entry
  complete : ok = true → p.children.length = numStages
  cut : ok = false → p.children.length < numStages

/-- By induction on the stages to go. -/
theorem executeStages_ended (k : Kernel) (cmd : ParsedCommand) {left : Nat}
    (hleft : i + left = numStages) (h : AtRound entry numStages i p)
    (hcount : p.children.length = i) :
    ∃ ok p', executeStages k cmd numStages left i p = (ok, p') ∧ Ended entry numStages ok p' := by
  induction left generalizing i p with
  | zero =>
      obtain rfl : i = numStages := hleft
      exact ⟨true, p, rfl, h.finished, fun _ => hcount, fun hcut => (nomatch hcut)⟩
  | succ left ih =>
      have hi : i < numStages := by omega
      obtain ⟨p', hround, -, htable, hchildren⟩ | ⟨p', _, _, hround, hnext, -, -, hchildren⟩ :=
        executeStage_round k cmd h hi
      · refine ⟨false, p', by rw [executeStages, hround], htable, fun hok => (nomatch hok),
          fun _ => ?_⟩
        rw [hchildren, hcount]
        exact hi
      · have hcount' : p'.children.length = i + 1 := by
          rw [hchildren, List.length_append, hcount]
          rfl
        obtain ⟨ok, p'', hrest, hended⟩ := ih (by omega) hnext hcount'
        exact ⟨ok, p'', by rw [executeStages, hround]; exact hrest, hended⟩

end Stages

/-- The parent is the one that the loop leaves behind. -/
theorem executePipeline_parent (k : Kernel) {cmd : ParsedCommand}
    (hcount : parserGetStageCount cmd ≠ 0) (t : FdTable) :
    (executePipeline k (some cmd) t).parent =
      (executeStages k cmd (parserGetStageCount cmd) (parserGetStageCount cmd) 0
        ⟨t, none, []⟩).2 := by
  simp only [executePipeline, hcount, if_false]
  split
  · next hrun => rw [hrun]
  · next hrun => rw [hrun]

/-! ## Waiting -/

/-- After `n` more calls of `wait` nobody is left, and the parent had the same table at each. -/
structure Reaped (p : Parent) (n : Nat) (w w' : Waiting) : Prop where
  left : w'.left = []
  calls : w'.calls = w.calls ++ List.replicate n p.table

section Waiting

variable {k : Kernel} (hk : k.Reaps) {p : Parent} {w : Waiting} {n : Nat}

include hk

/-- One call with somebody left reaps one child. -/
theorem waitChild_reaps (p : Parent) (hn : w.left.length = n + 1) :
    ∃ child w', waitChild k p w = (some (exitStatus k p.children child), w') ∧
      w'.calls = w.calls ++ [p.table] ∧ w.left.Perm (child :: w'.left) ∧ w'.left.length = n := by
  have hne : w.left ≠ [] := List.ne_nil_of_length_eq_add_one hn
  obtain ⟨child, hchild⟩ := Option.isSome_iff_exists.mp (hk w.calls.length w.left hne)
  have hperm := List.perm_cons_erase (k.wait_mem hchild)
  refine ⟨child, ⟨w.calls ++ [p.table], w.left.erase child⟩, ?_, rfl, hperm, ?_⟩
  · rw [waitChild, hchild]
  · have hlen := hperm.length_eq
    rw [List.length_cons] at hlen
    dsimp only
    omega

omit hk in
theorem Reaped.done (p : Parent) (hn : w.left.length = 0) : Reaped p 0 w w :=
  ⟨List.length_eq_zero_iff.mp hn, (List.append_nil _).symm⟩

omit hk in
theorem Reaped.step {w₁ w₂ : Waiting} (hcalls : w₁.calls = w.calls ++ [p.table])
    (h : Reaped p n w₁ w₂) : Reaped p (n + 1) w w₂ := by
  refine ⟨h.left, ?_⟩
  rw [h.calls, hcalls, List.append_assoc, List.replicate_succ]
  rfl

theorem waitIgnoring_reaps (p : Parent) (hn : w.left.length = n) :
    Reaped p n w (waitIgnoring k p n w) := by
  induction n generalizing w with
  | zero => exact .done p hn
  | succ n ih =>
      obtain ⟨child, w', hwait, hcalls, -, hlen⟩ := waitChild_reaps hk p hn
      rw [waitIgnoring, hwait]
      exact .step hcalls (ih hlen)

/-- The value is 0 when no child failed before and none of those left fails. -/
theorem waitAll_reaps (p : Parent) (anyChildFailed : Bool) (hn : w.left.length = n) :
    ∃ result w', waitAll k p n anyChildFailed w = (result, w') ∧ Reaped p n w w' ∧
      (result = 0 ↔ anyChildFailed = false ∧
        ∀ child ∈ w.left, exitStatus k p.children child = .exited 0) := by
  induction n generalizing w anyChildFailed with
  | zero =>
      refine ⟨_, w, rfl, .done p hn, ?_⟩
      rw [List.length_eq_zero_iff.mp hn]
      cases anyChildFailed <;> simp
  | succ n ih =>
      obtain ⟨child, w', hwait, hcalls, hperm, hlen⟩ := waitChild_reaps hk p hn
      obtain ⟨result, w'', hrest, hreaped, hresult⟩ :=
        ih (anyChildFailed || exitStatus k p.children child != .exited 0) hlen
      refine ⟨result, w'', ?_, .step hcalls hreaped, ?_⟩
      · rw [waitAll, hwait]
        exact hrest
      · rw [hresult]
        simp only [hperm.mem_iff, List.forall_mem_cons, Bool.or_eq_false_iff, bne_eq_false_iff_eq]
        exact and_assoc

end Waiting

/-! ## The pipeline -/

/-- The three exits differ in the value returned only. -/
theorem executePipeline_exit {k : Kernel} (hk : k.Reaps) {cmd : ParsedCommand}
    (hcount : 0 < parserGetStageCount cmd) {entry : FdTable} {ok : Bool} {p : Parent}
    (hrun : executeStages k cmd (parserGetStageCount cmd) (parserGetStageCount cmd) 0
      ⟨entry, none, []⟩ = (ok, p)) :
    let o := executePipeline k (some cmd) entry
    o.parent = p ∧ Reaped p p.children.length ⟨[], List.range p.children.length⟩ o.waiting ∧
    (o.result = 0 ↔ ok = true ∧ ∀ i < p.children.length, exitStatus k p.children i = .exited 0) := by
  intro o
  have hlen : (List.range p.children.length).length = p.children.length := List.length_range
  have hnone : parserGetStageCount cmd ≠ 0 := Nat.ne_of_gt hcount
  cases ok with
  | false =>
      have ho : o = ⟨-1, p, waitIgnoring k p p.children.length
          ⟨[], List.range p.children.length⟩⟩ := by
        simp only [o, executePipeline, hnone, if_false, hrun]
      rw [ho]
      exact ⟨rfl, waitIgnoring_reaps hk p hlen, by simp⟩
  | true =>
      obtain ⟨result, w', hwait, hreaped, hresult⟩ :=
        waitAll_reaps (w := ⟨[], List.range p.children.length⟩) hk p false hlen
      have ho : o = ⟨result, p, w'⟩ := by
        simp only [o, executePipeline, hnone, if_false, hrun, hwait]
      rw [ho]
      refine ⟨rfl, hreaped, hresult.trans ?_⟩
      simp only [List.mem_range, true_and]

theorem no_pipe_end {entry : FdTable}
    (hentry : ∀ fd obj, entry.lookup fd = some obj → ∃ description, obj = .inherited description)
    (fd j : Nat) : entry.lookup fd ≠ some (.readEnd j) ∧ entry.lookup fd ≠ some (.writeEnd j) := by
  constructor
  · intro hobj
    obtain ⟨description, hdescription⟩ := hentry fd _ hobj
    cases hdescription
  · intro hobj
    obtain ⟨description, hdescription⟩ := hentry fd _ hobj
    cases hdescription

/-- Whatever happens on the way, the parent is back at its table of the entry, has waited
once for each child and then without any pipe end open, and returns 0 exactly when
every stage was created and every child exited with 0. -/
theorem pipeline_cleanup {k : Kernel} (hk : k.Reaps) {cmd : ParsedCommand}
    (hcount : 0 < parserGetStageCount cmd) {entry : FdTable}
    (hentry : ∀ fd obj, entry.lookup fd = some obj → ∃ description, obj = .inherited description) :
    let o := executePipeline k (some cmd) entry
    o.parent.table = entry ∧ o.waiting.calls.length = o.parent.children.length ∧
    o.waiting.left = [] ∧
    (∀ t ∈ o.waiting.calls, t = entry ∧
      ∀ fd j, t.lookup fd ≠ some (.readEnd j) ∧ t.lookup fd ≠ some (.writeEnd j)) ∧
    (o.result = 0 ↔ o.parent.children.length = parserGetStageCount cmd ∧
      ∀ i < parserGetStageCount cmd, exitStatus k o.parent.children i = .exited 0) := by
  intro o
  obtain ⟨ok, p, hrun, hended⟩ :=
    executeStages_ended k cmd (Nat.zero_add (parserGetStageCount cmd))
      (AtRound.start entry _) rfl
  obtain ⟨hparent, hreaped, hresult⟩ := executePipeline_exit hk hcount hrun
  have hcalls : o.waiting.calls = List.replicate p.children.length entry := by
    rw [hreaped.calls, hended.table, List.nil_append]
  refine ⟨by rw [hparent, hended.table], ?_, hreaped.left, fun t ht => ?_, ?_⟩
  · rw [hcalls, hparent, List.length_replicate]
  · rw [hcalls] at ht
    obtain rfl := List.eq_of_mem_replicate ht
    exact ⟨rfl, no_pipe_end hentry⟩
  · rw [hresult, hparent]
    cases ok with
    | false =>
        have hcut := hended.cut rfl
        simp only [Bool.false_eq_true, false_and, false_iff, not_and]
        omega
    | true => rw [hended.complete rfl]; simp only [true_and]

/-- A kernel whose second `fork` fails. -/
def Kernel.oneChild : Kernel := { Kernel.calm with fork := fun stage => stage == 0 }

theorem pipeline_cleanup_one_child :
    let o := executePipeline Kernel.oneChild (some twoStages) terminal
    o.parent.table = terminal ∧ o.waiting.left = [] ∧ o.result = -1 := by
  obtain ⟨htable, -, hleft, -⟩ := pipeline_cleanup (k := Kernel.oneChild) Kernel.calm_reaps
    (by decide : 0 < parserGetStageCount twoStages) terminal_entry.inherited
  exact ⟨htable, hleft, rfl⟩

end RunnerOrchestrator
