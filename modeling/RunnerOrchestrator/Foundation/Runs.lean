import Mathlib.Data.List.TakeWhile
import Mathlib.Data.List.Basic

/-! # Maximal runs

The maximal runs of the elements that satisfy a predicate, each with what stands
before and behind it. One pass over the list finds all of them, in order.
-/

namespace Runs

variable {α : Type*} {p : α → Bool}

structure Run (α : Type*) where
  before : List α
  word : List α
  after : List α

/-- A non-empty run that cannot be extended on either side. -/
structure Run.IsMaximal (p : α → Bool) (s : List α) (r : Run α) : Prop where
  split : s = r.before ++ (r.word ++ r.after)
  ne_nil : r.word ≠ []
  inside : ∀ c ∈ r.word, p c = true
  left : ∀ c ∈ r.before.getLast?, p c = false
  right : ∀ c ∈ r.after.head?, p c = false

/-- The run that ends here, if there is one. -/
def emit (before word after : List α) : List (Run α) :=
  if word.isEmpty then [] else [⟨before, word, after⟩]

/-- The runs from `word` on, which stands behind `before`. -/
def scan (p : α → Bool) : List α → List α → List α → List (Run α)
  | before, word, [] => emit before word []
  | before, word, c :: rest =>
      if p c then scan p before (word ++ [c]) rest
      else emit before word (c :: rest) ++ scan p (before ++ (word ++ [c])) [] rest

def runs (p : α → Bool) (s : List α) : List (Run α) := scan p [] [] s

theorem scan_inside {c : α} (hc : p c = true) (before word rest : List α) :
    scan p before word (c :: rest) = scan p before (word ++ [c]) rest :=
  if_pos hc

theorem scan_outside {c : α} (hc : p c = false) (before word rest : List α) :
    scan p before word (c :: rest) =
      emit before word (c :: rest) ++ scan p (before ++ (word ++ [c])) [] rest :=
  if_neg (by simp [hc])

theorem emit_nil (before after : List α) : emit before [] after = [] := rfl

theorem emit_of_ne_nil {word : List α} (h : word ≠ []) (before after : List α) :
    emit before word after = [⟨before, word, after⟩] :=
  if_neg (by simpa using h)

theorem mem_emit {before word after : List α} {r : Run α} :
    r ∈ emit before word after ↔ word ≠ [] ∧ r = ⟨before, word, after⟩ := by
  by_cases h : word = []
  · simp [h, emit_nil]
  · simp [h, emit_of_ne_nil h]

theorem emit_pairwise (before word after : List α) :
    (emit before word after).Pairwise fun r r' => r.before.length < r'.before.length := by
  unfold emit
  split
  · exact List.Pairwise.nil
  · exact List.pairwise_singleton _ _

theorem last_outside {c : α} (hc : p c = false) (before word : List α) :
    ∀ d ∈ (before ++ (word ++ [c])).getLast?, p d = false := by
  intro d hd
  rw [← List.append_assoc, List.getLast?_append] at hd
  cases hd
  exact hc

/-! ## Every run is found -/

/-- A run of elements is all that can be taken from the list that it begins. -/
theorem takeWhile_run {word after : List α} (hword : ∀ c ∈ word, p c = true)
    (hafter : ∀ c ∈ after.head?, p c = false) : (word ++ after).takeWhile p = word := by
  rw [List.takeWhile_append_of_pos hword]
  cases after with
  | nil => simp
  | cons c rest => simp [hafter c rfl]

/-- A maximal run cannot begin inside of another one. -/
theorem Run.IsMaximal.start_eq {before word after : List α} {r : Run α}
    (h : r.IsMaximal p (before ++ (word ++ after))) (hword : ∀ c ∈ word, p c = true)
    (hge : before.length ≤ r.before.length) (hle : r.before.length ≤ before.length + word.length) :
    r.before = before := by
  obtain ⟨x, hx⟩ : before <+: r.before :=
    List.prefix_of_prefix_length_le ⟨_, rfl⟩ ⟨_, h.split.symm⟩ hge
  have hxword : x <+: word := by
    have hsplit := h.split
    rw [← hx, List.append_assoc, List.append_cancel_left_eq] at hsplit
    rw [← hx, List.length_append] at hle
    exact List.prefix_of_prefix_length_le ⟨_, hsplit.symm⟩ ⟨after, rfl⟩ (by omega)
  cases hlast : x.getLast? with
  | none => rw [← hx, List.getLast?_eq_none_iff.mp hlast, List.append_nil]
  | some c =>
      have hin : p c = true := hword c (hxword.subset (List.mem_of_getLast? hlast))
      have hout : p c = false := h.left c (by rw [← hx, List.getLast?_append, hlast]; rfl)
      rw [hin] at hout
      cases hout

theorem Run.IsMaximal.eq_of_start {before word after : List α} {r : Run α}
    (h : r.IsMaximal p (before ++ (word ++ after))) (hword : ∀ c ∈ word, p c = true)
    (hafter : ∀ c ∈ after.head?, p c = false) (hstart : r.before = before) :
    word ≠ [] ∧ r = ⟨before, word, after⟩ := by
  have hsplit := h.split
  rw [hstart, List.append_cancel_left_eq] at hsplit
  have hsame : word = r.word := by
    rw [← takeWhile_run hword hafter, hsplit, takeWhile_run h.inside h.right]
  rw [← hsame, List.append_cancel_left_eq] at hsplit
  refine ⟨hsame ▸ h.ne_nil, ?_⟩
  obtain ⟨before', word', after'⟩ := r
  simp only at hstart hsame hsplit
  rw [hstart, ← hsame, ← hsplit]

theorem isMaximal_here {before word after : List α} (hleft : ∀ c ∈ before.getLast?, p c = false)
    (hword : ∀ c ∈ word, p c = true) (hafter : ∀ c ∈ after.head?, p c = false) (hne : word ≠ []) :
    Run.IsMaximal p (before ++ (word ++ after)) ⟨before, word, after⟩ :=
  ⟨rfl, hne, hword, hleft, hafter⟩

/-- By induction on what is still to be read: the runs found are those that begin there. -/
theorem mem_scan {before word t : List α} (hleft : ∀ c ∈ before.getLast?, p c = false)
    (hword : ∀ c ∈ word, p c = true) {r : Run α} :
    r ∈ scan p before word t ↔
      r.IsMaximal p (before ++ (word ++ t)) ∧ before.length ≤ r.before.length := by
  induction t generalizing before word with
  | nil =>
      have hend : ∀ c ∈ ([] : List α).head?, p c = false := fun c hc => nomatch hc
      rw [scan, mem_emit]
      constructor
      · rintro ⟨hne, rfl⟩
        exact ⟨isMaximal_here hleft hword hend hne, Nat.le_refl _⟩
      · rintro ⟨h, hge⟩
        have hlen := congrArg List.length h.split
        simp only [List.length_append, List.length_nil] at hlen
        exact h.eq_of_start hword hend (h.start_eq hword hge (by omega))
  | cons c t ih =>
      cases hc : p c with
      | true =>
          have hword' : ∀ d ∈ word ++ [c], p d = true := by
            simpa [or_imp, forall_and, hc] using hword
          rw [scan_inside hc, ih hleft hword']
          simp only [List.append_assoc, List.singleton_append]
      | false =>
          have hend : ∀ d ∈ (c :: t).head?, p d = false := fun d hd => by cases hd; exact hc
          have hleft' := last_outside hc before word
          have hnone : ∀ d ∈ ([] : List α), p d = true := fun d hd => nomatch hd
          have hrest := ih hleft' hnone
          have hsame : before ++ (word ++ [c]) ++ ([] ++ t) = before ++ (word ++ c :: t) := by simp
          rw [scan_outside hc, List.mem_append, mem_emit, hrest, hsame, List.length_append,
            List.length_append, List.length_singleton]
          constructor
          · rintro (⟨hne, rfl⟩ | ⟨h, hge⟩)
            · exact ⟨isMaximal_here hleft hword hend hne, Nat.le_refl _⟩
            · exact ⟨h, by omega⟩
          · rintro ⟨h, hge⟩
            by_cases hbeyond : before.length + (word.length + 1) ≤ r.before.length
            · exact .inr ⟨h, hbeyond⟩
            · exact .inl (h.eq_of_start hword hend (h.start_eq hword hge (by omega)))

theorem mem_runs {s : List α} {r : Run α} : r ∈ runs p s ↔ r.IsMaximal p s := by
  have hscan := @mem_scan α p [] [] s (fun _ hc => nomatch hc) (fun _ hc => nomatch hc) r
  rw [runs, hscan]
  exact and_iff_left (Nat.zero_le _)

/-! ## In order -/

theorem scan_pairwise {before word t : List α} (hleft : ∀ c ∈ before.getLast?, p c = false)
    (hword : ∀ c ∈ word, p c = true) :
    (scan p before word t).Pairwise fun r r' => r.before.length < r'.before.length := by
  induction t generalizing before word with
  | nil => exact emit_pairwise before word []
  | cons c t ih =>
      cases hc : p c with
      | true =>
          rw [scan_inside hc]
          exact ih hleft (by simpa [or_imp, forall_and, hc] using hword)
      | false =>
          have hleft' := last_outside hc before word
          have hnil : ∀ d ∈ ([] : List α), p d = true := fun d hd => nomatch hd
          rw [scan_outside hc]
          refine List.pairwise_append.mpr
            ⟨emit_pairwise before word _, ih hleft' hnil, fun r hr r' hr' => ?_⟩
          obtain ⟨-, rfl⟩ := mem_emit.mp hr
          have hge := ((mem_scan hleft' hnil).mp hr').2
          simp only [List.length_append, List.length_singleton] at hge
          dsimp only
          omega

theorem runs_pairwise (s : List α) :
    (runs p s).Pairwise fun r r' => r.before.length < r'.before.length :=
  scan_pairwise (fun _ hc => nomatch hc) fun _ hc => nomatch hc

end Runs
