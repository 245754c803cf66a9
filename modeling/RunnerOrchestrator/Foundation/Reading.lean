import Mathlib.Data.List.Basic
import Mathlib.Data.List.Infix

/-! # Texts that can be read back

A format writes values as texts and reads a value off the front of a text. The end of
a number, say, shows only in what follows, so a format also says which texts may
follow; where one of them does, exactly the value written is read.
-/

namespace Reading

variable {α γ : Type*} {σ : Type*}

structure Format (α : Type*) (σ : Type*) where
  write : α → List σ
  read : List σ → Option (α × List σ)
  follows : List σ → Prop
  read_write : ∀ a rest, follows rest → read (write a ++ rest) = some (a, rest)

namespace Format

/-- One text stands for one value. -/
theorem write_injective (f : Format α σ) (h : f.follows []) : Function.Injective f.write := by
  intro a b hab
  have ha := f.read_write a [] h
  rw [hab, f.read_write b [] h] at ha
  exact (congrArg Prod.fst (Option.some.inj ha)).symm

/-- The value of a text that is read to its end. -/
def readAll (f : Format α σ) (s : List σ) : Option α :=
  match f.read s with
  | some (a, []) => some a
  | some (_, _ :: _) => none
  | none => none

theorem readAll_write (f : Format α σ) (h : f.follows []) (a : α) :
    f.readAll (f.write a) = some a := by
  have hread := f.read_write a [] h
  rw [List.append_nil] at hread
  rw [readAll, hread]

/-! ## Fixed words -/

variable [DecidableEq σ]

/-- What is left behind the word `t`. -/
def skip (t s : List σ) : Option (List σ) := if t <+: s then some (s.drop t.length) else none

theorem skip_append (t rest : List σ) : skip t (t ++ rest) = some rest := by
  rw [skip, if_pos (List.prefix_append t rest), List.drop_left]

theorem skip_eq_none {t s : List σ} (h : ¬ t <+: s) : skip t s = none := if_neg h

/-- The word `t`, then a value. -/
def after (t : List σ) (f : Format α σ) : Format α σ where
  write a := t ++ f.write a
  read s := (skip t s).bind f.read
  follows := f.follows
  read_write := by
    intro a rest h
    rw [List.append_assoc, skip_append]
    exact f.read_write a rest h

theorem after_read_eq_none {t s : List σ} (h : ¬ t <+: s) (f : Format α σ) :
    (f.after t).read s = none := by
  show (skip t s).bind f.read = none
  rw [skip_eq_none h, Option.bind_none]

/-- A value, then the word `t`. -/
def closed (f : Format α σ) (t : List σ) (h : ∀ rest, f.follows (t ++ rest)) : Format α σ where
  write a := f.write a ++ t
  read s := (f.read s).bind fun out => (skip t out.2).map fun rest => (out.1, rest)
  follows _ := True
  read_write := by
    intro a rest _
    rw [List.append_assoc, f.read_write a (t ++ rest) (h rest), Option.bind_some, skip_append]
    rfl

omit [DecidableEq σ]

/-! ## Values of several parts -/

/-- A value of `f`, then one of `g`. -/
def pair (f : Format α σ) (g : Format γ σ)
    (h : ∀ c rest, g.follows rest → f.follows (g.write c ++ rest)) : Format (α × γ) σ where
  write p := f.write p.1 ++ g.write p.2
  read s := (f.read s).bind fun out => (g.read out.2).map fun out' => ((out.1, out'.1), out'.2)
  follows := g.follows
  read_write := by
    intro p rest hrest
    rw [List.append_assoc, f.read_write _ _ (h p.2 rest hrest), Option.bind_some,
      g.read_write _ _ hrest]
    rfl

theorem pair_read_eq_none {f : Format α σ} {s : List σ} (hf : f.read s = none) (g : Format γ σ)
    (h : ∀ c rest, g.follows rest → f.follows (g.write c ++ rest)) :
    (f.pair g h).read s = none := by
  show (f.read s).bind _ = none
  rw [hf, Option.bind_none]

/-- The same texts for values in another form. -/
def view (f : Format α σ) (pack : α → γ) (unpack : γ → α) (h : ∀ c, pack (unpack c) = c) :
    Format γ σ where
  write c := f.write (unpack c)
  read s := (f.read s).map fun out => (pack out.1, out.2)
  follows := f.follows
  read_write := by
    intro c rest hrest
    rw [f.read_write _ _ hrest, Option.map_some, h]

theorem view_read_eq_none {f : Format α σ} {s : List σ} (hf : f.read s = none) (pack : α → γ)
    (unpack : γ → α) (h : ∀ c, pack (unpack c) = c) : (f.view pack unpack h).read s = none := by
  show (f.read s).map _ = none
  rw [hf, Option.map_none]

/-! ## Repetition -/

/-- At most `n` values, as many as can be read. -/
def readUpTo (f : Format α σ) : Nat → List σ → List α × List σ
  | 0, s => ([], s)
  | n + 1, s =>
      match f.read s with
      | none => ([], s)
      | some (a, rest) => (a :: (readUpTo f n rest).1, (readUpTo f n rest).2)

/-- By induction on the values written, with at least as many rounds to go. -/
theorem readUpTo_write (f : Format α σ) (hall : ∀ rest, f.follows rest) {rest : List σ}
    (hend : f.read rest = none) {n : Nat} {values : List α} (hn : values.length ≤ n) :
    f.readUpTo n (values.flatMap f.write ++ rest) = (values, rest) := by
  induction values generalizing n with
  | nil =>
      cases n with
      | zero => rfl
      | succ n =>
          show f.readUpTo (n + 1) rest = ([], rest)
          rw [readUpTo, hend]
  | cons a values ih =>
      cases n with
      | zero => exact absurd hn (Nat.not_succ_le_zero _)
      | succ n =>
          have hn' : values.length ≤ n := Nat.le_of_succ_le_succ hn
          rw [List.flatMap_cons, List.append_assoc, readUpTo, f.read_write a _ (hall _)]
          simp only [ih hn']

theorem length_le_flatMap {write : α → List σ} (hne : ∀ a, write a ≠ []) (values : List α) :
    values.length ≤ (values.flatMap write).length := by
  induction values with
  | nil => exact Nat.zero_le _
  | cons a values ih =>
      have hpos := List.length_pos_of_ne_nil (hne a)
      rw [List.flatMap_cons, List.length_append, List.length_cons]
      omega

/-- Any number of values, as far as values can be read. No value is written as the empty
text, so a text has at least as many symbols as values. -/
def many (f : Format α σ) (hall : ∀ rest, f.follows rest) (hne : ∀ a, f.write a ≠ []) :
    Format (List α) σ where
  write values := values.flatMap f.write
  read s := some (f.readUpTo s.length s)
  follows rest := f.read rest = none
  read_write := by
    intro values rest hend
    rw [readUpTo_write f hall hend]
    rw [List.length_append]
    exact Nat.le_trans (length_le_flatMap hne values) (Nat.le_add_right _ _)

end Format

end Reading
