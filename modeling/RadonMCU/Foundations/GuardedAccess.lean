import Mathlib.Data.List.Basic

/-!
# Programs under a control word

A processor has a control word, a memory and cells of that memory that a program may
touch only while the word has one fixed value, its closed value.  A program enters a
critical section by saving the word and closing it, and leaves the section by writing
the saved word back; sections nest.  Every access to a guarded cell is logged with the
word in force.

The rules are those of a program logic whose assertions speak about the word alone.

Main results:

- Theorem {lit}`Takes.bind`: the composition rule.
- Theorem {lit}`Balanced.of_enter`: a program that enters and then writes back what it
  saved gives the word back.
- Theorem {lit}`Balanced.inside`: a program that gives the word back may run in a
  critical section.
-/

/-- The processor: a control word, a memory, and the guarded accesses so far, each with
the word at the time. -/
structure Guarded (W F σ : Type) where
  word : W
  memory : σ
  accesses : List (F × W)

namespace Guarded

variable {W F σ α β : Type}

/-- A program with a result. -/
abbrev Program (W F σ α : Type) := StateM (Guarded W F σ) α

section Programs

/-- Save the word and close it. -/
def enter (closed : W) : Program W F σ W := fun s => (s.word, { s with word := closed })

/-- Write a word back. -/
def exit (saved : W) : Program W F σ Unit := fun s => ((), { s with word := saved })

/-- Touch a guarded cell. -/
def access (cell : F) (act : σ → α × σ) : Program W F σ α := fun s =>
  ((act s.memory).1,
    { s with memory := (act s.memory).2, accesses := s.accesses ++ [(cell, s.word)] })

/-- Touch memory that is not guarded. -/
def unguarded (act : σ → α × σ) : Program W F σ α := fun s =>
  ((act s.memory).1, { s with memory := (act s.memory).2 })

variable (s : Guarded W F σ)

/-- A result without an access. -/
@[simp] theorem pure_apply (a : α) : (pure a : Program W F σ α) s = (a, s) := rfl

/-- One program after another. -/
@[simp] theorem bind_apply (p : Program W F σ α) (f : α → Program W F σ β) :
    (p >>= f) s = f (p s).1 (p s).2 := rfl

/-- A function of the result. -/
@[simp] theorem map_apply (g : α → β) (p : Program W F σ α) :
    (g <$> p) s = (g (p s).1, (p s).2) := rfl

/-- Closing the guard leaves the memory. -/
@[simp] theorem enter_memory (closed : W) :
    ((enter closed : Program W F σ W) s).2.memory = s.memory := rfl

/-- Opening the guard leaves the memory. -/
@[simp] theorem exit_memory (saved : W) :
    ((exit saved : Program W F σ Unit) s).2.memory = s.memory := rfl

end Programs

/-! ## Logged accesses -/

/-- Between two states guarded cells were touched only while the word was closed. -/
def Respects (closed : W) (s s' : Guarded W F σ) : Prop :=
  ∃ entries, s'.accesses = s.accesses ++ entries ∧ ∀ entry ∈ entries, entry.2 = closed

section Respects

variable {closed : W} {s s' s'' : Guarded W F σ}

/-- No access, no breach. -/
theorem respects_of_eq (h : s'.accesses = s.accesses) : Respects closed s s' :=
  ⟨[], by rw [h, List.append_nil], by simp⟩

/-- Two parts of a program. -/
theorem Respects.trans (h : Respects closed s s') (h' : Respects closed s' s'') :
    Respects closed s s'' := by
  rcases h with ⟨entries, haccesses, hclosed⟩
  rcases h' with ⟨entries', haccesses', hclosed'⟩
  refine ⟨entries ++ entries', ?_, ?_⟩
  · rw [haccesses', haccesses, List.append_assoc]
  · intro entry hentry
    rcases List.mem_append.mp hentry with hfirst | hsecond
    · exact hclosed entry hfirst
    · exact hclosed' entry hsecond

end Respects

/-! ## The program logic -/

/-- From a word {lit}`w` the program ends with a result and a word that meet {lit}`Q`, and
touches guarded cells only while the word is closed. -/
def Takes (closed w : W) (p : Program W F σ α) (Q : α → W → Prop) : Prop :=
  ∀ s : Guarded W F σ, s.word = w → Q (p s).1 (p s).2.word ∧ Respects closed s (p s).2

/-- The program gives the word back, whatever it was. -/
def Balanced (closed : W) (p : Program W F σ α) : Prop :=
  ∀ w, Takes closed w p fun _ w' => w' = w

/-- The program may run while the word is closed, and leaves it so. -/
def Inside (closed : W) (p : Program W F σ α) : Prop :=
  Takes closed closed p fun _ w' => w' = closed

section Rules

variable {closed w : W} {p : Program W F σ α} {f : α → Program W F σ β}
  {Q : α → W → Prop} {R : β → W → Prop}

/-- A result without an access leaves the guard. -/
theorem takes_pure {a : α} (h : Q a w) : Takes closed w (pure a : Program W F σ α) Q := by
  rintro s rfl
  exact ⟨h, respects_of_eq rfl⟩

/-- The composition rule. -/
theorem Takes.bind (hp : Takes closed w p Q)
    (hf : ∀ a w', Q a w' → Takes closed w' (f a) R) : Takes closed w (p >>= f) R := by
  intro s hs
  have hfirst := hp s hs
  have hsecond := hf _ _ hfirst.1 (p s).2 rfl
  exact ⟨hsecond.1, hfirst.2.trans hsecond.2⟩

/-- The guard is what was saved. -/
theorem takes_exit (saved : W) :
    Takes closed w (exit saved : Program W F σ Unit) fun _ w' => w' = saved := by
  rintro s rfl
  exact ⟨rfl, respects_of_eq rfl⟩

/-- An access with the guard closed. -/
theorem inside_access (cell : F) (act : σ → α × σ) :
    Inside closed (access cell act : Program W F σ α) := by
  rintro s rfl
  refine ⟨rfl, [(cell, s.word)], rfl, ?_⟩
  intro entry hentry
  rw [List.mem_singleton.mp hentry]

/-- What touches no guarded cell may be done anywhere. -/
theorem balanced_unguarded (act : σ → α × σ) :
    Balanced closed (unguarded act : Program W F σ α) := by
  rintro w s rfl
  exact ⟨rfl, respects_of_eq rfl⟩

/-- A result without an access. -/
theorem balanced_pure (a : α) : Balanced closed (pure a : Program W F σ α) :=
  fun _ => takes_pure rfl

/-- Two balanced programs. -/
theorem Balanced.bind (hp : Balanced closed p) (hf : ∀ a, Balanced closed (f a)) :
    Balanced closed (p >>= f) := by
  intro w
  refine (hp w).bind ?_
  rintro a _ rfl
  exact hf a _

/-- A program that enters and then writes back what it saved gives the word back. -/
theorem Balanced.of_enter {f : W → Program W F σ β}
    (hf : ∀ saved, Takes closed closed (f saved) fun _ w' => w' = saved) :
    Balanced closed (enter closed >>= f) := by
  rintro w s rfl
  exact hf s.word { s with word := closed } rfl

/-- A program that gives the word back may run in a critical section. -/
theorem Balanced.inside (hp : Balanced closed p) : Inside closed p := hp closed

/-- A result without an access. -/
theorem inside_pure (a : α) : Inside closed (pure a : Program W F σ α) := takes_pure rfl

/-- What follows in the critical section. -/
theorem Inside.takes_bind (hp : Inside closed p) (hf : ∀ a, Takes closed closed (f a) R) :
    Takes closed closed (p >>= f) R := by
  refine Takes.bind hp ?_
  rintro a _ rfl
  exact hf a

/-- Two programs inside a section. -/
theorem Inside.bind (hp : Inside closed p) (hf : ∀ a, Inside closed (f a)) :
    Inside closed (p >>= f) := hp.takes_bind hf

/-- What follows the critical section. -/
theorem Balanced.after_exit {q : Program W F σ β} (hq : Balanced closed q) (saved : W) :
    Takes closed w (exit saved >>= fun _ => q) fun _ w' => w' = saved := by
  refine (takes_exit saved).bind ?_
  rintro _ _ rfl
  exact hq _

end Rules

end Guarded
