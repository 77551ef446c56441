import Mathlib.Data.List.Induction

/-!
# Deterministic step systems

A step system is a total function from a state and an action to the next state;
an action that is not enabled leaves the state as it is.  A run is a finite list
of actions.  This file gives the invariant rules for runs, with and without a
side condition that every step of the run has to meet.

Main results:

- Theorem {lit}`run_invariant`: a property kept by every step holds after every
  run.
- Theorem {lit}`run_invariant_of_meets`: the same when a step keeps it only
  under a condition that the run meets at each step.
- Theorem {lit}`meets_iff`: a run meets a condition exactly when the condition
  holds at the state before each of its actions.
- Theorem {lit}`prefix_run`: a list that every step extends is extended by every run.
- Theorem {lit}`run_history`: an invariant of the actions so far and the state.
- Theorem {lit}`run_total_invariant`: the same for a property that also depends on the
  total weight of the steps taken.
- Theorem {lit}`run_simulation`: a relation kept by the steps of two systems on the
  same action is kept by their runs.
- Theorem {lit}`outputs_simulation`: if related states also answer every action
  alike, the answers of the two runs are the same.
- Theorem {lit}`run_purge`: deleting actions that only lead to related states leads to
  a related state.
-/

namespace StepSystem

variable {σ τ α β κ : Type*}

/-- The state reached from {lit}`s` by a finite list of actions. -/
def run (step : σ → α → σ) (s : σ) (acts : List α) : σ :=
  acts.foldl step s

/-- Every action of the run meets {lit}`G` at the state it is taken in. -/
def Meets (step : σ → α → σ) (G : σ → α → Prop) : σ → List α → Prop
  | _, [] => True
  | s, a :: acts => G s a ∧ Meets step G (step s a) acts

instance instDecidableMeets {step : σ → α → σ} {G : σ → α → Prop} [∀ s a, Decidable (G s a)] :
    ∀ (s : σ) (acts : List α), Decidable (Meets step G s acts)
  | _, [] => isTrue trivial
  | s, a :: acts =>
    match (inferInstance : Decidable (G s a)), instDecidableMeets (step s a) acts with
    | isTrue ha, isTrue hacts => isTrue ⟨ha, hacts⟩
    | isFalse ha, _ => isFalse fun h => ha h.1
    | _, isFalse hacts => isFalse fun h => hacts h.2

section Run

variable (step : σ → α → σ) (s : σ)

@[simp] theorem run_nil : run step s [] = s := rfl

@[simp] theorem run_cons (a : α) (acts : List α) :
    run step s (a :: acts) = run step (step s a) acts := rfl

theorem run_append (acts acts' : List α) :
    run step s (acts ++ acts') = run step (run step s acts) acts' :=
  List.foldl_append

@[simp] theorem run_concat (acts : List α) (a : α) :
    run step s (acts ++ [a]) = step (run step s acts) a := by
  simp [run_append]

end Run

section Invariants

variable {step : σ → α → σ} {s : σ}

/-- A property kept by every step holds after every run. -/
theorem run_invariant {P : σ → Prop} (hstep : ∀ s a, P s → P (step s a))
    (hs : P s) (acts : List α) : P (run step s acts) := by
  induction acts generalizing s with
  | nil => exact hs
  | cons a acts ih => exact ih (hstep s a hs)

/-- A property kept by every step that meets {lit}`G` holds after every run whose
steps all meet it. -/
theorem run_invariant_of_meets {P : σ → Prop} {G : σ → α → Prop}
    (hstep : ∀ s a, P s → G s a → P (step s a)) (hs : P s)
    {acts : List α} (hacts : Meets step G s acts) : P (run step s acts) := by
  induction acts generalizing s with
  | nil => exact hs
  | cons a acts ih => exact ih (hstep s a hs hacts.1) hacts.2

theorem meets_append {G : σ → α → Prop} {acts acts' : List α} :
    Meets step G s (acts ++ acts') ↔
      Meets step G s acts ∧ Meets step G (run step s acts) acts' := by
  induction acts generalizing s with
  | nil => simp [Meets]
  | cons a acts ih => simp [Meets, ih, and_assoc]

theorem meets_and {G H : σ → α → Prop} {acts : List α} (hG : Meets step G s acts)
    (hH : Meets step H s acts) : Meets step (fun s a => G s a ∧ H s a) s acts := by
  induction acts generalizing s with
  | nil => trivial
  | cons a acts ih => exact ⟨⟨hG.1, hH.1⟩, ih hG.2 hH.2⟩

/-- A condition on the actions alone. -/
theorem meets_of_forall {G : α → Prop} {acts : List α} (h : ∀ a ∈ acts, G a) :
    Meets step (fun _ a => G a) s acts := by
  induction acts generalizing s with
  | nil => trivial
  | cons a acts ih =>
    exact ⟨h a List.mem_cons_self, ih fun b hb => h b (List.mem_cons_of_mem _ hb)⟩

/-- A condition on steps is met by a run exactly when it holds at the state
before each action. -/
theorem meets_iff {G : σ → α → Prop} {acts : List α} :
    Meets step G s acts ↔
      ∀ pre a post, acts = pre ++ a :: post → G (run step s pre) a := by
  constructor
  · rintro hacts pre a post rfl
    exact (meets_append.mp hacts).2.1
  · intro h
    induction acts generalizing s with
    | nil => trivial
    | cons a acts ih =>
      refine ⟨h [] a acts rfl, ih ?_⟩
      intro pre b post hsplit
      exact h (a :: pre) b post (by rw [hsplit]; rfl)

/-- A list that every step only extends. -/
theorem prefix_run {f : σ → List β} (hstep : ∀ s a, f s <+: f (step s a)) (acts : List α) :
    f s <+: f (run step s acts) := by
  induction acts generalizing s with
  | nil => exact List.prefix_refl _
  | cons a acts ih => exact (hstep s a).trans ih

end Invariants

section History

variable (step : σ → α → σ) (s : σ)

/-- Some state on the way of the actions has the property. -/
def Met (acts : List α) (P : σ → Prop) : Prop :=
  ∃ pre post, acts = pre ++ post ∧ P (run step s pre)

variable {step s} {acts : List α} {P : σ → Prop}

/-- The state reached is one of those on the way. -/
theorem met_run (h : P (run step s acts)) : Met step s acts P :=
  ⟨acts, [], (List.append_nil acts).symm, h⟩

/-- What was met stays met. -/
theorem Met.concat (h : Met step s acts P) (a : α) : Met step s (acts ++ [a]) P := by
  obtain ⟨pre, post, rfl, hpre⟩ := h
  exact ⟨pre, post ++ [a], List.append_assoc pre post [a], hpre⟩

/-- A property of the actions so far and of the state that they lead to. -/
theorem run_history {I : List α → σ → Prop} (hnil : I [] s)
    (hstep : ∀ acts a, I acts (run step s acts) → I (acts ++ [a]) (step (run step s acts) a))
    (acts : List α) : I acts (run step s acts) := by
  induction acts using List.reverseRecOn with
  | nil => exact hnil
  | append_singleton acts a ih =>
    rw [run_concat]
    exact hstep acts a ih

end History

section Total

variable {step : σ → α → σ} {weight : σ → α → Nat} {s : σ}

/-- The weights of the steps of a run, each taken at the state before it. -/
def total (step : σ → α → σ) (weight : σ → α → Nat) : σ → List α → Nat
  | _, [] => 0
  | s, a :: acts => weight s a + total step weight (step s a) acts

/-- The weights add up to nothing exactly when every step has none. -/
theorem total_eq_zero_iff {acts : List α} :
    total step weight s acts = 0 ↔ Meets step (fun s a => weight s a = 0) s acts := by
  induction acts generalizing s with
  | nil => simp [total, Meets]
  | cons a acts ih => simp [total, Meets, ih]

/-- A property of the state and the weight so far that every step keeps. -/
theorem run_total_invariant {P : σ → Nat → Prop}
    (hstep : ∀ s n a, P s n → P (step s a) (n + weight s a)) {n : Nat} (hs : P s n)
    (acts : List α) : P (run step s acts) (n + total step weight s acts) := by
  induction acts generalizing s n with
  | nil => exact hs
  | cons a acts ih =>
    rw [run_cons, total, ← Nat.add_assoc]
    exact ih (hstep s n a hs)

end Total

/-- A relation kept by the steps of two systems on the same action is kept by their
runs. -/
theorem run_simulation {step : σ → α → σ} {step' : τ → α → τ} {R : σ → τ → Prop}
    (hstep : ∀ s t a, R s t → R (step s a) (step' t a)) {s : σ} {t : τ} (hst : R s t)
    (acts : List α) : R (run step s acts) (run step' t acts) := by
  induction acts generalizing s t with
  | nil => exact hst
  | cons a acts ih => exact ih (hstep s t a hst)

/-- The answers to the actions of a run, each given at the state before it. -/
def outputs (step : σ → α → σ) (out : σ → α → β) : σ → List α → List β
  | _, [] => []
  | s, a :: acts => out s a :: outputs step out (step s a) acts

/-- Two systems whose related states answer every action alike give the same answers
along their runs. -/
theorem outputs_simulation {step : σ → α → σ} {step' : τ → α → τ} {out : σ → α → β}
    {out' : τ → α → β} {R : σ → τ → Prop}
    (hstep : ∀ s t a, R s t → out s a = out' t a ∧ R (step s a) (step' t a))
    {s : σ} {t : τ} (hst : R s t) (acts : List α) :
    outputs step out s acts = outputs step' out' t acts := by
  induction acts generalizing s t with
  | nil => rfl
  | cons a acts ih =>
    have ha := hstep s t a hst
    rw [outputs, outputs, ha.1, ih ha.2]

/-! ## Deleting actions -/

/-- The actions of a list that are kept, where {lit}`κ` is what the test knows of the
actions before. -/
def purge (keep : κ → α → Bool) (next : κ → α → κ) : κ → List α → List α
  | _, [] => []
  | k, a :: acts =>
    if keep k a then a :: purge keep next (next k a) acts
    else purge keep next (next k a) acts

/-- If every step keeps a relation and a deleted action does not leave it, the run
without the deleted actions ends in a related state. -/
theorem run_purge {step : σ → α → σ} {keep : κ → α → Bool} {next : κ → α → κ}
    {V : κ → σ → Prop} {R : σ → σ → Prop}
    (hV : ∀ k s a, V k s → V (next k a) (step s a))
    (hkeep : ∀ s t a, R s t → R (step s a) (step t a))
    (hdelete : ∀ k s t a, V k s → keep k a = false → R s t → R (step s a) t)
    {k : κ} {s t : σ} (hs : V k s) (hst : R s t) (acts : List α) :
    R (run step s acts) (run step t (purge keep next k acts)) := by
  induction acts generalizing k s t with
  | nil => exact hst
  | cons a acts ih =>
    have hnext := hV k s a hs
    rw [run_cons, purge]
    cases hka : keep k a with
    | true =>
      rw [if_pos rfl, run_cons]
      exact ih hnext (hkeep s t a hst)
    | false =>
      rw [if_neg Bool.false_ne_true]
      exact ih hnext (hdelete k s t a hs hka hst)

end StepSystem
