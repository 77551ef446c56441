import Mathlib.Data.List.Basic
import Mathlib.Logic.Function.Basic

/-!
# Straight-line code under an interrupt flag

A processor runs straight-line code whose operations change some data.  Between two
instructions it may be interrupted, but only while its interrupt flag is set.  Code saves the
flag in a local variable, clears it, and writes the saved value back; such sections nest.

When every operation of a piece of code lies in such a section, an interrupt sees the data as
it was before all of them or as it is after all of them.

Main results:

- Theorem {lit}`Keeps.load`: code that keeps a property as a whole may be started.
- Theorem {lit}`Keeps.step`: an instruction of guarded code does not let an interrupt see the
  property broken.
- Theorem {lit}`Keeps.holds_of_idle`: the property holds between two pieces of code.
-/

namespace MaskedCode

inductive Instr (Op : Type*) where
  /-- Save the flag in a local variable. -/
  | save (slot : Nat)
  /-- Clear the flag. -/
  | disable
  /-- Write the saved flag back. -/
  | restore (slot : Nat)
  /-- Change the data. -/
  | op (o : Op)

variable {σ Op : Type*}

/-- The operation of an instruction. -/
def Instr.op? : Instr Op → Option Op
  | .op o => some o
  | _ => none

/-- The operations of a piece of code, in order. -/
def ops (code : List (Instr Op)) : List Op := code.filterMap Instr.op?

/-- The flag, the local variables, the code that is still to be run, and the data. -/
structure Thread (σ Op : Type*) where
  enabled : Bool
  saved : Nat → Bool
  code : List (Instr Op)
  data : σ

/-- One instruction. -/
def step (exec : σ → Op → σ) (t : Thread σ Op) : Thread σ Op :=
  match t.code with
  | [] => t
  | .save slot :: code => { t with code, saved := Function.update t.saved slot t.enabled }
  | .disable :: code => { t with code, enabled := false }
  | .restore slot :: code => { t with code, enabled := t.saved slot }
  | .op o :: code => { t with code, data := exec t.data o }

/-- Started with this flag and these variables, the code changes the data only while the flag
is clear, and not at all after it has set the flag again. -/
def Guarded : Bool → (Nat → Bool) → List (Instr Op) → Prop
  | _, _, [] => True
  | enabled, saved, .save slot :: code => Guarded enabled (Function.update saved slot enabled) code
  | _, saved, .disable :: code => Guarded false saved code
  | _, saved, .restore slot :: code =>
      (saved slot = true → ops code = []) ∧ Guarded (saved slot) saved code
  | enabled, saved, .op _ :: code => enabled = false ∧ Guarded enabled saved code

/-- The property holds when the code has been run, and whenever an interrupt can be taken. -/
structure Keeps (exec : σ → Op → σ) (P : σ → Prop) (t : Thread σ Op) : Prop where
  guarded : Guarded t.enabled t.saved t.code
  final : P ((ops t.code).foldl exec t.data)
  now : t.enabled = true → P t.data

variable {exec : σ → Op → σ} {P : σ → Prop} {t : Thread σ Op}

/-- The property holds between two pieces of code. -/
theorem Keeps.holds_of_idle (h : Keeps exec P t) (hidle : t.code = []) : P t.data := by
  have hfinal := h.final
  rw [hidle] at hfinal
  exact hfinal

/-- Code that keeps the property as a whole may be started. -/
theorem Keeps.load (h : Keeps exec P t) (hidle : t.code = []) {code : List (Instr Op)}
    (hguarded : Guarded t.enabled t.saved code)
    (hcode : P t.data → P ((ops code).foldl exec t.data)) :
    Keeps exec P { t with code } where
  guarded := hguarded
  final := hcode (h.holds_of_idle hidle)
  now := h.now

/-- One instruction. -/
theorem Keeps.step (h : Keeps exec P t) : Keeps exec P (step exec t) := by
  obtain ⟨enabled, saved, code, data⟩ := t
  obtain ⟨hguarded, hfinal, hnow⟩ := h
  cases code with
  | nil => exact ⟨hguarded, hfinal, hnow⟩
  | cons instr code =>
    cases instr with
    | save slot => exact ⟨hguarded, hfinal, hnow⟩
    | disable => exact ⟨hguarded, hfinal, by rintro ⟨⟩⟩
    | restore slot =>
      refine ⟨hguarded.2, hfinal, fun henabled => ?_⟩
      change P ((ops code).foldl exec data) at hfinal
      rw [hguarded.1 henabled] at hfinal
      exact hfinal
    | op o =>
      refine ⟨hguarded.2, hfinal, fun henabled => ?_⟩
      have hclear : enabled = false := hguarded.1
      exact absurd (hclear.symm.trans henabled) Bool.false_ne_true

end MaskedCode
