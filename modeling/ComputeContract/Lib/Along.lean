import Mathlib.Logic.Basic

/-!
# Runs

What holds of every step of a run: of the events `es` that a function `step` takes from a
state on.

* `along_congr`: step by step, one property for another.
* `along_of_inv`, `along_congr_of_inv`: what an invariant gives at every step.
-/

namespace ComputeContract

variable {S E : Type} {step : S → E → S} {P Q : S → E → Prop}

/-- `P` holds of every event of a run, in the state where it comes in. -/
def Along (step : S → E → S) (P : S → E → Prop) (s : S) : List E → Prop
  | [] => True
  | e :: es => P s e ∧ Along step P (step s e) es

instance instDecidableAlong [∀ s e, Decidable (P s e)] :
    ∀ s es, Decidable (Along step P s es)
  | _, [] => inferInstanceAs (Decidable True)
  | s, e :: es =>
    have : Decidable (Along step P (step s e) es) := instDecidableAlong (step s e) es
    inferInstanceAs (Decidable (P s e ∧ Along step P (step s e) es))

theorem along_congr (h : ∀ s e, P s e ↔ Q s e) (s : S) (es : List E) :
    Along step P s es ↔ Along step Q s es := by
  induction es generalizing s with
  | nil => rfl
  | cons e es ih => rw [Along, Along, h, ih]

theorem along_and {s : S} {es : List E} :
    Along step (fun s e => P s e ∧ Q s e) s es ↔ Along step P s es ∧ Along step Q s es := by
  induction es generalizing s with
  | nil => exact (and_self_iff).symm
  | cons e es ih => rw [Along, Along, Along, ih, and_and_and_comm]

theorem along_of_forall {P : E → Prop} {es : List E} (h : ∀ e ∈ es, P e) (s : S) :
    Along step (fun _ e => P e) s es := by
  induction es generalizing s with
  | nil => trivial
  | cons e es ih =>
    obtain ⟨he, hes⟩ := List.forall_mem_cons.1 h
    exact ⟨he, ih hes _⟩

/-- A run in two parts. -/
theorem along_append {s : S} {es es' : List E} :
    Along step P s (es ++ es') ↔ Along step P s es ∧ Along step P (es.foldl step s) es' := by
  induction es generalizing s with
  | nil => exact (and_iff_right trivial).symm
  | cons e es ih => rw [List.cons_append, Along, Along, ih, and_assoc, List.foldl_cons]

/-- An invariant that every step under `Q` keeps gives `P` along the run. -/
theorem along_of_inv {Inv : S → Prop} (h : ∀ s e, Inv s → Q s e → P s e ∧ Inv (step s e)) {s : S}
    (hs : Inv s) {es : List E} (hes : Along step Q s es) : Along step P s es := by
  induction es generalizing s with
  | nil => trivial
  | cons e es ih =>
    obtain ⟨he, hes⟩ := hes
    obtain ⟨hP, hnext⟩ := h s e hs he
    exact ⟨hP, ih hnext hes⟩

/-- Step by step, one property for another where an invariant holds. -/
theorem along_congr_of_inv {Inv : S → Prop}
    (h : ∀ s e, Inv s → (P s e ↔ Q s e) ∧ Inv (step s e)) {s : S} (hs : Inv s) (es : List E) :
    Along step P s es ↔ Along step Q s es := by
  induction es generalizing s with
  | nil => rfl
  | cons e es ih =>
    obtain ⟨he, hnext⟩ := h s e hs
    rw [Along, Along, he, ih hnext]

end ComputeContract
