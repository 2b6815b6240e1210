import ComputeContract.Lib.Task

/-!
# Tasks on a state

Steps that read and change the state of a task, and two properties of tasks that follow from
those of their steps.

* `Task.Keeps`: a part of the state is left as it is.
* `Task.Returns`: whether the task returns does not depend on the state.
-/

namespace ComputeContract

/-- The task has returned. -/
def Outcome.Returned {ε α : Type} (o : Outcome ε α) : Prop := ∃ a, o = .ok a

namespace Task

variable {σ τ ε α β : Type}

def modify (f : σ → σ) : Task σ ε Unit := fun s => (.ok (), f s)

/-! ## A part that is kept -/

/-- The task leaves this part of the state as it is, however it ends. -/
def Keeps (part : σ → τ) (x : Task σ ε α) : Prop := ∀ s, part (x s).2 = part s

namespace Keeps

variable {part : σ → τ} {x : Task σ ε α}

theorem pure (a : α) : Keeps part (Pure.pure a : Task σ ε α) := fun _ => rfl

theorem throw (e : ε) : Keeps part (throw e : Task σ ε α) := fun _ => rfl

theorem ofExcept (r : Except ε α) : Keeps part (ofExcept r : Task σ ε α) := by
  cases r
  · exact throw _
  · exact pure _

theorem modify {f : σ → σ} (h : ∀ s, part (f s) = part s) :
    Keeps part (modify f : Task σ ε Unit) := h

theorem bind {f : α → Task σ ε β} (hx : Keeps part x) (hf : ∀ a, Keeps part (f a)) :
    Keeps part (x >>= f) := by
  intro s
  have hs := hx s
  change part (Task.bind x f s).2 = _
  unfold Task.bind
  revert hs
  rcases x s with ⟨o, t⟩
  intro hs
  cases o with
  | ok a => exact (hf a t).trans hs
  | error e => exact hs
  | running => exact hs

end Keeps

/-! ## Tasks that return -/

/-- The task returns if and only if `P`, from any state. -/
def Returns (P : Prop) (x : Task σ ε α) : Prop := ∀ s, (x s).1.Returned ↔ P

namespace Returns

variable {P Q : Prop} {x : Task σ ε α}

theorem pure (a : α) : Returns True (Pure.pure a : Task σ ε α) :=
  fun _ => iff_true_intro ⟨a, rfl⟩

theorem throw (e : ε) : Returns False (throw e : Task σ ε α) :=
  fun _ => iff_false_intro nofun

theorem ofExcept (r : Except ε α) : Returns (∃ a, r = .ok a) (ofExcept r : Task σ ε α) := by
  cases r with
  | ok a => exact fun _ => iff_of_true ⟨a, rfl⟩ ⟨a, rfl⟩
  | error e => exact fun _ => iff_of_false nofun nofun

theorem modify (f : σ → σ) : Returns True (modify f : Task σ ε Unit) :=
  fun _ => iff_true_intro ⟨(), rfl⟩

theorem bind {f : α → Task σ ε β} (hx : Returns P x) (hf : ∀ a, Returns Q (f a)) :
    Returns (P ∧ Q) (x >>= f) := by
  intro s
  have hs := hx s
  change (Task.bind x f s).1.Returned ↔ _
  unfold Task.bind
  revert hs
  rcases x s with ⟨o, t⟩
  intro hs
  cases o with
  | ok a => exact (hf a t).trans (and_iff_right (hs.1 ⟨a, rfl⟩)).symm
  | error e => exact iff_of_false nofun fun h => nomatch (hs.2 h.1)
  | running => exact iff_of_false nofun fun h => nomatch (hs.2 h.1)

/-- A task that comes to an end that never returns. -/
theorem bind_false {f : α → Task σ ε β} (hf : ∀ a, Returns False (f a)) :
    Returns False (x >>= f) := by
  intro s
  change (Task.bind x f s).1.Returned ↔ _
  unfold Task.bind
  rcases x s with ⟨o, t⟩
  cases o with
  | ok a => exact hf a t
  | error e => exact iff_of_false nofun id
  | running => exact iff_of_false nofun id

/-- A task that begins with one that never returns. -/
theorem false_bind {f : α → Task σ ε β} (hx : Returns False x) : Returns False (x >>= f) := by
  intro s
  have hs := hx s
  change (Task.bind x f s).1.Returned ↔ _
  unfold Task.bind
  revert hs
  rcases x s with ⟨o, t⟩
  intro hs
  cases o with
  | ok a => exact (hs.1 ⟨a, rfl⟩).elim
  | error e => exact iff_of_false nofun id
  | running => exact iff_of_false nofun id

theorem congr (h : Returns P x) (hPQ : P ↔ Q) : Returns Q x := fun s => (h s).trans hPQ

end Returns

end Task

end ComputeContract
