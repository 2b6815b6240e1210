import Mathlib.Logic.Basic

/-!
# Tasks

A task acts on a state, may throw and may not end: it is a function of the state, with the
way it ends beside the state it leaves. The rules say what holds of the state that a task
leaves (`Task.Triple`), however it ends, and of a task that only adds to a log
(`Task.Appends`, `Task.AppendsAll`).
-/

namespace ComputeContract

/-- How a task ends, if it does. -/
inductive Outcome (ε α : Type)
  | ok (value : α)
  | error (thrown : ε)
  | running

/-- The way a step without effects ends. -/
def Outcome.ofExcept {ε α : Type} : Except ε α → Outcome ε α
  | .ok a => .ok a
  | .error e => .error e

/-- The value, if any, is used in a step without effects. -/
def Outcome.andThen {ε α β : Type} (o : Outcome ε α) (f : α → Except ε β) : Outcome ε β :=
  match o with
  | .ok a =>
    match f a with
    | .ok b => .ok b
    | .error e => .error e
  | .error e => .error e
  | .running => .running

theorem Outcome.andThen_of_ok {ε α β : Type} {f : α → Except ε β} {a : α} {b : β}
    (h : f a = .ok b) : (Outcome.ok a).andThen f = .ok b := by
  simp only [Outcome.andThen, h]

/-- A task on states `σ` that throws an `ε` or gives an `α`. -/
def Task (σ ε α : Type) := σ → Outcome ε α × σ

namespace Task

variable {σ ε α β : Type}

protected def pure (a : α) : Task σ ε α := fun s => (.ok a, s)

protected def bind (x : Task σ ε α) (f : α → Task σ ε β) : Task σ ε β := fun s =>
  match x s with
  | (.ok a, s) => f a s
  | (.error e, s) => (.error e, s)
  | (.running, s) => (.running, s)

instance : Monad (Task σ ε) where
  pure := Task.pure
  bind := Task.bind

def throw (e : ε) : Task σ ε α := fun s => (.error e, s)

/-- `try x catch`. -/
def tryCatch (x : Task σ ε α) (handler : ε → Task σ ε α) : Task σ ε α := fun s =>
  match x s with
  | (.error e, s) => handler e s
  | out => out

/-- A step without effects. -/
def ofExcept : Except ε α → Task σ ε α
  | .ok a => .pure a
  | .error e => throw e

/-- The task goes on forever. -/
def forever : Task σ ε α := fun s => (.running, s)

/-! ## What a task leaves -/

/-- From a state with `P`, the task ends, or is left running, with `Q`. -/
def Triple (P : σ → Prop) (x : Task σ ε α) (Q : Outcome ε α → σ → Prop) : Prop :=
  ∀ s, P s → Q (x s).1 (x s).2

namespace Triple

variable {P : σ → Prop} {x : Task σ ε α} {Q : Outcome ε α → σ → Prop}

theorem conseq {P' : σ → Prop} {Q' : Outcome ε α → σ → Prop} (h : Triple P x Q)
    (hp : ∀ s, P' s → P s) (hq : ∀ o s, Q o s → Q' o s) : Triple P' x Q' :=
  fun s hs => hq _ _ (h s (hp s hs))

theorem pure {a : α} (h : ∀ s, P s → Q (.ok a) s) : Triple P (Pure.pure a : Task σ ε α) Q :=
  fun s hs => h s hs

theorem throw {e : ε} (h : ∀ s, P s → Q (.error e) s) : Triple P (throw e : Task σ ε α) Q :=
  fun s hs => h s hs

theorem forever (h : ∀ s, P s → Q .running s) : Triple P (forever : Task σ ε α) Q :=
  fun s hs => h s hs

/-- One task after the other; what the first leaves when it does not return is left. -/
theorem bind {R : Outcome ε α → σ → Prop} {S : Outcome ε β → σ → Prop} {f : α → Task σ ε β}
    (hx : Triple P x R) (hf : ∀ a, Triple (R (.ok a)) (f a) S)
    (herror : ∀ e s, R (.error e) s → S (.error e) s)
    (hrunning : ∀ s, R .running s → S .running s) : Triple P (x >>= f) S := by
  intro s hs
  have h := hx s hs
  change S (Task.bind x f s).1 (Task.bind x f s).2
  unfold Task.bind
  revert h
  rcases x s with ⟨o, s'⟩
  cases o with
  | ok a => exact fun h => hf a s' h
  | error e => exact fun h => herror e s' h
  | running => exact fun h => hrunning s' h

/-- A step without effects, and what comes after it. -/
theorem bind_ofExcept {S : Outcome ε β → σ → Prop} {r : Except ε α} {f : α → Task σ ε β}
    (hf : ∀ a, r = .ok a → Triple P (f a) S) (herror : ∀ e s, P s → S (.error e) s) :
    Triple P (Task.ofExcept r >>= f) S := by
  cases r with
  | ok a => exact hf a rfl
  | error e => exact herror e

theorem tryCatch {R : ε → σ → Prop} {handler : ε → Task σ ε α}
    (hx : Triple P x fun o s => match o with
      | .error e => R e s
      | o => Q o s)
    (hhandler : ∀ e, Triple (R e) (handler e) Q) : Triple P (tryCatch x handler) Q := by
  intro s hs
  have h := hx s hs
  unfold Task.tryCatch
  revert h
  rcases x s with ⟨o, s'⟩
  cases o with
  | ok a => exact fun h => h
  | error e => exact fun h => hhandler e s' h
  | running => exact fun h => h

end Triple

/-! ## How a task returned -/

/-- A sequence returns when each of its tasks does. -/
theorem bind_eq_ok {x : Task σ ε α} {f : α → Task σ ε β} {s : σ} {b : β} {s' : σ}
    (h : (x >>= f) s = (.ok b, s')) : ∃ a t, x s = (.ok a, t) ∧ f a t = (.ok b, s') := by
  change Task.bind x f s = _ at h
  unfold Task.bind at h
  revert h
  rcases x s with ⟨o, t⟩
  cases o with
  | ok a => exact fun h => ⟨a, t, rfl, h⟩
  | error e => exact fun h => by cases h
  | running => exact fun h => by cases h

theorem bind_of_ok {x : Task σ ε α} {f : α → Task σ ε β} {s t : σ} {a : α} (h : x s = (.ok a, t)) :
    (x >>= f) s = f a t := by
  change Task.bind x f s = _
  rw [Task.bind, h]

theorem bind_of_error {x : Task σ ε α} {f : α → Task σ ε β} {s t : σ} {e : ε}
    (h : x s = (.error e, t)) : (x >>= f) s = (.error e, t) := by
  change Task.bind x f s = _
  rw [Task.bind, h]

theorem tryCatch_of_ok {x : Task σ ε α} {handler : ε → Task σ ε α} {s t : σ} {a : α}
    (h : x s = (.ok a, t)) : tryCatch x handler s = (.ok a, t) := by
  rw [tryCatch, h]

theorem ofExcept_eq_ok {r : Except ε α} {s s' : σ} {a : α} (h : ofExcept r s = (.ok a, s')) :
    r = .ok a ∧ s = s' := by
  cases r with
  | ok a' =>
    cases h
    exact ⟨rfl, rfl⟩
  | error e => cases h

/-! ## Logs -/

/-- The task adds entries to its state, a log; `R` is between how it ends and what it adds. -/
def Logs {E : Type} (x : Task (List E) ε α) (R : Outcome ε α → List E → Prop) : Prop :=
  ∀ s, ∃ t, (x s).2 = s ++ t ∧ R (x s).1 t

namespace Logs

variable {E : Type} {x : Task (List E) ε α} {R Q : Outcome ε α → List E → Prop}

theorem of_same (h : ∀ s, (x s).2 = s) (hR : ∀ s, R (x s).1 []) : Logs x R :=
  fun s => ⟨[], (h s).trans (List.append_nil s).symm, hR s⟩

theorem conseq (h : Logs x R) (hQ : ∀ o t, R o t → Q o t) : Logs x Q :=
  fun s => (h s).imp fun t ht => ⟨ht.1, hQ _ t ht.2⟩

theorem and (h : Logs x R) (h' : Logs x Q) : Logs x fun o t => R o t ∧ Q o t := by
  intro s
  obtain ⟨t, ht, hR⟩ := h s
  obtain ⟨t', ht', hQ⟩ := h' s
  cases List.append_cancel_left (ht.symm.trans ht')
  exact ⟨t, ht, hR, hQ⟩

theorem pure {a : α} (h : R (.ok a) []) : Logs (Pure.pure a : Task (List E) ε α) R :=
  of_same (fun _ => rfl) fun _ => h

theorem throw {e : ε} (h : R (.error e) []) : Logs (throw e : Task (List E) ε α) R :=
  of_same (fun _ => rfl) fun _ => h

theorem forever (h : R .running []) : Logs (forever : Task (List E) ε α) R :=
  of_same (fun _ => rfl) fun _ => h

theorem ofExcept (r : Except ε α) :
    Logs (ofExcept r : Task (List E) ε α) fun o t => o = .ofExcept r ∧ t = [] := by
  cases r with
  | ok a => exact .pure ⟨rfl, rfl⟩
  | error e => exact .throw ⟨rfl, rfl⟩

/-- What is added by one task and then, if it returns, by the next. -/
theorem bind {f : α → Task (List E) ε β} {S : α → Outcome ε β → List E → Prop}
    {Q : Outcome ε β → List E → Prop} (hx : Logs x R) (hf : ∀ a, Logs (f a) (S a))
    (hok : ∀ a t o t', R (.ok a) t → S a o t' → Q o (t ++ t'))
    (herror : ∀ e t, R (.error e) t → Q (.error e) t)
    (hrunning : ∀ t, R .running t → Q .running t) : Logs (x >>= f) Q := by
  intro s
  obtain ⟨t, ht, hR⟩ := hx s
  change ∃ t, (Task.bind x f s).2 = s ++ t ∧ Q (Task.bind x f s).1 t
  unfold Task.bind
  revert ht hR
  rcases x s with ⟨o, s'⟩
  rintro rfl hR
  cases o with
  | ok a =>
    obtain ⟨t', ht', hS⟩ := hf a (s ++ t)
    exact ⟨t ++ t', ht'.trans (List.append_assoc s t t'), hok a t _ t' hR hS⟩
  | error e => exact ⟨t, rfl, herror e t hR⟩
  | running => exact ⟨t, rfl, hrunning t hR⟩

/-- What is added by a task and then, if it throws, by the handler. -/
theorem tryCatch {handler : ε → Task (List E) ε α} {S : ε → Outcome ε α → List E → Prop}
    (hx : Logs x R) (hhandler : ∀ e, Logs (handler e) (S e))
    (hok : ∀ a t, R (.ok a) t → Q (.ok a) t)
    (herror : ∀ e t o t', R (.error e) t → S e o t' → Q o (t ++ t'))
    (hrunning : ∀ t, R .running t → Q .running t) : Logs (tryCatch x handler) Q := by
  intro s
  obtain ⟨t, ht, hR⟩ := hx s
  unfold Task.tryCatch
  revert ht hR
  rcases x s with ⟨o, s'⟩
  rintro rfl hR
  cases o with
  | ok a => exact ⟨t, rfl, hok a t hR⟩
  | error e =>
    obtain ⟨t', ht', hS⟩ := hhandler e (s ++ t)
    exact ⟨t ++ t', ht'.trans (List.append_assoc s t t'), herror e t _ t' hR hS⟩
  | running => exact ⟨t, rfl, hrunning t hR⟩

end Logs

/-- The task only adds entries with `p` to its state, a log. -/
def AppendsAll {E : Type} (p : E → Prop) (x : Task (List E) ε α) : Prop :=
  Logs x fun _ t => ∀ e ∈ t, p e

namespace AppendsAll

variable {E : Type} {p : E → Prop} {x : Task (List E) ε α}

theorem of_same (h : ∀ s, (x s).2 = s) : AppendsAll p x :=
  Logs.of_same h fun _ _ he => nomatch he

theorem pure (a : α) : AppendsAll p (Pure.pure a : Task (List E) ε α) := of_same fun _ => rfl

theorem throw (e : ε) : AppendsAll p (throw e : Task (List E) ε α) := of_same fun _ => rfl

theorem forever : AppendsAll p (forever : Task (List E) ε α) := of_same fun _ => rfl

theorem ofExcept (r : Except ε α) : AppendsAll p (ofExcept r : Task (List E) ε α) := by
  cases r with
  | ok a => exact pure a
  | error e => exact throw e

theorem bind {f : α → Task (List E) ε β} (hx : AppendsAll p x) (hf : ∀ a, AppendsAll p (f a)) :
    AppendsAll p (x >>= f) :=
  Logs.bind hx hf (fun _ _ _ _ ht ht' => List.forall_mem_append.2 ⟨ht, ht'⟩)
    (fun _ _ ht => ht) fun _ ht => ht

theorem tryCatch {handler : ε → Task (List E) ε α} (hx : AppendsAll p x)
    (hhandler : ∀ e, AppendsAll p (handler e)) : AppendsAll p (tryCatch x handler) :=
  Logs.tryCatch hx hhandler (fun _ _ ht => ht)
    (fun _ _ _ _ ht ht' => List.forall_mem_append.2 ⟨ht, ht'⟩) fun _ ht => ht

theorem forM {A : Type} {f : A → Task (List E) ε Unit} (hf : ∀ a, AppendsAll p (f a)) :
    ∀ l : List A, AppendsAll p (l.forM f)
  | [] => pure ()
  | a :: l => bind (hf a) fun _ => forM hf l

end AppendsAll

/-- The task throws exactly when its log shows a failure. -/
def Shows {E : Type} (fails : E → Prop) (x : Task (List E) ε α) : Prop :=
  Logs x fun o t =>
    (∀ a, o = .ok a → ∀ e ∈ t, ¬ fails e) ∧ ∀ thrown, o = .error thrown → ∃ e ∈ t, fails e

namespace Shows

variable {E : Type} {fails : E → Prop} {x : Task (List E) ε α}

theorem pure (a : α) : Shows fails (Pure.pure a : Task (List E) ε α) :=
  Logs.pure ⟨fun _ _ => List.forall_mem_nil _, fun _ h => nomatch h⟩

theorem forever : Shows fails (forever : Task (List E) ε α) :=
  Logs.forever ⟨(fun _ h => nomatch h), fun _ h => nomatch h⟩

theorem bind {f : α → Task (List E) ε β} (hx : Shows fails x) (hf : ∀ a, Shows fails (f a)) :
    Shows fails (x >>= f) := by
  refine Logs.bind hx hf ?_ ?_ ?_
  · rintro a t o t' ⟨ht, -⟩ ⟨hok, herror⟩
    refine ⟨fun b hb => List.forall_mem_append.2 ⟨ht a rfl, hok b hb⟩, fun thrown h => ?_⟩
    obtain ⟨e, he, hfails⟩ := herror thrown h
    exact ⟨e, List.mem_append_right t he, hfails⟩
  · rintro e t ⟨-, herror⟩
    exact ⟨(fun _ h => nomatch h), fun _ _ => herror e rfl⟩
  · exact fun t _ => ⟨(fun _ h => nomatch h), fun _ h => nomatch h⟩

end Shows

/-- What the task returns is related to what it then has added. -/
def Gives {E : Type} (R : α → List E → Prop) (x : Task (List E) ε α) : Prop :=
  Logs x fun o t => ∀ a, o = .ok a → R a t

namespace Gives

variable {E : Type} {R : α → List E → Prop} {x : Task (List E) ε α}

theorem pure (a : α) : Gives (fun b t => b = a ∧ t = []) (Pure.pure a : Task (List E) ε α) :=
  Logs.pure fun _ ha => ⟨(Outcome.ok.inj ha).symm, rfl⟩

theorem conseq {Q : α → List E → Prop} (h : Gives R x) (hQ : ∀ a t, R a t → Q a t) : Gives Q x :=
  Logs.conseq h fun _ t hR a ha => hQ a t (hR a ha)

theorem bind {f : α → Task (List E) ε β} {S : α → β → List E → Prop} (hx : Gives R x)
    (hf : ∀ a, Gives (S a) (f a)) :
    Gives (fun b t => ∃ a t₁ t₂, R a t₁ ∧ S a b t₂ ∧ t = t₁ ++ t₂) (x >>= f) :=
  Logs.bind hx hf (fun a t _ t' hR hS b hb => ⟨a, t, t', hR a rfl, hS b hb, rfl⟩)
    (fun _ _ _ _ h => nomatch h) fun _ _ _ h => nomatch h

end Gives

/-- The task only adds to its state, a log. -/
def Appends {E : Type} (x : Task (List E) ε α) : Prop := ∀ s, ∃ t, (x s).2 = s ++ t

namespace Appends

variable {E : Type} {x : Task (List E) ε α}

theorem iff_all : Appends x ↔ AppendsAll (fun _ => True) x :=
  forall_congr' fun _ => exists_congr fun _ => (and_iff_left fun _ _ => trivial).symm

theorem pure (a : α) : Appends (Pure.pure a : Task (List E) ε α) := iff_all.2 (.pure a)

theorem throw (e : ε) : Appends (throw e : Task (List E) ε α) := iff_all.2 (.throw e)

theorem forever : Appends (forever : Task (List E) ε α) := iff_all.2 .forever

theorem ofExcept (r : Except ε α) : Appends (ofExcept r : Task (List E) ε α) :=
  iff_all.2 (.ofExcept r)

theorem bind {f : α → Task (List E) ε β} (hx : Appends x) (hf : ∀ a, Appends (f a)) :
    Appends (x >>= f) :=
  iff_all.2 ((iff_all.1 hx).bind fun a => iff_all.1 (hf a))

theorem tryCatch {handler : ε → Task (List E) ε α} (hx : Appends x)
    (hhandler : ∀ e, Appends (handler e)) : Appends (tryCatch x handler) :=
  iff_all.2 ((iff_all.1 hx).tryCatch fun e => iff_all.1 (hhandler e))

end Appends

end Task

end ComputeContract
