import Mathlib.Data.List.MinMax
import Mathlib.Data.List.Basic
import Mathlib.Order.WithBot

/-!
# The first of the lowest

What a loop keeps that goes through a list and replaces the best so far by what is strictly
lower. The numbers that are compared may be no numbers: `⊤` is lower than nothing, and nothing is
lower than it (`Below`), so that one that comes first is kept.

* `lowest`: the loop, for any relation; `not_below_lowest`, `lowest_of_not_below`, `lowest_ne_top`.
* `lowestM`: the loop whose numbers may fail to be computed; `lowestM_eq_ok`.
* `exists_perm_filterMap`: what is left of a list in any order is left of the list in some order.
-/

namespace ComputeContract

/-! ## The loop -/

section
variable {α : Type*} (r : α → α → Prop) [DecidableRel r]

/-- The best of `a` and the elements of `l`, where `r b a` says that `b` is lower. -/
def lowest (a : α) (l : List α) : α := l.foldl (fun best b => if r b best then b else best) a

variable {r} {a : α} {l : List α}

theorem lowest_cons (a b : α) (l : List α) :
    lowest r a (b :: l) = lowest r (if r b a then b else a) l := rfl

theorem foldl_argAux_some (a : α) (l : List α) :
    l.foldl (List.argAux r) (some a) = some (lowest r a l) := by
  induction l generalizing a with
  | nil => rfl
  | cons b l ih =>
    rw [lowest_cons, List.foldl_cons, List.argAux]
    by_cases h : r b a
    · rw [if_pos h]
      dsimp only
      rw [if_pos h, ih]
    · rw [if_neg h]
      dsimp only
      rw [if_neg h, ih]

theorem lowest_mem (a : α) (l : List α) : lowest r a l ∈ a :: l := by
  induction l generalizing a with
  | nil => exact List.mem_cons_self
  | cons b l ih =>
    rw [lowest_cons]
    split
    · exact List.mem_cons_of_mem _ (ih b)
    · rcases List.mem_cons.1 (ih a) with h | h
      · rw [h]
        exact List.mem_cons_self
      · exact List.mem_cons_of_mem _ (List.mem_cons_of_mem _ h)

/-- What nothing is lower than is kept. -/
theorem lowest_of_not (h : ∀ b ∈ l, ¬ r b a) : lowest r a l = a := by
  induction l with
  | nil => rfl
  | cons b l ih =>
    rw [lowest_cons, if_neg (h b List.mem_cons_self)]
    exact ih fun b hb => h b (List.mem_cons_of_mem _ hb)

/-- What is lower than the first, and nothing is lower than, is kept. -/
theorem lowest_of_second {b : α} (hab : r b a) (h : ∀ c ∈ l, ¬ r c b) :
    lowest r a (b :: l) = b := by
  rw [lowest_cons, if_pos hab]
  exact lowest_of_not h

end

/-! ## Numbers -/

section
variable {α N : Type*} [LinearOrder N]

/-- `<`, of numbers that may be no numbers. -/
def Below (x y : WithTop N) : Prop := x < y ∧ y ≠ ⊤

instance : DecidableRel (Below (N := N)) := fun x y => inferInstanceAs (Decidable (x < y ∧ y ≠ ⊤))

theorem Below.ne_top {x y : WithTop N} (h : Below x y) : x ≠ ⊤ := (h.1.trans_le le_top).ne

theorem Below.trans {x y z : WithTop N} (hxy : Below x y) (hyz : Below y z) : Below x z :=
  ⟨hxy.1.trans hyz.1, hyz.2⟩

theorem le_of_not_below {x y : WithTop N} (h : ¬ Below y x) (hx : x ≠ ⊤) : x ≤ y :=
  le_of_not_gt fun hlt => h ⟨hlt, hx⟩

/-- Two numbers of which neither is lower. -/
theorem eq_of_not_below {x y : WithTop N} (hxy : ¬ Below x y) (hyx : ¬ Below y x)
    (htop : x = ⊤ ↔ y = ⊤) : x = y := by
  by_cases hx : x = ⊤
  · rw [hx, htop.1 hx]
  · exact (le_of_not_below hyx hx).antisymm (le_of_not_below hxy (mt htop.2 hx))

variable (f : α → WithTop N)

/-- The first of those with the lowest number. -/
def lowestBy (a : α) (l : List α) : α := lowest (fun b a => Below (f b) (f a)) a l

variable {f} {a : α} {l : List α}

theorem lowestBy_cons (a b : α) (l : List α) :
    lowestBy f a (b :: l) = lowestBy f (if Below (f b) (f a) then b else a) l := rfl

/-- The first may be gone through again. -/
theorem lowestBy_self (a : α) (l : List α) : lowestBy f a (a :: l) = lowestBy f a l := by
  rw [lowestBy_cons, ite_self]

theorem lowestBy_mem (a : α) (l : List α) : lowestBy f a l ∈ a :: l := lowest_mem a l

theorem not_below_lowestBy {b : α} (hb : b ∈ l) : ¬ Below (f b) (f (lowestBy f a l)) :=
  List.not_of_mem_foldl_argAux (fun b a => Below (f b) (f a)) ⟨fun _ h => lt_irrefl _ h.1⟩
    ⟨fun _ _ _ hab hbc => hab.trans hbc⟩ hb (foldl_argAux_some a l)

/-- After a number comes a number. -/
theorem lowestBy_ne_top (ha : f a ≠ ⊤) : f (lowestBy f a l) ≠ ⊤ := by
  induction l generalizing a with
  | nil => exact ha
  | cons b l ih =>
    rw [lowestBy_cons]
    split
    · next hba => exact ih hba.ne_top
    · exact ih ha

theorem lowestBy_map {β : Type*} (g : β → α) (b : β) (l : List β) :
    lowestBy f (g b) (l.map g) = g (lowestBy (fun b => f (g b)) b l) := by
  induction l generalizing b with
  | nil => rfl
  | cons b' l ih =>
    rw [List.map_cons, lowestBy_cons, lowestBy_cons]
    split
    · exact ih b'
    · exact ih b

theorem lowestBy_of_top (ha : f a = ⊤) : lowestBy f a l = a :=
  lowest_of_not fun _ _ h => h.2 ha

/-- The lowest is no number when the first is none. -/
theorem lowestBy_eq_top_iff : f (lowestBy f a l) = ⊤ ↔ f a = ⊤ := by
  refine ⟨fun htop => ?_, fun htop => by rw [lowestBy_of_top htop, htop]⟩
  by_contra hne
  exact lowestBy_ne_top hne htop

end

/-! ## Numbers that may fail -/

section
variable {ε α N : Type} [LinearOrder N]

/-- The comparison of two numbers, the second of which is computed last. -/
def belowM (number : α → Except ε (WithTop N)) (b a : α) : Except ε Bool := do
  let x ← number b
  let y ← number a
  return decide (Below x y)

/-- One turn of the loop. -/
def lowerM (lt : α → α → Except ε Bool) (best b : α) : Except ε α := do
  if ← lt b best then return b else return best

/-- What was computed, if it was. -/
def valueOf (x : Except ε (WithTop N)) : WithTop N :=
  match x with
  | .ok v => v
  | .error _ => ⊤

variable {number : α → Except ε (WithTop N)}

theorem lowerM_eq {a b : α} (ha : (number a).isOk) (hb : (number b).isOk) :
    lowerM (belowM number) a b
      = .ok (if Below (valueOf (number b)) (valueOf (number a)) then b else a) := by
  rw [lowerM, belowM]
  cases hx : number b with
  | error e => rw [hx] at hb; cases hb
  | ok x =>
    cases hy : number a with
    | error e => rw [hy] at ha; cases ha
    | ok y =>
      change (if decide (Below x y) = true then Except.ok b else Except.ok a) = _
      by_cases h : Below x y
      · rw [if_pos (decide_eq_true h)]
        exact congrArg _ (if_pos h).symm
      · rw [if_neg (by rw [decide_eq_true_iff]; exact h)]
        exact congrArg _ (if_neg h).symm

/-- The loop ends when all the numbers are computed. -/
theorem foldlM_lowerM {a : α} {l : List α} (ha : (number a).isOk) (hl : ∀ b ∈ l, (number b).isOk) :
    l.foldlM (lowerM (belowM number)) a = .ok (lowestBy (fun b => valueOf (number b)) a l) := by
  induction l generalizing a with
  | nil => rfl
  | cons b l ih =>
    have hb := hl b List.mem_cons_self
    have hl' := fun c hc => hl c (List.mem_cons_of_mem _ hc)
    rw [List.foldlM_cons, lowerM_eq ha hb, lowestBy_cons]
    change List.foldlM _ _ l = _
    split
    · exact ih hb hl'
    · exact ih ha hl'

theorem isOk_of_foldlM_lowerM {a best : α} {l : List α}
    (h : l.foldlM (lowerM (belowM number)) a = .ok best) : ∀ b ∈ l, (number b).isOk := by
  induction l generalizing a with
  | nil => exact fun _ hb => by cases hb
  | cons b l ih =>
    rw [List.foldlM_cons] at h
    intro c hc
    cases hb : number b with
    | error e =>
      rw [lowerM, belowM, hb] at h
      cases h
    | ok x =>
      rcases List.mem_cons.1 hc with rfl | hc
      · rw [hb]; rfl
      · cases hnext : lowerM (belowM number) a b with
        | error e => rw [hnext] at h; cases h
        | ok next => rw [hnext] at h; exact ih h c hc

end

/-! ## Orders -/

/-- An element may come first. -/
theorem exists_cons_perm {α : Type*} {a : α} {l : List α} (h : a ∈ l) :
    ∃ rest : List α, (a :: rest).Perm l := by
  obtain ⟨s, t, rfl⟩ := List.append_of_mem h
  exact ⟨s ++ t, List.perm_middle.symm⟩

/-- What is left of a list, in any order, is left of the list in some order. -/
theorem exists_perm_filterMap {α β : Type*} {f : α → Option β} {l : List α} {l' : List β}
    (h : l'.Perm (l.filterMap f)) : ∃ order : List α, order.Perm l ∧ order.filterMap f = l' := by
  induction l' generalizing l with
  | nil => exact ⟨l, .rfl, (List.nil_perm.1 h)⟩
  | cons b l' ih =>
    obtain ⟨a, ha, hab⟩ := List.mem_filterMap.1 (h.subset List.mem_cons_self)
    obtain ⟨s, t, rfl⟩ := List.append_of_mem ha
    have hst : l'.Perm ((s ++ t).filterMap f) := by
      rw [List.filterMap_append, List.filterMap_cons_some hab] at h
      rw [List.filterMap_append]
      exact (h.trans List.perm_middle).cons_inv
    obtain ⟨order, horder, hfilter⟩ := ih hst
    refine ⟨a :: order, (horder.cons a).trans List.perm_middle.symm, ?_⟩
    rw [List.filterMap_cons_some hab, hfilter]

end ComputeContract
