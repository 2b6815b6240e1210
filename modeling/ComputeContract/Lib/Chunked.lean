import Mathlib.Data.List.Basic
import Mathlib.Order.Basic
import Mathlib.Algebra.Order.Group.Nat

/-!
# Readers that do not see where their input is cut

A reader takes its input in chunks: from a state and a chunk it gives what it has read so far
and the state to go on from. It does not matter where the input is cut when reading two chunks
one after the other is reading them at once.

* `scan`: a reader that takes one item at a time;
* `withRest`: a reader that keeps what it could not use yet and puts the next chunk behind it;
* `andThen`: a reader of what another one has read;
* `Chunked`: it does not matter where the input is cut, for each of these.
-/

namespace ComputeContract.Chunks

variable {σ τ ι μ ο : Type}

/-- Reading a chunk. -/
abbrev Reader (σ ι ο : Type) := σ → List ι → List ο × σ

/-- Two chunks are read as one. -/
def Chunked (feed : Reader σ ι ο) : Prop := ∀ s xs ys, feed s (xs ++ ys) =
  ((feed s xs).1 ++ (feed (feed s xs).2 ys).1, (feed (feed s xs).2 ys).2)

def scan (step : σ → ι → List ο × σ) : Reader σ ι ο
  | s, [] => ([], s)
  | s, x :: xs => ((step s x).1 ++ (scan step (step s x).2 xs).1, (scan step (step s x).2 xs).2)

theorem chunked_scan (step : σ → ι → List ο × σ) : Chunked (scan step) := by
  intro s xs ys
  induction xs generalizing s with
  | nil => rfl
  | cons x xs ih => rw [List.cons_append, scan, scan, ih, List.append_assoc]

def andThen (f : Reader σ ι μ) (g : Reader τ μ ο) : Reader (σ × τ) ι ο := fun s xs =>
  let r := f s.1 xs
  let out := g s.2 r.1
  (out.1, (r.2, out.2))

theorem Chunked.andThen {f : Reader σ ι μ} {g : Reader τ μ ο} (hf : Chunked f) (hg : Chunked g) :
    Chunked (andThen f g) := by
  intro s xs ys
  change (let r := f s.1 (xs ++ ys); let out := g s.2 r.1; (out.1, (r.2, out.2))) = _
  rw [hf]
  dsimp only
  rw [hg]
  rfl

/-! ## What is left for the next chunk -/

section
variable (cut : List ι → Option (ο × List ι))

/-- Take from the input as often as it can be done, at most so many times. -/
def drainFuel : ℕ → List ι → List ο × List ι
  | 0, xs => ([], xs)
  | n + 1, xs =>
    match cut xs with
    | none => ([], xs)
    | some (x, rest) => (x :: (drainFuel n rest).1, (drainFuel n rest).2)

/-- Take from the input as often as it can be done. -/
def drain (xs : List ι) : List ο × List ι := drainFuel cut xs.length xs

/-- A reader that keeps what is left. -/
def withRest : Reader (List ι) ι ο := fun rest xs => drain cut (rest ++ xs)

end

variable {cut : List ι → Option (ο × List ι)}

/-- What is taken from an input makes it shorter, and is taken whatever follows it. -/
structure Cuts (cut : List ι → Option (ο × List ι)) : Prop where
  length_lt : ∀ {xs x rest}, cut xs = some (x, rest) → rest.length < xs.length
  append : ∀ {xs x rest}, cut xs = some (x, rest) → ∀ ys, cut (xs ++ ys) = some (x, rest ++ ys)

theorem drainFuel_eq (h : Cuts cut) {n : ℕ} {xs : List ι} (hn : xs.length ≤ n) :
    drainFuel cut n xs = drain cut xs := by
  suffices hsame : ∀ n m : ℕ, ∀ xs : List ι, xs.length ≤ n → xs.length ≤ m →
      drainFuel cut n xs = drainFuel cut m xs from hsame n xs.length xs hn le_rfl
  intro n
  induction n with
  | zero =>
    intro m xs hn hm
    cases m with
    | zero => rfl
    | succ m =>
      obtain rfl := List.eq_nil_of_length_eq_zero (Nat.le_zero.1 hn)
      rw [drainFuel, drainFuel]
      cases hcut : cut [] with
      | none => rfl
      | some p => exact absurd (h.length_lt hcut) (Nat.not_lt_zero _)
  | succ n ih =>
    intro m xs hn hm
    cases hcut : cut xs with
    | none =>
      cases m with
      | zero => rw [drainFuel, drainFuel, hcut]
      | succ m => rw [drainFuel, drainFuel, hcut]
    | some p =>
      have hlt := h.length_lt hcut
      cases m with
      | zero => omega
      | succ m =>
        rw [drainFuel, drainFuel, hcut]
        dsimp only
        rw [ih m p.2 (by omega) (by omega)]

/-- One item is taken, and then the others. -/
theorem drain_of_cut (h : Cuts cut) {xs rest : List ι} {x : ο} (hcut : cut xs = some (x, rest)) :
    drain cut xs = (x :: (drain cut rest).1, (drain cut rest).2) := by
  have hlt := h.length_lt hcut
  rw [← drainFuel_eq h (Nat.le_succ xs.length), drainFuel, hcut]
  dsimp only
  rw [drainFuel_eq h (Nat.le_of_lt hlt)]

theorem drain_of_none {xs : List ι} (hcut : cut xs = none) : drain cut xs = ([], xs) := by
  rw [drain]
  cases xs.length with
  | zero => rfl
  | succ n => rw [drainFuel, hcut]

theorem chunked_withRest (h : Cuts cut) : Chunked (withRest cut) := by
  intro s xs ys
  rw [withRest, withRest, withRest, ← List.append_assoc]
  generalize s ++ xs = zs
  induction hn : zs.length using Nat.strongRecOn generalizing zs with
  | _ n ih =>
    subst hn
    cases hcut : cut zs with
    | none => rw [drain_of_none hcut, List.nil_append]
    | some p =>
      obtain ⟨x, rest⟩ := p
      rw [drain_of_cut h hcut, drain_of_cut h (h.append hcut ys),
        ih rest.length (h.length_lt hcut) rest rfl, List.cons_append]

end ComputeContract.Chunks
