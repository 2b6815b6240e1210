import Mathlib.Logic.Relation
import Mathlib.Data.List.Nodup
import ComputeContract.Lib.Except

/-!
# Depth-first search

A search goes from a vertex to those next to it, and does not enter the vertices that it met before.
Where the neighbours of a vertex cannot be read, it throws; the fuel bounds its depth.

* `Grows`: what a search that succeeds adds to the vertices met before;
* `mem_search`: from nothing met, it meets the vertices that can be reached, and no others.
-/

namespace ComputeContract.Search

open Relation

variable {V ε : Type} [DecidableEq V] (overflow : ε) (next : V → Except ε (List V))

/-- The vertices met from a vertex, behind those met before. -/
def search : ℕ → List V → V → Except ε (List V)
  | 0, _, _ => .error overflow
  | fuel + 1, met, v =>
    if v ∈ met then .ok met
    else next v >>= List.foldlM (search fuel) (met ++ [v])

/-- `w` is next to `v`. -/
def IsNext (v w : V) : Prop := ∃ ws, next v = .ok ws ∧ w ∈ ws

/-- What the searches from some vertices add: they meet these and what can be reached from them,
    and leave no vertex that they met before its neighbours are met. -/
structure Grows (roots met met' : List V) : Prop where
  subset : met ⊆ met'
  started : roots ⊆ met'
  closed : ∀ v ∈ met', v ∉ met → ∀ w, IsNext next v w → w ∈ met'
  reached : ∀ w ∈ met', w ∈ met ∨ ∃ v ∈ roots, ReflTransGen (IsNext next) v w
  nodup : met.Nodup → met'.Nodup

variable {overflow next} {met met' : List V} {fuel : ℕ}

/-- The searches from several vertices, one after the other. -/
theorem grows_foldlM
    (hsearch : ∀ {met met'} v, search overflow next fuel met v = .ok met' → Grows next [v] met met')
    {roots : List V} (h : roots.foldlM (search overflow next fuel) met = .ok met') :
    Grows next roots met met' := by
  induction roots generalizing met with
  | nil =>
    cases h
    exact ⟨List.Subset.refl _, List.nil_subset _, fun v hv hnot => absurd hv hnot, fun _ => .inl,
      id⟩
  | cons v roots ih =>
    rw [List.foldlM_cons, bind_eq_ok] at h
    obtain ⟨met₁, hv, hrest⟩ := h
    have hfirst := hsearch v hv
    have hlast := ih hrest
    refine ⟨List.Subset.trans hfirst.subset hlast.subset, ?_, fun u hu hnot w hw => ?_,
      fun w hw => ?_, fun hnodup => hlast.nodup (hfirst.nodup hnodup)⟩
    · exact List.cons_subset.2 ⟨hlast.subset (hfirst.started List.mem_cons_self), hlast.started⟩
    · by_cases hmem : u ∈ met₁
      · exact hlast.subset (hfirst.closed u hmem hnot w hw)
      · exact hlast.closed u hu hmem w hw
    · rcases hlast.reached w hw with hmem | ⟨root, hroot, hpath⟩
      · refine (hfirst.reached w hmem).imp_right ?_
        rintro ⟨root, hroot, hpath⟩
        exact ⟨v, List.mem_cons_self, List.mem_singleton.1 hroot ▸ hpath⟩
      · exact .inr ⟨root, List.mem_cons_of_mem _ hroot, hpath⟩

theorem grows_search (v : V) (h : search overflow next fuel met v = .ok met') :
    Grows next [v] met met' := by
  induction fuel generalizing met met' v with
  | zero => cases h
  | succ fuel ih =>
    rw [search] at h
    split_ifs at h with hmet
    · cases h
      exact ⟨List.Subset.refl _, List.cons_subset.2 ⟨hmet, List.nil_subset _⟩,
        fun u hu hnot => absurd hu hnot, fun _ => .inl, id⟩
    · obtain ⟨ws, hws, hrest⟩ := bind_eq_ok.1 h
      have hgrows := grows_foldlM (fun w => ih w) hrest
      have hv : v ∈ met' := hgrows.subset (List.mem_append_right _ List.mem_cons_self)
      refine ⟨List.Subset.trans (List.subset_append_left _ _) hgrows.subset,
        List.cons_subset.2 ⟨hv, List.nil_subset _⟩, fun u hu hnot w hw => ?_, fun w hw => ?_,
        fun hnodup => ?_⟩
      · by_cases heq : u = v
        · -- The neighbours of the vertex itself are those that are entered.
          subst heq
          obtain ⟨ws', hws', hmem⟩ := hw
          obtain rfl : ws = ws' := Except.ok.inj (hws.symm.trans hws')
          exact hgrows.started hmem
        · refine hgrows.closed u hu (fun hmem => ?_) w hw
          rcases List.mem_append.1 hmem with hmem | hmem
          · exact hnot hmem
          · exact heq (List.mem_singleton.1 hmem)
      · rcases hgrows.reached w hw with hmem | ⟨root, hroot, hpath⟩
        · refine (List.mem_append.1 hmem).imp_right fun hmem => ?_
          exact ⟨v, List.mem_cons_self, List.mem_singleton.1 hmem ▸ .refl⟩
        · exact .inr ⟨v, List.mem_cons_self, .head ⟨ws, hws, hroot⟩ hpath⟩
      · refine hgrows.nodup (List.nodup_append.2 ⟨hnodup, List.nodup_singleton v, ?_⟩)
        rintro u hu _ hmem rfl
        exact hmet (List.mem_singleton.1 hmem ▸ hu)

/-- What is met from nothing is what can be reached. -/
theorem mem_search {roots : List V}
    (h : roots.foldlM (search overflow next fuel) [] = .ok met') (w : V) :
    w ∈ met' ↔ ∃ v ∈ roots, ReflTransGen (IsNext next) v w := by
  have hgrows := grows_foldlM (fun v => grows_search v) h
  constructor
  · exact fun hw => (hgrows.reached w hw).resolve_left List.not_mem_nil
  · rintro ⟨v, hv, hpath⟩
    induction hpath with
    | refl => exact hgrows.started hv
    | tail _ hstep ih => exact hgrows.closed _ ih List.not_mem_nil _ hstep

/-- Nothing is met twice. -/
theorem nodup_search {roots : List V}
    (h : roots.foldlM (search overflow next fuel) [] = .ok met') : met'.Nodup :=
  (grows_foldlM (fun v => grows_search v) h).nodup List.nodup_nil

end ComputeContract.Search
