import Mathlib.Data.List.Perm.Basic
import ComputeContract.Provider.Droplets

/-!
# Containers of droplets

Every container that runs is registered for its creator, and none is left of a droplet that was
deleted, as long as no droplet is deleted before its container was started, `docker` removes what
it is asked to, and the provisioning data can be created.

* `Inv`: how registry, containers and steps belong together;
* `registered_of_careful`: the property of runs.
-/

namespace ComputeContract.Droplets

open AssocList

/-! ## The registry -/

section
variable {registry : Registry} {actx actx' id : String}

theorem dropletsOf_set (droplets : List (String × Droplet)) :
    dropletsOf (set actx droplets registry) actx' =
      if actx' = actx then droplets else dropletsOf registry actx' := by
  rw [dropletsOf, lookup_set]
  split_ifs <;> rfl

theorem mem_killAllIds (h : id ∈ keys (dropletsOf registry actx)) : id ∈ killAllIds registry := by
  unfold dropletsOf at h
  cases hlookup : registry.lookup actx with
  | none =>
    rw [hlookup] at h
    cases h
  | some droplets =>
    rw [hlookup] at h
    exact List.mem_flatMap.2 ⟨_, mem_of_lookup hlookup, h⟩

theorem keys_update (f : Droplet → Droplet) :
    keys (dropletsOf (update registry actx id f) actx') = keys (dropletsOf registry actx') := by
  unfold update
  split
  · rfl
  · next droplet hlookup =>
    rw [dropletsOf_set]
    split_ifs with hactx
    · rw [hactx]
      exact keys_set_of_mem _ (lookup_isSome_iff.1 (Option.isSome_of_eq_some hlookup))
    · rfl

theorem mem_update {f : Droplet → Droplet} {e : String × Droplet}
    (h : e ∈ dropletsOf (update registry actx id f) actx') :
    e ∈ dropletsOf registry actx' ∨
      actx' = actx ∧ ∃ droplet, (id, droplet) ∈ dropletsOf registry actx ∧ e = (id, f droplet) := by
  unfold update at h
  split at h
  · exact .inl h
  · next droplet hlookup =>
    rw [dropletsOf_set] at h
    split_ifs at h with hactx
    · rcases mem_set h with heq | h
      · exact .inr ⟨hactx, droplet, mem_of_lookup hlookup, heq⟩
      · exact .inl (hactx ▸ h)
    · exact .inl h

end

/-! ## The invariant -/

/-- The droplet of a step is its caller's; it is registered before its container is started, and
    is not while it is deleted. -/
structure Holds (registry : Registry) (log : List Effect) (p : Pending) : Prop where
  created : .created p.id p.actx ∈ log
  starts : p.starts → p.id ∈ keys (dropletsOf registry p.actx)
  deletes : p.deletes → p.id ∉ keys (dropletsOf registry p.actx)

structure Inv (s : State) : Prop where
  unique : ∀ id actx actx', .created id actx ∈ s.log → .created id actx' ∈ s.log → actx = actx'
  entries : ∀ actx, ∀ e ∈ dropletsOf s.registry actx, e.2.id = e.1 ∧ .created e.1 actx ∈ s.log
  holds : ∀ p ∈ s.pending, Holds s.registry s.log p
  running : ∀ id ∈ s.running, ∃ actx, .created id actx ∈ s.log ∧
    (id ∈ keys (dropletsOf s.registry actx) ∨ ∃ p ∈ s.pending, p.deletes ∧ p.id = id)
  gone : ∀ actx made id, .replied actx made (.noContent id) ∈ s.log →
    .created id actx ∈ s.log ∧ id ∉ keys (dropletsOf s.registry actx) ∧ id ∉ s.running
  shown : ∀ actx made reply, .replied actx made reply ∈ s.log →
    ∀ droplet ∈ reply.shown, .created droplet.id actx ∈ s.log
  failed : ∀ actx made reply, .replied actx made reply ∈ s.log → reply.isError → made = none

theorem inv_start : Inv start := ⟨nofun, nofun, nofun, nofun, nofun, nofun, nofun⟩

theorem Inv.created_of_mem {s : State} (h : Inv s) {actx id : String}
    (hmem : id ∈ keys (dropletsOf s.registry actx)) : .created id actx ∈ s.log := by
  obtain ⟨droplet, hmem⟩ := mem_keys.1 hmem
  exact (h.entries actx _ hmem).2

theorem Inv.registered {s : State} (h : Inv s) : Registered s where
  deleted actx made id hmem _ := (h.gone actx made id hmem).2.2
  registered id hid hnot := by
    obtain ⟨actx, hcreated, hmem | ⟨p, hp, hdeletes, hpid⟩⟩ := h.running id hid
    · refine ⟨actx, hcreated, mem_killAllIds hmem, fun actx' => ⟨fun hmem' => ?_, ?_⟩⟩
      · exact h.unique id _ _ (h.created_of_mem hmem') hcreated
      · rintro rfl
        exact hmem
    · exact absurd hpid (hnot p hp hdeletes)
  shown := h.shown
  own actx made id hmem := (h.gone actx made id hmem).1
  failed actx made reply hmem herror id hid := by
    rw [h.failed actx made reply hmem herror] at hid
    cases hid

section
variable {registry : Registry} {running : List String} {pending : List Pending}
  {log : List Effect} {p q : Pending} {actx id : String}

/-! ## Steps -/

theorem Inv.perm {pending' : List Pending} (h : Inv ⟨registry, running, pending, log⟩)
    (hperm : pending'.Perm pending) : Inv ⟨registry, running, pending', log⟩ :=
  { h with
    holds := fun p hp => h.holds p (hperm.mem_iff.1 hp)
    running := fun id hid => by
      obtain ⟨actx, hcreated, hmem | ⟨p, hp, hrest⟩⟩ := h.running id hid
      · exact ⟨actx, hcreated, .inl hmem⟩
      · exact ⟨actx, hcreated, .inr ⟨p, hperm.mem_iff.2 hp, hrest⟩⟩ }

/-- A step ends that deletes nothing. -/
theorem Inv.rest (h : Inv ⟨registry, running, p :: pending, log⟩) (hp : p.deletes = false) :
    Inv ⟨registry, running, pending, log⟩ :=
  { h with
    holds := fun q hq => h.holds q (List.mem_cons_of_mem _ hq)
    running := fun id hid => by
      obtain ⟨actx, hcreated, hmem | ⟨q, hq, hdeletes, hqid⟩⟩ := h.running id hid
      · exact ⟨actx, hcreated, .inl hmem⟩
      · rcases List.mem_cons.1 hq with rfl | hq
        · cases hp.symm.trans hdeletes
        · exact ⟨actx, hcreated, .inr ⟨q, hq, hdeletes, hqid⟩⟩ }

theorem Inv.add (h : Inv ⟨registry, running, pending, log⟩) (hq : Holds registry log q) :
    Inv ⟨registry, running, q :: pending, log⟩ :=
  { h with
    holds := List.forall_mem_cons.2 ⟨hq, h.holds⟩
    running := fun id hid => by
      obtain ⟨actx, hcreated, hmem | ⟨q, hq, hrest⟩⟩ := h.running id hid
      · exact ⟨actx, hcreated, .inl hmem⟩
      · exact ⟨actx, hcreated, .inr ⟨q, List.mem_cons_of_mem _ hq, hrest⟩⟩ }

/-- A deletion goes on. -/
theorem Inv.goOn (h : Inv ⟨registry, running, .kill actx id :: pending, log⟩) :
    Inv ⟨registry, running, .remove actx id :: pending, log⟩ :=
  { h with
    holds := List.forall_mem_cons.2 ⟨⟨(h.holds _ List.mem_cons_self).created, nofun,
      (h.holds _ List.mem_cons_self).deletes⟩, fun q hq => h.holds q (List.mem_cons_of_mem _ hq)⟩
    running := fun id' hid => by
      obtain ⟨actx', hcreated, hmem | ⟨q, hq, hdeletes, hqid⟩⟩ := h.running id' hid
      · exact ⟨actx', hcreated, .inl hmem⟩
      · rcases List.mem_cons.1 hq with rfl | hq
        · exact ⟨actx', hcreated, .inr ⟨_, List.mem_cons_self, rfl, hqid⟩⟩
        · exact ⟨actx', hcreated, .inr ⟨q, List.mem_cons_of_mem _ hq, hdeletes, hqid⟩⟩ }

/-- A reply that ends no deletion. -/
theorem Inv.reply (h : Inv ⟨registry, running, pending, log⟩) {made : Option String} {r : Reply}
    (hr : ∀ id, r ≠ .noContent id) (hshown : ∀ d ∈ r.shown, .created d.id actx ∈ log)
    (herror : r.isError → made = none) :
    Inv ⟨registry, running, pending, log ++ [.replied actx made r]⟩ := by
  have hcreated {id actx'} : .created id actx' ∈ log ++ [.replied actx made r] ↔
      .created id actx' ∈ log := by
    simp
  have hreplied {actx' made' r'} (hmem : .replied actx' made' r' ∈ log ++ [.replied actx made r]) :
      .replied actx' made' r' ∈ log ∨ actx' = actx ∧ made' = made ∧ r' = r := by
    simpa using hmem
  refine ⟨by simpa only [hcreated] using h.unique, by simpa only [hcreated] using h.entries,
    fun p hp => ?_, by simpa only [hcreated] using h.running, ?_, ?_, ?_⟩
  · obtain ⟨hold, hstarts, hdeletes⟩ := h.holds p hp
    exact ⟨hcreated.2 hold, hstarts, hdeletes⟩
  · intro actx' made' id hmem
    rcases hreplied hmem with hmem | ⟨-, -, heq⟩
    · simpa only [hcreated] using h.gone actx' made' id hmem
    · exact absurd heq.symm (hr id)
  · intro actx' made' r' hmem d hd
    rcases hreplied hmem with hmem | ⟨rfl, -, rfl⟩
    · exact hcreated.2 (h.shown actx' made' r' hmem d hd)
    · exact hcreated.2 (hshown d hd)
  · intro actx' made' r' hmem her
    rcases hreplied hmem with hmem | ⟨-, rfl, rfl⟩
    · exact h.failed actx' made' r' hmem her
    · exact herror her

/-- A droplet changes, and stays where it is. -/
theorem Inv.change (h : Inv ⟨registry, running, pending, log⟩) {f : Droplet → Droplet}
    (hf : ∀ d, (f d).id = d.id) : Inv ⟨update registry actx id f, running, pending, log⟩ where
  unique := h.unique
  entries actx' e he := by
    rcases mem_update he with he | ⟨rfl, droplet, hmem, rfl⟩
    · exact h.entries actx' e he
    · exact ⟨(hf droplet).trans (h.entries _ _ hmem).1, (h.entries _ _ hmem).2⟩
  holds p hp := by
    obtain ⟨hcreated, hstarts, hdeletes⟩ := h.holds p hp
    refine ⟨hcreated, ?_, ?_⟩
    · rwa [keys_update]
    · rwa [keys_update]
  running := by simpa only [keys_update] using h.running
  gone := by simpa only [keys_update] using h.gone
  shown := h.shown
  failed := h.failed

theorem mem_keys_post {droplet : Droplet} {actx' id' : String} :
    id' ∈ keys (dropletsOf (set actx (set id droplet (dropletsOf registry actx)) registry) actx') ↔
      id' ∈ keys (dropletsOf registry actx') ∨ actx' = actx ∧ id' = id := by
  rw [dropletsOf_set]
  split_ifs with hactx
  · subst hactx
    by_cases hmem : id ∈ keys (dropletsOf registry actx')
    · rw [keys_set_of_mem droplet hmem]
      exact (or_iff_left_of_imp fun heq => heq.2 ▸ hmem).symm
    · rw [keys_set_of_not_mem droplet hmem]
      simp
  · simp [hactx]

/-- A droplet is registered, under a new id. -/
theorem Inv.post (h : Inv ⟨registry, running, pending, log⟩) {droplet : Droplet}
    (hid : droplet.id = id) (hnew : ∀ actx', .created id actx' ∉ log) :
    Inv ⟨set actx (set id droplet (dropletsOf registry actx)) registry, running,
      .provisioningData actx droplet :: pending, log ++ [.created id actx]⟩ := by
  have hold {actx' id'} (hmem : .created id' actx' ∈ log) : ¬ (actx' = actx ∧ id' = id) :=
    fun heq => hnew actx' (heq.2 ▸ hmem)
  have hcreated {actx' id'} : .created id' actx' ∈ log ++ [.created id actx] ↔
      .created id' actx' ∈ log ∨ id' = id ∧ actx' = actx := by
    simp
  have hreplied {actx' made r} : .replied actx' made r ∈ log ++ [.created id actx] ↔
      .replied actx' made r ∈ log := by
    simp
  refine ⟨?_, ?_, ?_, ?_, ?_, ?_, ?_⟩
  · intro id' actx₁ actx₂ h₁ h₂
    rcases hcreated.1 h₁ with hold₁ | ⟨heq₁, hactx₁⟩ <;>
      rcases hcreated.1 h₂ with hold₂ | ⟨heq₂, hactx₂⟩
    · exact h.unique id' _ _ hold₁ hold₂
    · exact absurd (heq₂ ▸ hold₁) (hnew actx₁)
    · exact absurd (heq₁ ▸ hold₂) (hnew actx₂)
    · exact hactx₁.trans hactx₂.symm
  · intro actx' e he
    simp only [dropletsOf_set] at he
    split_ifs at he with hactx
    · rcases mem_set he with rfl | he
      · exact ⟨hid, hcreated.2 (.inr ⟨rfl, hactx⟩)⟩
      · subst hactx
        exact (h.entries _ e he).imp_right fun hmem => hcreated.2 (.inl hmem)
    · exact (h.entries _ e he).imp_right fun hmem => hcreated.2 (.inl hmem)
  · refine List.forall_mem_cons.2 ⟨⟨hcreated.2 (.inr ⟨hid, rfl⟩),
      fun _ => mem_keys_post.2 (.inr ⟨rfl, hid⟩), nofun⟩, fun p hp => ?_⟩
    obtain ⟨hmem, hstarts, hdeletes⟩ := h.holds p hp
    refine ⟨hcreated.2 (.inl hmem), fun hs => mem_keys_post.2 (.inl (hstarts hs)), fun hd hkey => ?_⟩
    exact (mem_keys_post.1 hkey).elim (hdeletes hd) (hold hmem)
  · intro id' hrun
    obtain ⟨actx', hmem, hentry | ⟨p, hp, hrest⟩⟩ := h.running id' hrun
    · exact ⟨actx', hcreated.2 (.inl hmem), .inl (mem_keys_post.2 (.inl hentry))⟩
    · exact ⟨actx', hcreated.2 (.inl hmem), .inr ⟨p, List.mem_cons_of_mem _ hp, hrest⟩⟩
  · intro actx' made id' hmem
    obtain ⟨hmem, hnot, hrun⟩ := h.gone actx' made id' (hreplied.1 hmem)
    exact ⟨hcreated.2 (.inl hmem), fun hkey => (mem_keys_post.1 hkey).elim hnot (hold hmem), hrun⟩
  · intro actx' made r hmem d hd
    exact hcreated.2 (.inl (h.shown actx' made r (hreplied.1 hmem) d hd))
  · intro actx' made r hmem herror
    exact h.failed actx' made r (hreplied.1 hmem) herror

theorem mem_keys_delete {actx' id' : String} :
    id' ∈ keys (dropletsOf (set actx (erase id (dropletsOf registry actx)) registry) actx') ↔
      id' ∈ keys (dropletsOf registry actx') ∧ ¬ (actx' = actx ∧ id' = id) := by
  rw [dropletsOf_set]
  split_ifs with hactx
  · subst hactx
    rw [← lookup_isSome_iff, lookup_erase]
    split_ifs with heq
    · simp [heq]
    · rw [lookup_isSome_iff]
      simp [heq]
  · simp [hactx]

/-- A droplet is taken out of the registry, and is not being started. -/
theorem Inv.delete (h : Inv ⟨registry, running, pending, log⟩)
    (hmem : id ∈ keys (dropletsOf registry actx))
    (hstarts : ∀ p ∈ pending, p.starts → p.id ≠ id) :
    Inv ⟨set actx (erase id (dropletsOf registry actx)) registry, running,
      .kill actx id :: pending, log⟩ := by
  have hcreated : .created id actx ∈ log := h.created_of_mem hmem
  refine ⟨h.unique, ?_, ?_, ?_, ?_, h.shown, h.failed⟩
  · intro actx' e he
    simp only [dropletsOf_set] at he
    split_ifs at he with hactx
    · exact h.entries actx' e (hactx ▸ mem_of_mem_erase he)
    · exact h.entries actx' e he
  · refine List.forall_mem_cons.2 ⟨⟨hcreated, nofun, fun _ hkey => ?_⟩, fun p hp => ?_⟩
    · exact (mem_keys_delete.1 hkey).2 ⟨rfl, rfl⟩
    · obtain ⟨hold, hs, hd⟩ := h.holds p hp
      exact ⟨hold, fun hst => mem_keys_delete.2 ⟨hs hst, fun heq => hstarts p hp hst heq.2⟩,
        fun hdel hkey => hd hdel (mem_keys_delete.1 hkey).1⟩
  · intro id' hrun
    obtain ⟨actx', hold, hentry | ⟨p, hp, hrest⟩⟩ := h.running id' hrun
    · by_cases heq : actx' = actx ∧ id' = id
      · exact ⟨actx', hold, .inr ⟨_, List.mem_cons_self, rfl, heq.2.symm⟩⟩
      · exact ⟨actx', hold, .inl (mem_keys_delete.2 ⟨hentry, heq⟩)⟩
    · exact ⟨actx', hold, .inr ⟨p, List.mem_cons_of_mem _ hp, hrest⟩⟩
  · intro actx' made id' hreply
    obtain ⟨hold, hnot, hrun⟩ := h.gone actx' made id' hreply
    exact ⟨hold, fun hkey => hnot (mem_keys_delete.1 hkey).1, hrun⟩

/-- The container of a registered droplet is started. -/
theorem Inv.run (h : Inv ⟨registry, running, .run actx id :: pending, log⟩) :
    Inv ⟨registry, id :: running, .inspect actx id :: pending, log⟩ := by
  obtain ⟨hcreated, hentry, -⟩ := h.holds _ List.mem_cons_self
  have hrest := (h.rest rfl).add (q := .inspect actx id) ⟨hcreated, nofun, nofun⟩
  refine { hrest with running := List.forall_mem_cons.2 ⟨?_, hrest.running⟩, gone := ?_ }
  · exact ⟨actx, hcreated, .inl (hentry rfl)⟩
  · intro actx' made id' hreply
    obtain ⟨hold, hnot, hrun⟩ := h.gone actx' made id' hreply
    refine ⟨hold, hnot, fun hmem => ?_⟩
    rcases List.mem_cons.1 hmem with rfl | hmem
    · exact hnot (h.unique _ _ _ hcreated hold ▸ hentry rfl)
    · exact hrun hmem

/-- A deletion ends, and the container is gone. -/
theorem Inv.removed (h : Inv ⟨registry, running, .remove actx id :: pending, log⟩)
    (hid : id ∉ running) :
    Inv ⟨registry, running, pending, log ++ [.replied actx none (.noContent id)]⟩ := by
  obtain ⟨hcreated, -, hdeletes⟩ := h.holds _ List.mem_cons_self
  have hmem {actx' id'} : .created id' actx' ∈ log ++ [.replied actx none (.noContent id)] ↔
      .created id' actx' ∈ log := by
    simp
  have hreplied {actx' made r} :
      .replied actx' made r ∈ log ++ [.replied actx none (.noContent id)] ↔
        .replied actx' made r ∈ log ∨ actx' = actx ∧ made = none ∧ r = .noContent id := by
    simp
  refine ⟨by simpa only [hmem] using h.unique, by simpa only [hmem] using h.entries, ?_, ?_, ?_,
    ?_, ?_⟩
  · intro p hp
    obtain ⟨hold, hs, hd⟩ := h.holds p (List.mem_cons_of_mem _ hp)
    exact ⟨hmem.2 hold, hs, hd⟩
  · intro id' hrun
    obtain ⟨actx', hold, hentry | ⟨p, hp, hrest⟩⟩ := h.running id' hrun
    · exact ⟨actx', hmem.2 hold, .inl hentry⟩
    · rcases List.mem_cons.1 hp with rfl | hp
      · have heq : id = id' := hrest.2
        exact absurd (heq ▸ hrun) hid
      · exact ⟨actx', hmem.2 hold, .inr ⟨p, hp, hrest⟩⟩
  · intro actx' made id' hreply
    rcases hreplied.1 hreply with hreply | ⟨rfl, -, heq⟩
    · exact (h.gone actx' made id' hreply).imp_left hmem.2
    · obtain rfl := Reply.noContent.inj heq
      exact ⟨hmem.2 hcreated, hdeletes rfl, hid⟩
  · intro actx' made r hreply d hd
    rcases hreplied.1 hreply with hreply | ⟨-, -, rfl⟩
    · exact hmem.2 (h.shown actx' made r hreply d hd)
    · cases hd
  · intro actx' made r hreply herror
    rcases hreplied.1 hreply with hreply | ⟨-, -, rfl⟩
    · exact h.failed actx' made r hreply herror
    · cases herror

/-- A container stops. -/
theorem Inv.stop (h : Inv ⟨registry, running, pending, log⟩) (id : String) (stops : Bool) :
    Inv (stop ⟨registry, running, pending, log⟩ id stops) := by
  unfold Droplets.stop
  split_ifs
  · exact { h with
      running := fun id' hid => h.running id' (List.mem_filter.1 hid).1
      gone := fun actx made id' hmem =>
        (h.gone actx made id' hmem).imp_right fun hgone =>
          hgone.imp_right fun hnot hid => hnot (List.mem_filter.1 hid).1 }
  · exact h

/-! ## Requests and spawns -/

variable {containerMode : Bool} {s s' : State} {a : Answer}

theorem Inv.turnOff (h : Inv s) (actx id : String) : Inv (turnOff s actx id) :=
  h.change fun _ => rfl

theorem Inv.failSpawn (h : Inv s) (actx id : String) :
    Inv (failSpawn containerMode s actx id) := by
  unfold Droplets.failSpawn
  split_ifs
  · exact h.turnOff actx id
  · exact h

theorem Inv.locate (h : Inv s) (actx id ip : String) : Inv (locate s actx id ip) :=
  h.change fun _ => rfl

theorem Inv.requestRefused (h : Inv s) (actx id message : String) (status : ℕ) :
    Inv (Droplets.reply s actx none (.error id message status)) :=
  h.reply nofun nofun fun _ => rfl

/-- A request or a spawn takes an answer. -/
theorem Inv.answer (h : Inv ⟨registry, running, p :: pending, log⟩)
    (hdata : ∀ err, a ≠ .provisioningData (.error err))
    (hremove : ∀ actx id, p = .remove actx id → a = .removed false → id ∉ running)
    (hs : answer containerMode ⟨registry, running, pending, log⟩ p a = some s') : Inv s' := by
  have hhead := h.holds p List.mem_cons_self
  unfold Droplets.answer at hs
  split at hs
  · -- provisioningData
    next actx droplet =>
    obtain rfl := Option.some.inj hs
    obtain ⟨hcreated, hstarts, -⟩ := hhead
    refine ((h.rest rfl).add (q := .prepare actx droplet.id) ⟨hcreated, hstarts, nofun⟩).reply
      nofun ?_ nofun
    exact fun d hd => List.mem_singleton.1 hd ▸ hcreated
  · next err => exact absurd rfl (hdata err)
  · -- prepare
    obtain rfl := Option.some.inj hs
    exact (h.rest rfl).add ⟨hhead.created, hhead.starts, nofun⟩
  · obtain rfl := Option.some.inj hs
    exact (h.rest rfl).failSpawn _ _
  · -- run
    split_ifs at hs
    · obtain rfl := Option.some.inj hs
      exact h.run
    · obtain rfl := Option.some.inj hs
      exact (h.rest rfl).turnOff _ _
  · -- inspect
    next actx id ip =>
    obtain rfl := Option.some.inj hs
    have hpoll := (h.rest rfl).add (q := .poll actx id ip) ⟨hhead.created, nofun, nofun⟩
    split_ifs
    · exact hpoll.locate actx id ip
    · exact hpoll
  · obtain rfl := Option.some.inj hs
    exact (h.rest rfl).failSpawn _ _
  · -- poll
    split_ifs at hs
    · obtain rfl := Option.some.inj hs
      exact ((h.rest rfl).locate _ _ _).change fun _ => rfl
    · obtain rfl := Option.some.inj hs
      exact (h.rest rfl).failSpawn _ _
  · -- kill
    next actx id stops =>
    obtain rfl := Option.some.inj hs
    have hstop := h.goOn.stop id stops
    unfold Droplets.stop at hstop ⊢
    split_ifs at hstop ⊢ <;> exact hstop
  · -- remove
    next actx id removes =>
    obtain rfl := Option.some.inj hs
    have hstop := h.stop id removes
    unfold Droplets.stop at hstop ⊢
    split_ifs at hstop ⊢ with hremoves
    · exact hstop.removed fun hmem => by simpa using (List.mem_filter.1 hmem).2
    · exact hstop.removed (hremove actx id rfl (by rw [Bool.eq_false_iff.2 hremoves]))
  · cases hs

end

/-! ## Runs -/

theorem inv_step (containerMode : Bool) {s : State} {e : Event} (h : Inv s) (hkept : Kept s e)
    (hcareful : Careful s e) : Inv (step containerMode s e) := by
  cases e with
  | post actx body id =>
    change Inv (post s actx body id)
    unfold post
    split
    · exact h.requestRefused _ _ _ _
    · next req =>
      split_ifs
      · exact h.requestRefused _ _ _ _
      · exact h.requestRefused _ _ _ _
      · exact Inv.post h rfl (hkept actx _ id rfl)
  | list actx =>
    refine Inv.reply h nofun ?_ nofun
    intro d hd
    obtain ⟨e, he, rfl⟩ := List.mem_map.1 hd
    obtain ⟨hid, hcreated⟩ := h.entries actx e he
    rwa [hid]
  | get actx id =>
    change Inv (get s actx id)
    unfold get
    split
    · exact h.requestRefused _ _ _ _
    · next droplet hlookup =>
      refine Inv.reply h nofun ?_ nofun
      intro d hd
      obtain rfl := List.mem_singleton.1 hd
      obtain ⟨hid, hcreated⟩ := h.entries actx _ (mem_of_lookup hlookup)
      rwa [hid]
  | delete actx id =>
    change Inv (Droplets.delete s actx id)
    unfold Droplets.delete
    split_ifs with hmem
    · exact Inv.delete h hmem (hcareful.delete actx id rfl)
    · exact h.requestRefused _ _ _ _
  | stops id => exact Inv.stop h id true
  | answer i a =>
    change Inv (resume containerMode s i a)
    unfold resume
    split
    · exact h
    · next p hp =>
      obtain ⟨hi, rfl⟩ := List.getElem?_eq_some_iff.1 hp
      have hnow := Inv.perm h (List.getElem_cons_eraseIdx_perm hi)
      cases hanswer : answer containerMode { s with pending := s.pending.eraseIdx i }
          s.pending[i] a with
      | none => exact h
      | some s' =>
        refine hnow.answer (fun err heq => hcareful.provisioningData i err (heq ▸ rfl)) ?_ hanswer
        rintro actx id hremove rfl
        exact hcareful.remove i actx id rfl (hp.trans (congrArg some hremove))

/-- As long as the steps are careful, containers and droplets agree. -/
theorem registered_of_careful (containerMode : Bool) (es : List Event)
    (hes : Along (step containerMode) (fun s e => Kept s e ∧ Careful s e) start es) :
    Along (step containerMode) (fun s e => Registered (step containerMode s e)) start es := by
  refine along_of_inv (fun s e hinv ⟨hkept, hcareful⟩ => ?_) inv_start hes
  have hnext := inv_step containerMode hinv hkept hcareful
  exact ⟨hnext.registered, hnext⟩

/-! ## A droplet that is deleted -/

theorem careful_of_ne {s : State} {e : Event} (hdelete : ∀ actx id, e ≠ .delete actx id)
    (hremoved : ∀ i, e ≠ .answer i (.removed false))
    (hdata : ∀ i err, e ≠ .answer i (.provisioningData (.error err))) : Careful s e :=
  ⟨fun actx id heq => absurd heq (hdelete actx id), fun i _ _ heq => absurd heq (hremoved i), hdata⟩

theorem kept_of_ne {s : State} {e : Event} (hpost : ∀ actx body id, e ≠ .post actx body id) :
    Kept s e := fun actx body id heq => absurd heq (hpost actx body id)

theorem kept_start (e : Event) : Kept start e := fun _ _ _ _ _ => List.not_mem_nil

/-- A droplet is made, up to `docker run`. -/
def madeEvents : List Event :=
  [.post "bob" (some ⟨"vm", none, []⟩) "0f8f", .answer 0 (.provisioningData (.ok ())),
    .answer 0 (.prepared (.ok ()))]

/-- Its container runs and is reached. -/
def upEvents : List Event :=
  [.answer 0 (.ran 0), .answer 0 (.inspected (.ok "172.17.0.2")), .answer 0 (.polled true)]

def deleteEvents : List Event :=
  [.delete "bob" "0f8f", .answer 0 (.killed true), .answer 0 (.removed true)]

theorem kept_madeEvents : Along (step true) Kept start madeEvents :=
  ⟨kept_start _, kept_of_ne nofun, kept_of_ne nofun, trivial⟩

theorem kept_sample {s : State} : Along (step true) Kept s (upEvents ++ deleteEvents) :=
  ⟨kept_of_ne nofun, kept_of_ne nofun, kept_of_ne nofun, kept_of_ne nofun, kept_of_ne nofun,
    kept_of_ne nofun, trivial⟩

theorem careful_sample : Along (step true) Careful start
    (madeEvents ++ (upEvents ++ deleteEvents)) := by
  refine ⟨careful_of_ne nofun nofun nofun, careful_of_ne nofun nofun nofun,
    careful_of_ne nofun nofun nofun, careful_of_ne nofun nofun nofun,
    careful_of_ne nofun nofun nofun, careful_of_ne nofun nofun nofun, ⟨?_, nofun, nofun⟩,
    careful_of_ne nofun nofun nofun, careful_of_ne nofun nofun nofun, trivial⟩
  -- Nothing is pending when the droplet is deleted.
  rintro _ _ - p hp
  have hnone : ((madeEvents ++ upEvents).foldl (step true) start).pending = [] := by decide
  exact absurd (hnone ▸ hp) List.not_mem_nil

theorem registered_sample : Along (step true) (fun s e => Registered (step true s e)) start
    (madeEvents ++ (upEvents ++ deleteEvents)) :=
  registered_of_careful true _
    (along_and.2 ⟨along_append.2 ⟨kept_madeEvents, kept_sample⟩, careful_sample⟩)

/-- A droplet is deleted before `docker run`: its container runs, and nobody knows it. -/
theorem droplets_race : ¬ ∀ containerMode es, Along (step containerMode) Kept start es →
    Along (step containerMode) (fun s e => Registered (step containerMode s e)) start es := by
  intro hall
  have hkept : Along (step true) Kept start (madeEvents ++ [.delete "bob" "0f8f",
      .answer 0 (.killed false), .answer 0 (.removed false), .answer 0 (.ran 0),
      .answer 0 (.inspected (.error "no address"))]) :=
    along_append.2 ⟨kept_madeEvents, kept_of_ne nofun, kept_of_ne nofun, kept_of_ne nofun,
      kept_of_ne nofun, kept_of_ne nofun, trivial⟩
  obtain ⟨-, -, -, -, -, -, -, hlast, -⟩ := hall true _ hkept
  exact hlast.deleted "bob" none "0f8f" (by decide) (by decide) (by decide)

end ComputeContract.Droplets
