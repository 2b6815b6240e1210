import ComputeContract.Spindle.Settled

/-!
# Isolation of runs

What is held under a run key is of one trigger, and every task is polled to its end, as long as
run keys are new and no engine replies with `null`.

* `Followed`: what is known of a job that is at work, and of one that is not;
* `isolated_of_new`: the property of runs.
-/

namespace ComputeContract.Spindle

/-- The run keys are new, and no reply is `null`. -/
structure Fresh (s : State) (e : Event) : Prop where
  keys : NewKeys s e
  replies : ∀ i, e ≠ .answer i (.polled (some .null))

section
variable {cfg : Config} {s : State} {p : Pending} {a : Answer} {next : List Pending}
  {effects es : List Effect} {j : ℕ} {job : Job}

/-! ## Jobs -/

/-- The VM of a job is given up, if there is one. -/
def GivenUp (j : ℕ) (es : List Effect) : Prop :=
  .provisioned j ∈ es → ∃ reason, .reported j reason ∈ es

/-- The step polls, once there is a task. -/
structure Following (cfg : Config) (j : ℕ) (p : Pending) (es : List Effect) : Prop where
  polls : (∃ taskId peUrl, .task j taskId peUrl ∈ es) → p.polls ≠ none
  market : (∃ job, p = .provision j job) ∨ .provisioned j ∈ es → cfg.marketRfp

/-- A job that is not at work and has a task has ended. -/
def Followed (cfg : Config) (j : ℕ) : List Pending → List Effect → Prop
  | [], es => (∃ taskId peUrl, .task j taskId peUrl ∈ es) → Ended es ∧ GivenUp j es
  | [p], es => Following cfg j p es
  | _, _ => False

/-- No task is made, and a job that polls goes on polling. -/
theorem Following.goOn (h : Following cfg j p es) {q : Pending}
    (hq : p.polls ≠ none → q.polls ≠ none) (hp : ∀ job, q ≠ .provision j job)
    (heffects : ∀ e ∈ effects, e.isTask = false ∧ e ≠ .provisioned j) :
    Following cfg j q (es ++ effects) where
  polls := fun ⟨taskId, peUrl, hmem⟩ => hq (h.polls ⟨taskId, peUrl,
    (task_mem_append fun e he => (heffects e he).1).1 hmem⟩)
  market hor := by
    rcases hor with ⟨job, heq⟩ | hmem
    · exact absurd heq (hp job)
    · rcases List.mem_append.1 hmem with hmem | hmem
      · exact h.market (.inr hmem)
      · exact absurd rfl (heffects _ hmem).2

/-- A job without a task may end as it likes. -/
theorem Following.no_task (h : Following cfg j p es) (hp : p.polls = none)
    (heffects : ∀ e ∈ effects, e.isTask = false) : Followed cfg j [] (es ++ effects) :=
  fun ⟨taskId, peUrl, hmem⟩ =>
    absurd hp (h.polls ⟨taskId, peUrl, (task_mem_append heffects).1 hmem⟩)

/-- A move of a job that is at work. -/
theorem followed_move (hmove : Move cfg p a next effects) (h : Following cfg p.number p es)
    (hwork : p.atWork = some p.number) (hnull : a ≠ .polled (some .null)) :
    Followed cfg p.number (workOf p.number next) (es ++ effects) := by
  cases hmove with
  | @provisioned j job vm peUrl =>
    rw [workOf_singleton rfl]
    have hmarket := h.market (.inl ⟨job, rfl⟩)
    refine ⟨fun ⟨taskId, peUrl, hmem⟩ => ?_, fun _ => hmarket⟩
    refine absurd rfl (h.polls ⟨taskId, peUrl, (task_mem_append fun e he => ?_).1 hmem⟩)
    split_ifs at he
    · exact List.mem_singleton.1 he ▸ rfl
    · cases he
  | provisionFails | givenUp | createFails _ =>
    exact h.no_task rfl fun e he => List.mem_singleton.1 he ▸ rfl
  | @boots p q a hp hnumber hq =>
    have hqwork : q.atWork = some p.number := by
      rcases hq with hq | ⟨peUrl, rfl⟩
      · exact (Pending.boots_number hq).trans (congrArg some hnumber)
      · rfl
    rw [workOf_singleton hqwork]
    refine h.goOn (fun hpolls => ?_) ?_ nofun
    · exact absurd (by cases p <;> first | rfl | cases hp) hpolls
    · rintro job rfl
      rcases hq with hq | ⟨peUrl, hq⟩ <;> cases hq
  | @bootFails p a err reason hp =>
    rw [workOf_singleton rfl]
    refine h.goOn (fun hpolls => ?_) nofun (List.forall_mem_singleton.2 ⟨rfl, nofun⟩)
    exact absurd (by cases p <;> first | rfl | cases hp) hpolls
  | created _ =>
    rw [workOf_singleton rfl]
    refine ⟨fun _ => nofun, fun hor => ?_⟩
    rcases hor with ⟨job, heq⟩ | hmem
    · cases heq
    · rcases List.mem_append.1 hmem with hmem | hmem
      · exact h.market (.inr hmem)
      · cases List.mem_singleton.1 hmem
  | slept =>
    rw [workOf_singleton rfl]
    exact h.goOn (fun _ => nofun) nofun nofun
  | unreachable =>
    rw [workOf_singleton rfl]
    exact h.goOn (fun _ => nofun) nofun nofun
  | null => exact absurd rfl hnull
  | status _ _ =>
    rw [workOf_singleton rfl]
    exact h.goOn (fun _ => nofun) nofun (List.forall_mem_singleton.2 ⟨rfl, nofun⟩)
  | @ended j place job peUrl taskId key status exit output record next hrecord hnext =>
    have hnone : workOf j next = [] := by
      rcases hnext with rfl | rfl <;> rfl
    rw [Pending.number, hnone]
    intro _
    refine ⟨ended_append.2 (.inr ⟨record.status, List.mem_cons_self, hrecord⟩), fun hvm => ?_⟩
    have hvm' : .provisioned j ∈ es := by
      rcases List.mem_append.1 hvm with hvm | hvm
      · exact hvm
      · rcases List.mem_cons.1 hvm with heq | hvm
        · cases heq
        · split_ifs at hvm
          · cases List.mem_singleton.1 hvm
          · cases hvm
    rw [if_pos (h.market (.inr hvm'))]
    exact ⟨_, List.mem_append_right _ (List.mem_cons_of_mem _ (List.mem_singleton.2 rfl))⟩
  | kept => cases hwork

theorem followed_first (j : ℕ) (job : Job) :
    Followed cfg j [firstStep cfg j job] [broadcast j job (some "submitted") none] := by
  refine ⟨fun ⟨taskId, peUrl, hmem⟩ => Effect.noConfusion (List.mem_singleton.1 hmem), ?_⟩
  rintro (⟨job', heq⟩ | hmem)
  · unfold firstStep at heq
    split_ifs at heq with hmarket
    exact hmarket
  · cases List.mem_singleton.1 hmem

/-! ## Runs -/

/-- What is known of a state. -/
structure Isolating (cfg : Config) (s : State) : Prop where
  inv : Inv cfg [] s
  followed : Phases (Followed cfg) s

theorem Inv.heldBy (h : Inv cfg [] s) {key : String} {place : ℕ}
    (hplace : s.runs.lookup key = some place) :
    ∃ run j job, s.heap[place]? = some run ∧ HeldBy s key run j job := by
  obtain ⟨run, job, hrun, hkey, ⟨hwaiting, -⟩ | ⟨j, hjob, hmine⟩⟩ := h.owned.owned key place hplace
  · cases hwaiting
  · have hsame {k : ℕ} (hk : HasKey s.jobs k key) : k = j := by
      obtain ⟨job', hjob', hkey'⟩ := hk
      exact (job_eq_of_key h.owned.nodup hjob' hjob (hkey'.trans hkey.symm)).1
    refine ⟨run, j, job, hrun, hjob, hkey, hmine.of, ?_, ?_, ?_, ?_, ?_, ?_⟩
    · exact fun k hk => hsame (h.stored.preRunLogs key k hk)
    · exact fun k hk => hsame (h.stored.preLogs key k hk)
    · intro log hlog
      obtain ⟨k, hk, hmem⟩ := h.stored.logs key log hlog
      exact hsame hk ▸ hmem
    · exact fun k record hmem => hsame (h.stored.statuses k key record hmem)
    · intro hready
      obtain ⟨k, hk, taskId, peUrl, hmem⟩ := h.stored.runWaiters key .ready hready
      obtain rfl := hsame hk
      exact ((hmine.of.task taskId peUrl).1 hmem).1
    · intro hfailed
      obtain ⟨k, hk, hended⟩ := h.stored.runWaiters key .failed hfailed
      exact hsame hk ▸ hended

theorem Isolating.isolated (h : Isolating cfg s) : Isolated s where
  held key place hplace := h.inv.heldBy hplace
  tracked j taskId peUrl hmem := by
    have hphase := h.followed j (h.inv.stored.known _ hmem j rfl)
    have hmem' : .task j taskId peUrl ∈ ofJob j s.log := (mem_ofJob rfl).2 hmem
    cases hwork : workOf j s.pending with
    | nil =>
      rw [hwork] at hphase
      obtain ⟨hended, hgiven⟩ := hphase ⟨taskId, peUrl, hmem'⟩
      refine .inr ⟨hended, fun hvm => ?_⟩
      obtain ⟨reason, hreason⟩ := hgiven ((mem_ofJob rfl).2 hvm)
      exact ⟨reason, (mem_ofJob rfl).1 hreason⟩
    | cons p ps =>
      rw [hwork] at hphase
      cases ps with
      | cons q ps => exact hphase.elim
      | nil =>
        have hp : p ∈ workOf j s.pending := hwork ▸ List.mem_singleton.2 rfl
        obtain ⟨hp, hj⟩ := List.mem_filter.1 hp
        have hpolls := hphase.polls ⟨taskId, peUrl, hmem'⟩
        have hpwork : p.atWork = some j := of_decide_eq_true hj
        have hfits := h.inv.fits p hp
        refine .inl ⟨p, hp, ?_⟩
        cases p with
        | sleep k job place =>
          obtain rfl := Option.some.inj hpwork
          obtain ⟨run, hrun, hmine⟩ := h.inv.owned.find hfits.1 hfits.2.1
          exact ⟨rfl, place, run, rfl, hrun, ((hmine.of.task taskId peUrl).1 hmem).2⟩
        | poll k job place url id =>
          obtain rfl := Option.some.inj hpwork
          obtain ⟨run, hrun, hmine⟩ := h.inv.owned.find hfits.1 hfits.2.1
          exact ⟨rfl, place, run, rfl, hrun, ((hmine.of.task taskId peUrl).1 hmem).2⟩
        | _ => exact absurd rfl hpolls
  injective j j' job job' hjob hjob' hkey := by
    obtain ⟨-, rfl⟩ := job_eq_of_key h.inv.owned.nodup hjob hjob' hkey
    exact ⟨rfl, rfl, rfl⟩

end

/-- As long as run keys are new and no reply is `null`, runs are isolated. -/
theorem isolated_of_new (cfg : Config) (es : List Event)
    (hes : Along (step cfg) Fresh start es) :
    Along (step cfg) (fun s e => Isolated (step cfg s e)) start es := by
  refine along_of_inv (fun s e hinv hfresh => ?_)
    (⟨inv_start cfg, nofun⟩ : Isolating cfg start) hes
  have hnext : Isolating cfg (step cfg s e) := by
    refine ⟨inv_step hinv.inv hfresh.keys,
      phases_step hinv.followed hinv.inv hfresh.keys followed_first ?_⟩
    intro i p a next effects hevent _ hmove hphase hwork
    refine followed_move hmove hphase hwork ?_
    rintro rfl
    exact hfresh.replies i hevent
  exact ⟨hnext.isolated, hnext⟩

/-! ## Two triggers of one key -/

theorem fresh_sample : Along (step sampleConfig) Fresh start
    (taskEvents "did:plc:alice" "did:plc:repo" "task" ++
      pollEvents (some "complete") (some "success")) :=
  ⟨⟨newKeys_start _, nofun⟩, ⟨newKeys_of_ne nofun, nofun⟩, ⟨newKeys_of_ne nofun, nofun⟩,
    ⟨newKeys_of_ne nofun, nofun⟩, ⟨newKeys_of_ne nofun, nofun⟩, ⟨newKeys_of_ne nofun, nofun⟩,
    trivial⟩

theorem isolated_sample : Along (step sampleConfig)
    (fun s e => Isolated (step sampleConfig s e)) start
    (taskEvents "did:plc:alice" "did:plc:repo" "task" ++
      pollEvents (some "complete") (some "success")) :=
  isolated_of_new sampleConfig _ fresh_sample

/-- Bob triggers his repository under the knot and the record key of Alice's. -/
theorem isolated_again :
    ¬ ∀ cfg es, Along (step cfg) (fun s e => Isolated (step cfg s e)) start es := by
  intro hall
  let es := taskEvents "did:plc:alice" "did:plc:repo" "task" ++
    taskEvents "did:plc:bob" "did:plc:bobs" "other"
  obtain ⟨-, -, -, -, -, -, -, hlast, -⟩ := hall sampleConfig es
  have hlast : Isolated (es.foldl (step sampleConfig) start) := hlast
  -- The one run has Bob's task, and Alice's has not ended.
  have htasks : (es.foldl (step sampleConfig) start).heap.map Run.taskId = ["other"] := by decide
  have hstatuses : statuses (ofJob 0 (es.foldl (step sampleConfig) start).log) = [.pending] := by
    decide
  rcases hlast.tracked 0 "task" "https://pe.fedproxy.com" (by decide) with
    ⟨p, -, -, place, run, -, hrun, htask, -⟩ | ⟨⟨status, hmem, hterminal⟩, -⟩
  · have hmem := List.mem_map_of_mem (f := Run.taskId) (List.mem_of_getElem? hrun)
    rw [htasks, htask] at hmem
    exact absurd hmem (by decide)
  · rw [hstatuses] at hmem
    obtain rfl := List.mem_singleton.1 hmem
    cases hterminal

end ComputeContract.Spindle
