import ComputeContract.Spindle.Moves

/-!
# One terminal status

A run comes to one terminal status, and its VM is given up once, as long as run keys are new, no
reply of an engine is a failure that does not end the task, and the engine of a VM that was
provisioned takes the task.

* `Going`, `Done`: what is known of a job that is at work, and of one that is not;
* `settles_of_careful`: the property of runs.
-/

namespace ComputeContract.Spindle

/-- The step keeps to what the spindle does not check. -/
structure Careful (s : State) (e : Event) : Prop where
  keys : NewKeys s e
  /-- No reply is broadcast as failed but the last one. -/
  replies : ∀ i body, e = .answer i (.polled (some body)) → body.Plain
  /-- The task is created, once there is a VM for it. -/
  create : ∀ i j job peUrl result, e = .answer i (.created result) →
    s.pending[i]? = some (.create j job peUrl) → .provisioned j ∈ s.log →
    ∃ taskId, result = .ok taskId ∧ taskId ≠ ""

section
variable {cfg : Config} {s : State} {p : Pending} {a : Answer} {next : List Pending}
  {effects es : List Effect} {j : ℕ} {job : Job} {key : String} {record : PipelineStatusRecord}

/-! ## Counting -/

theorem statuses_append : statuses (es ++ effects) = statuses es ++ statuses effects :=
  List.filterMap_append

theorem reports_append : reports (es ++ effects) = reports es + reports effects :=
  List.countP_append

theorem ended_append : Ended (es ++ effects) ↔ Ended es ∨ Ended effects := by
  simp only [Ended, statuses_append, List.mem_append, or_and_right, exists_or]

theorem mem_ofJob {e : Effect} (he : e.job = some j) : e ∈ ofJob j s.log ↔ e ∈ s.log := by
  simp [ofJob, he]

/-! ## Jobs -/

/-- A job that is at work has sent no terminal status. -/
structure Going (cfg : Config) (j : ℕ) (p : Pending) (es : List Effect) : Prop where
  statuses : ∀ status ∈ statuses es, ¬ status.terminal
  reports : reports es = if p.givesUp then 1 else 0
  /-- VMs are of the market. -/
  market : (∃ job, p = .provision j job) → cfg.marketRfp
  vm : .provisioned j ∈ es → cfg.marketRfp ∧ ∀ job, p ≠ .provision j job

/-- A job that is at an end has sent at most one terminal status, the last one. -/
structure Done (j : ℕ) (es : List Effect) : Prop where
  last : ∀ status ∈ (statuses es).dropLast, ¬ status.terminal
  reported : Ended es → .provisioned j ∈ es → reports es = 1
  early : reports es ≠ 0 → Ended es

def Phase (cfg : Config) (j : ℕ) : List Pending → List Effect → Prop
  | [], es => Done j es
  | [p], es => Going cfg j p es
  | _, _ => False

/-- Nothing is sent, or a status that is not terminal. -/
theorem Going.goOn (h : Going cfg j p es) {q : Pending}
    (hq : q.givesUp = p.givesUp) (hp : ∀ job, q ≠ .provision j job)
    (heffects : ∀ e ∈ effects, e.reports = false ∧ e ≠ .provisioned j ∧
      ∀ status, e.sent = some status → ¬ status.terminal) :
    Going cfg j q (es ++ effects) where
  statuses status hmem := by
    rw [statuses_append] at hmem
    rcases List.mem_append.1 hmem with hmem | hmem
    · exact h.statuses status hmem
    · obtain ⟨e, he, hsent⟩ := List.mem_filterMap.1 hmem
      exact (heffects e he).2.2 status hsent
  reports := by
    have hnone : Spindle.reports effects = 0 :=
      List.countP_eq_zero.2 fun e he hrep => Bool.noConfusion ((heffects e he).1.symm.trans hrep)
    rw [reports_append, hnone, h.reports, hq, Nat.add_zero]
  market := fun ⟨job, heq⟩ => absurd heq (hp job)
  vm hmem := by
    rcases List.mem_append.1 hmem with hmem | hmem
    · exact ⟨(h.vm hmem).1, hp⟩
    · exact absurd rfl (heffects _ hmem).2.1

/-- The last status is sent. -/
theorem Going.done (h : Going cfg j p es) (hrecord : record.status.terminal)
    (heffects : ∀ e ∈ effects, e.sent = none ∧ e ≠ .provisioned j)
    (hreported : .provisioned j ∈ es → Spindle.reports es + Spindle.reports effects = 1) :
    Done j (es ++ .status j key record :: effects) := by
  have hsent : Spindle.statuses (.status j key record :: effects) = [record.status] := by
    have hnone : Spindle.statuses effects = [] :=
      List.filterMap_eq_nil_iff.2 fun e he => (heffects e he).1
    rw [Spindle.statuses, List.filterMap_cons_some (show Effect.sent _ = some record.status from rfl)]
    exact congrArg _ hnone
  have hended : Ended (es ++ .status j key record :: effects) :=
    ended_append.2 (.inr ⟨record.status, hsent ▸ List.mem_singleton.2 rfl, hrecord⟩)
  refine ⟨fun status hmem => ?_, fun _ hmem => ?_, fun _ => hended⟩
  · rw [statuses_append, hsent, List.dropLast_concat] at hmem
    exact h.statuses status hmem
  · have hreports : Spindle.reports (es ++ .status j key record :: effects) =
        Spindle.reports es + Spindle.reports effects := by
      rw [reports_append]
      exact congrArg _ (List.countP_cons_of_neg Bool.false_ne_true)
    rw [hreports]
    refine hreported ?_
    rcases List.mem_append.1 hmem with hmem | hmem
    · exact hmem
    · rcases List.mem_cons.1 hmem with heq | hmem
      · cases heq
      · exact absurd rfl (heffects _ hmem).2

theorem workOf_singleton {q : Pending} (h : q.atWork = some j) : workOf j [q] = [q] :=
  List.filter_eq_self.2 fun _ hq => decide_eq_true (List.mem_singleton.1 hq ▸ h)

/-- A status that does not end the task is not terminal, in a plain reply. -/
theorem not_terminal {status exit output : Option String}
    (hplain : (Body.value status exit output).Plain)
    (h : status ≠ some "complete" ∧ status ≠ some "unknown") :
    ¬ (peStatusToTangled status).terminal := by
  change peStatusToTangled status = .failed → status = some "unknown" at hplain
  unfold peStatusToTangled at hplain ⊢
  split_ifs with hsubmitted hprogress hcomplete
  · nofun
  · nofun
  · exact absurd hcomplete h.1
  · rw [if_neg hsubmitted, if_neg hprogress, if_neg hcomplete] at hplain
    exact absurd (hplain rfl) h.2

/-- A move of a job that is at work. -/
theorem phase_move (hmove : Move cfg p a next effects) (h : Going cfg p.number p es)
    (hwork : p.atWork = some p.number)
    (hplain : ∀ body, a = .polled (some body) → body.Plain)
    (hcreate : ∀ j job peUrl result, p = .create j job peUrl → a = .created result →
      .provisioned j ∈ es → ∃ taskId, result = .ok taskId ∧ taskId ≠ "") :
    Phase cfg p.number (workOf p.number next) (es ++ effects) := by
  cases hmove with
  | @provisioned j job vm peUrl =>
    rw [workOf_singleton rfl]
    have hmarket := h.market ⟨job, rfl⟩
    have heffects : statuses (if vm then [.provisioned j] else []) = [] ∧
        Spindle.reports (if vm then [.provisioned j] else []) = 0 := by
      split_ifs <;> exact ⟨rfl, rfl⟩
    refine ⟨?_, ?_, nofun, fun _ => ⟨hmarket, nofun⟩⟩
    · rw [statuses_append, heffects.1, List.append_nil]
      exact h.statuses
    · rw [reports_append, heffects.2]
      exact h.reports
  | provisionFails => exact h.done rfl nofun fun hvm => absurd rfl ((h.vm hvm).2 _)
  | @boots p q a hp hnumber hq =>
    have hqwork : q.atWork = some p.number := by
      rcases hq with hq | ⟨peUrl, rfl⟩
      · exact (Pending.boots_number hq).trans (congrArg some hnumber)
      · rfl
    rw [workOf_singleton hqwork]
    refine h.goOn ?_ ?_ nofun
    · have hpgives : p.givesUp = false := by cases p <;> first | rfl | cases hp
      rw [hpgives]
      rcases hq with hq | ⟨peUrl, rfl⟩
      · cases q <;> first | rfl | cases hq
      · rfl
    · rintro job rfl
      rcases hq with hq | ⟨peUrl, hq⟩ <;> cases hq
  | @bootFails p a err reason hp =>
    rw [workOf_singleton rfl]
    have hreports := h.reports
    have hpgives : p.givesUp = false := by cases p <;> first | rfl | cases hp
    rw [hpgives] at hreports
    refine ⟨?_, ?_, nofun, fun hmem => ?_⟩
    · rw [statuses_append]
      exact (List.append_nil _).symm ▸ h.statuses
    · rw [reports_append, hreports]
      rfl
    · rcases List.mem_append.1 hmem with hmem | hmem
      · exact ⟨(h.vm hmem).1, nofun⟩
      · cases List.mem_singleton.1 hmem
  | givenUp => exact h.done rfl nofun fun _ => by rw [h.reports]; rfl
  | created _ =>
    rw [workOf_singleton rfl]
    exact h.goOn rfl nofun (List.forall_mem_singleton.2 ⟨rfl, nofun, nofun⟩)
  | createFails htask =>
    refine h.done rfl nofun fun hvm => ?_
    obtain ⟨taskId, hresult, hne⟩ := hcreate _ _ _ _ rfl rfl hvm
    exact absurd (htask taskId hresult) hne
  | slept =>
    rw [workOf_singleton rfl]
    exact h.goOn rfl nofun nofun
  | unreachable =>
    rw [workOf_singleton rfl]
    exact h.goOn rfl nofun nofun
  | null =>
    rw [List.append_nil]
    refine ⟨fun status hmem => h.statuses status (List.dropLast_subset _ hmem), ?_, ?_⟩
    · rintro ⟨status, hmem, hterminal⟩
      exact absurd hterminal (h.statuses status hmem)
    · exact fun hne => absurd h.reports hne
  | status hstatus hrecord =>
    rw [workOf_singleton rfl]
    refine h.goOn rfl nofun (List.forall_mem_singleton.2 ⟨rfl, nofun, ?_⟩)
    rintro status ⟨⟩
    rw [hrecord]
    exact not_terminal (hplain _ rfl) hstatus
  | @ended j place job peUrl taskId key status exit output record next hrecord hnext =>
    have hnone : workOf j next = [] := by
      rcases hnext with rfl | rfl <;> rfl
    rw [Pending.number, hnone]
    refine h.done hrecord (fun e he => ?_) fun hvm => ?_
    · split_ifs at he
      · obtain rfl := List.mem_singleton.1 he
        exact ⟨rfl, nofun⟩
      · cases he
    · rw [h.reports, if_pos (h.vm hvm).1]
      rfl
  | kept => cases hwork

theorem phase_first (j : ℕ) (job : Job) :
    Phase cfg j [firstStep cfg j job] [broadcast j job (some "submitted") none] := by
  refine ⟨List.forall_mem_singleton.2 nofun, ?_, ?_, nofun⟩
  · have hgives : (firstStep cfg j job).givesUp = false := by
      unfold firstStep
      split_ifs <;> rfl
    rw [hgives]
    rfl
  · unfold firstStep
    rintro ⟨job', heq⟩
    split_ifs at heq with hmarket
    exact hmarket

/-! ## Runs -/

theorem phases_careful {event : Event} (hphases : Phases (Phase cfg) s) (h : Inv cfg [] s)
    (hcareful : Careful s event) : Phases (Phase cfg) (step cfg s event) := by
  refine phases_step hphases h hcareful.keys phase_first ?_
  intro i p a next effects hevent hp hmove hphase hwork
  refine phase_move hmove hphase hwork (fun body ha => ?_) ?_
  · exact hcareful.replies i body (ha ▸ hevent)
  · rintro j job peUrl result rfl rfl hvm
    exact hcareful.create i j job peUrl result hevent hp ((mem_ofJob rfl).1 hvm)

theorem not_replied (request : Option CancelRequest) : cancelPipeline request ≠ 200 := by
  unfold cancelPipeline
  split
  · decide
  · split_ifs <;> decide

/-- No request to cancel is answered with 200. -/
def Uncancelled (log : List Effect) : Prop := ∀ request, .cancelReplied request 200 ∉ log

theorem Uncancelled.append (h : Uncancelled s.log) (hof : ∀ e ∈ effects, e.job ≠ none) :
    Uncancelled (s.log ++ effects) := fun request hmem =>
  (List.mem_append.1 hmem).elim (h request) fun hmem => hof _ hmem rfl

theorem Uncancelled.submitAll {jobs : List Job} (h : Uncancelled s.log) :
    Uncancelled (jobs.foldl (submit cfg) s).log := by
  induction jobs generalizing s with
  | nil => exact h
  | cons job jobs ih => exact ih (h.append fun e he => List.mem_singleton.1 he ▸ nofun)

theorem Uncancelled.registerAll {jobs : List Job} (h : Uncancelled s.log) :
    Uncancelled (jobs.foldl (register cfg) s).log := by
  induction jobs generalizing s with
  | nil => exact h
  | cons job jobs ih =>
    obtain ⟨heap, runs, runWaiters, heq⟩ := register_eq cfg s job
    rw [List.foldl_cons, heq]
    exact ih h

theorem Uncancelled.step (h : Uncancelled s.log) (hinv : Inv cfg [] s) (event : Event) :
    Uncancelled (step cfg s event).log := by
  cases event with
  | trigger trigger workflows => exact (h.registerAll).submitAll
  | line j text =>
    change Uncancelled (if cfg.marketRfp then addLine s j text else s).log
    unfold addLine
    split_ifs
    · split <;> exact h
    · exact h
  | cancel request =>
    intro request' hmem
    rcases List.mem_append.1 hmem with hmem | hmem
    · exact h request' hmem
    · exact not_replied request (Effect.cancelReplied.inj (List.mem_singleton.1 hmem)).2.symm
  | answer i a =>
    change Uncancelled (resume cfg s i a).log
    unfold resume
    split
    · exact h
    · next p hp =>
      split
      · exact h
      · next turn hturn =>
        have hgoes := hinv.answer (List.mem_of_getElem? hp) hturn
        simp only [Turn.after, hgoes.log]
        exact h.append fun e he hnone => Option.some_ne_none _ ((hgoes.move.of_job he).symm.trans
          hnone)

/-- What is known of a state. -/
structure Settling (cfg : Config) (s : State) : Prop where
  inv : Inv cfg [] s
  phases : Phases (Phase cfg) s
  uncancelled : Uncancelled s.log

theorem settling_start (cfg : Config) : Settling cfg start := ⟨inv_start cfg, nofun, nofun⟩

theorem Settling.phase (h : Settling cfg s) (hj : j < s.jobs.length) :
    Done j (ofJob j s.log) ∧ workOf j s.pending = [] ∨
      ∃ p, workOf j s.pending = [p] ∧ Going cfg j p (ofJob j s.log) := by
  have hphase := h.phases j hj
  cases hwork : workOf j s.pending with
  | nil =>
    rw [hwork] at hphase
    exact .inl ⟨hphase, rfl⟩
  | cons p ps =>
    rw [hwork] at hphase
    cases ps with
    | nil => exact .inr ⟨p, rfl, hphase⟩
    | cons q ps => exact hphase.elim

/-- A job that there is not has done nothing. -/
theorem Settling.lt (h : Settling cfg s) (hne : ofJob j s.log ≠ []) : j < s.jobs.length := by
  obtain ⟨e, he⟩ := List.exists_mem_of_ne_nil _ hne
  obtain ⟨he, hj⟩ := List.mem_filter.1 he
  exact h.inv.stored.known e he j (of_decide_eq_true hj)

theorem Settling.settles (h : Settling cfg s) : Settles s where
  last j status hmem := by
    have hlt := h.lt fun hnil => by
      rw [hnil] at hmem
      cases hmem
    rcases h.phase hlt with ⟨hdone, -⟩ | ⟨p, -, hgoing⟩
    · exact hdone.last status hmem
    · exact hgoing.statuses status (List.dropLast_subset _ hmem)
  stops j hended p hp hnumber := by
    rcases h.phase (hnumber ▸ h.inv.number_lt hp) with ⟨-, hwork⟩ | ⟨q, -, hgoing⟩
    · cases hpolls : p.polls with
      | none => rfl
      | some place =>
        have hpwork : p.atWork = some j := by
          cases p <;> first | exact congrArg some hnumber | cases hpolls
        have hmem : p ∈ workOf j s.pending := List.mem_filter.2 ⟨hp, decide_eq_true hpwork⟩
        rw [hwork] at hmem
        cases hmem
    · obtain ⟨status, hmem, hterminal⟩ := hended
      exact absurd hterminal (hgoing.statuses status hmem)
  cancelled request _ _ hmem := absurd hmem (h.uncancelled _)
  reported j hvm hended := by
    have hvm' : .provisioned j ∈ ofJob j s.log := (mem_ofJob rfl).2 hvm
    rcases h.phase (h.inv.stored.known _ hvm j rfl) with ⟨hdone, -⟩ | ⟨p, -, hgoing⟩
    · exact hdone.reported hended hvm'
    · obtain ⟨status, hmem, hterminal⟩ := hended
      exact absurd hterminal (hgoing.statuses status hmem)
  early j hne := by
    have hlt := h.lt fun hnil => by
      rw [hnil] at hne
      exact hne rfl
    rcases h.phase hlt with ⟨hdone, -⟩ | ⟨p, hwork, hgoing⟩
    · exact .inl (hdone.early hne)
    · have hp : p ∈ workOf j s.pending := hwork ▸ List.mem_singleton.2 rfl
      obtain ⟨hp, hj⟩ := List.mem_filter.1 hp
      refine .inr ⟨p, hp, ?_, ?_⟩
      · have hpwork : p.atWork = some j := of_decide_eq_true hj
        cases p <;> first | exact Option.some.inj hpwork | cases hpwork
      · by_contra hgives
        rw [hgoing.reports, if_neg hgives] at hne
        exact hne rfl

end

/-- As long as the steps are careful, runs come to one terminal status. -/
theorem settles_of_careful (cfg : Config) (es : List Event)
    (hes : Along (step cfg) Careful start es) :
    Along (step cfg) (fun s e => Settles (step cfg s e)) start es := by
  refine along_of_inv (fun s e hinv hcareful => ?_) (settling_start cfg) hes
  have hnext : Settling cfg (step cfg s e) := ⟨inv_step hinv.inv hcareful.keys,
    phases_careful hinv.phases hinv.inv hcareful, hinv.uncancelled.step hinv.inv e⟩
  exact ⟨hnext.settles, hnext⟩

/-! ## A workflow that ends, and one that is refused -/

def sampleConfig : Config := ⟨"http://localhost:8080", true⟩

def sampleTrigger (actor repoDid : String) : TriggerPayload :=
  ⟨"knot1.tangled.sh", "3lq2abcd", actor, repoDid, "0f8fad5b"⟩

def sampleWorkflows : Workflows := ⟨["ci"], by decide⟩

/-- A workflow has its task in a VM. -/
def taskEvents (actor repoDid taskId : String) : List Event :=
  [.trigger (sampleTrigger actor repoDid) sampleWorkflows,
    .answer 0 (.provisioned (.ok (true, "https://pe.fedproxy.com"))), .answer 0 (.ready (.ok true)),
    .answer 0 (.created (.ok taskId))]

/-- It is polled. -/
def pollEvents (status exitStatus : Option String) : List Event :=
  [.answer 0 .slept, .answer 0 (.polled (some (.value status exitStatus none)))]

theorem newKeys_of_ne {s : State} {e : Event} (h : ∀ t w, e ≠ .trigger t w) : NewKeys s e :=
  fun t w heq => absurd heq (h t w)

theorem newKeys_start (e : Event) : NewKeys start e := fun _ _ _ _ _ => List.not_mem_nil

theorem careful_of_ne {s : State} {e : Event} (hkeys : NewKeys s e)
    (hpolled : ∀ i body, e ≠ .answer i (.polled body))
    (hcreated : ∀ i result, e ≠ .answer i (.created result)) : Careful s e :=
  ⟨hkeys, fun i _ heq => absurd heq (hpolled i _),
    fun i _ _ _ result heq => absurd heq (hcreated i result)⟩

theorem careful_polled {s : State} {i : ℕ} {body : Body} (h : body.Plain) :
    Careful s (.answer i (.polled (some body))) :=
  ⟨newKeys_of_ne nofun, by rintro _ _ ⟨⟩; exact h, nofun⟩

theorem careful_created {s : State} {i : ℕ} {taskId : String} (h : taskId ≠ "") :
    Careful s (.answer i (.created (.ok taskId))) := by
  refine ⟨newKeys_of_ne nofun, nofun, ?_⟩
  rintro _ _ _ _ _ ⟨⟩ - -
  exact ⟨taskId, rfl, h⟩

theorem careful_sample : Along (step sampleConfig) Careful start
    (taskEvents "did:plc:alice" "did:plc:repo" "task" ++ pollEvents (some "in_progress") none ++
      pollEvents (some "complete") (some "success")) :=
  ⟨careful_of_ne (newKeys_start _) nofun nofun, careful_of_ne (newKeys_of_ne nofun) nofun nofun,
    careful_of_ne (newKeys_of_ne nofun) nofun nofun, careful_created (by decide),
    careful_of_ne (newKeys_of_ne nofun) nofun nofun, careful_polled nofun,
    careful_of_ne (newKeys_of_ne nofun) nofun nofun, careful_polled nofun, trivial⟩

theorem settles_sample : Along (step sampleConfig)
    (fun s e => Settles (step sampleConfig s e)) start
    (taskEvents "did:plc:alice" "did:plc:repo" "task" ++ pollEvents (some "in_progress") none ++
      pollEvents (some "complete") (some "success")) :=
  settles_of_careful sampleConfig _ careful_sample

/-- An engine refuses the input: failed is sent, and sent again. -/
theorem settles_refused :
    ¬ ∀ cfg es, Along (step cfg) (fun s e => Settles (step cfg s e)) start es := by
  intro hall
  obtain ⟨-, -, -, -, -, -, -, hlast, -⟩ := hall sampleConfig
    (taskEvents "did:plc:alice" "did:plc:repo" "task" ++
      pollEvents (some "input_validation_error") none ++
      pollEvents (some "input_validation_error") none)
  exact hlast.last 0 .failed (by decide) rfl

end ComputeContract.Spindle
