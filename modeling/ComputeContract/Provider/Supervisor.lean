import Mathlib.Data.Int.Notation
import Mathlib.Data.Nat.Notation
import Mathlib.Data.List.Basic
import ComputeContract.Lib.Along

/-!
# Supervising a unit

The `systemctl` of the containers. A command leaves its intent in files: `start` puts the
marker of the unit, `stop` removes it and kills the process whose PID is recorded. The
supervisor looks at the markers now and then, adopts a unit that it does not own, and runs it
while the marker is there, under its restart policy. Neither waits for the other.

The commands, the passes over the markers and the supervision of the unit are steps that come
in any order (`Event`); they are cut at their awaits.

* `Sound`: what is said about the steps of a run;
* `Inv`: what holds between them;
* `supervised_of_careful`: the runs in which it holds: no marker that is left of a finished unit is
  taken for a request, and no `stop` looks for the process before its PID is recorded.
-/

namespace ComputeContract.Supervisor

/-! ## The supervisor -/

inductive UnitType
  | simple
  | forking
  | oneshot
  | notify
  deriving DecidableEq

inductive RestartPolicy
  | no
  | always
  | onFailure
  deriving DecidableEq

/-- A unit, of which the condition and the times are left open. -/
structure Unit where
  type : UnitType
  execStartPre : List String
  restart : RestartPolicy
  remainAfterExit : Bool

/-- What a process is run for: a command before the unit, with so many after it, a oneshot, or
    the service, before or after its PID was recorded. -/
inductive Stage
  | pre (left : ℕ)
  | oneshot
  | spawned
  | running
  deriving DecidableEq

/-- It is the process that the restart policy is about. -/
def Stage.isMain : Stage → Bool
  | .pre _ => false
  | _ => true

/-- Where the supervision of the unit waits. -/
inductive Fiber
  /-- The unit is not owned. -/
  | idle
  | resolving
  /-- A process, with its exit code once it has ended. -/
  | child (stage : Stage) (pid : ℕ) (status : Option ℤ)
  | sleeping
  /-- `clearPid`, at the end. -/
  | clearing
  /-- `unwant`, at the end. -/
  | dropping
  deriving DecidableEq

inductive StopStage
  | reading
  | waiting (pid : ℕ)
  | clearing
  | removing
  deriving DecidableEq

/-- A `stop` on its way; `interrupted`, if the unit was started since it began. -/
structure Stop where
  stage : StopStage
  interrupted : Bool
  deriving DecidableEq

structure State where
  wanted : Bool
  pidFile : Option ℕ
  exitedFile : Option ℤ
  fiber : Fiber
  /-- Passes that have seen the marker and not come to the unit yet. -/
  scans : ℕ
  /-- The processes that are alive. -/
  alive : List ℕ
  nextPid : ℕ
  stops : List Stop
  /-- The unit was started since its last process was spawned. -/
  started : Bool
  lastExit : Option ℤ
  /-- A `stop` has completed, and the unit was not started since it began. -/
  settled : Bool

def State.start : State := ⟨false, none, none, .idle, 0, [], 1, [], false, none, false⟩

def spawn (stage : Stage) (s : State) : State :=
  { s with
    fiber := .child stage s.nextPid none
    alive := s.nextPid :: s.alive
    nextPid := s.nextPid + 1
    started := s.started && !stage.isMain }

/-- The head of the loop: `while (isWanted(key))`. -/
def loop (s : State) : State :=
  if s.wanted then spawn .spawned s else { s with fiber := .clearing }

/-- Run the unit, after so many more commands. -/
def prepare (u : Unit) : ℕ → State → State
  | 0, s => if u.type = .oneshot then spawn .oneshot s else loop s
  | left + 1, s => spawn (.pre left) s

def shouldRestart (u : Unit) (code : ℤ) : Bool :=
  u.restart = .always || (u.restart = .onFailure && code ≠ 0)

/-- The process of the unit has ended, and the supervisor learns of it. -/
def observed (u : Unit) (stage : Stage) (code : ℤ) (s : State) : State :=
  match stage with
  | .pre left => if code ≠ 0 then { s with fiber := .dropping } else prepare u left s
  | .oneshot =>
    { s with
      exitedFile := if u.remainAfterExit then some code else s.exitedFile
      fiber := .dropping }
  | .spawned => s
  | .running =>
    if s.wanted ∧ shouldRestart u code then { s with fiber := .sleeping }
    else { s with fiber := .clearing }

/-- The process of the unit ends. -/
def died (code : ℤ) (s : State) : State :=
  match s.fiber with
  | .child stage pid none =>
    { s with
      fiber := .child stage pid (some code)
      alive := s.alive.erase pid
      lastExit := if stage.isMain then some code else s.lastExit }
  | _ => s

inductive Event
  /-- `want`: `start`, `enable --now`, and what `restart` does after its `stop`. -/
  | start
  /-- `disable`. -/
  | disable
  /-- A pass reads the markers. -/
  | scan
  /-- A pass comes to the unit. -/
  | adopt
  /-- The unit was looked for; `runnable`, if it is there and its conditions hold. -/
  | resolved (runnable : Bool)
  | exit (code : ℤ)
  | observe
  | recorded
  | wake
  /-- The last await of the supervision is over. -/
  | finish
  | stop
  /-- The `i`-th `stop` goes on; `deadline`, if its time is over. -/
  | proceed (i : ℕ) (deadline : Bool)

/-- A `stop` goes on. -/
def proceed (i : ℕ) (stop : Stop) (deadline : Bool) (s : State) : State :=
  let next := fun (stage : StopStage) (s : State) =>
    { s with stops := s.stops.set i { stop with stage } }
  match stop.stage with
  | .reading =>
    match s.pidFile.filter (· ∈ s.alive) with
    | some pid => next (.waiting pid) s
    | none => next .clearing s
  | .waiting pid =>
    if pid ∉ s.alive then next .clearing s
    else if deadline then next .clearing (died 137 s)
    else s
  | .clearing => next .removing { s with pidFile := none }
  | .removing =>
    { s with
      exitedFile := none
      stops := s.stops.eraseIdx i
      settled := s.settled || !stop.interrupted }

def step (u : Unit) (s : State) : Event → State
  | .start =>
    { s with
      wanted := true
      started := true
      settled := false
      stops := s.stops.map fun stop => { stop with interrupted := true } }
  | .disable => { s with wanted := false }
  | .scan => if s.wanted then { s with scans := s.scans + 1 } else s
  | .adopt =>
    if s.scans = 0 then s
    else if s.fiber = .idle then { s with scans := s.scans - 1, fiber := .resolving }
    else { s with scans := s.scans - 1 }
  | .resolved runnable =>
    if s.fiber = .resolving then
      if runnable then prepare u u.execStartPre.length s else { s with fiber := .dropping }
    else s
  | .exit code => died code s
  | .observe =>
    match s.fiber with
    | .child stage _ (some code) => observed u stage code s
    | _ => s
  | .recorded =>
    match s.fiber with
    | .child .spawned pid status =>
      { s with pidFile := some pid, fiber := .child .running pid status }
    | _ => s
  | .wake => if s.fiber = .sleeping then loop s else s
  | .finish =>
    match s.fiber with
    | .clearing => { s with pidFile := none, fiber := .idle }
    | .dropping => { s with wanted := false, fiber := .idle }
    | _ => s
  | .stop => { s with wanted := false, stops := s.stops ++ [⟨.reading, false⟩] }
  | .proceed i deadline =>
    match s.stops[i]? with
    | some stop => proceed i stop deadline s
    | none => s

/-! ## What is said of a run -/

/-- A process may be spawned: the unit was started since the last one was, or the restart policy
    says so of its exit. -/
def Allowed (u : Unit) (s : State) : Prop :=
  s.started ∨ u.restart = .always ∨ u.restart = .onFailure ∧ ∃ code ∈ s.lastExit, code ≠ 0

def Fiber.isMain : Fiber → Bool
  | .child stage _ _ => stage.isMain
  | _ => false

/-- A step from `s` to `s'` spawned a process. -/
def Spawned (s s' : State) : Prop := s'.nextPid ≠ s.nextPid

instance (s s' : State) : Decidable (Spawned s s') := inferInstanceAs (Decidable (_ ≠ _))

/-- A step keeps at most one process alive, spawns the unit only where the policy allows it,
    leaves no process alive once a `stop` has completed, and spawns none then. -/
structure Sound (u : Unit) (s : State) (e : Event) : Prop where
  one : (step u s e).alive.length ≤ 1
  policy : Spawned s (step u s e) → (step u s e).fiber.isMain → Allowed u s
  dead : (step u s e).settled → (step u s e).alive = []
  quiet : s.settled → ¬ Spawned s (step u s e)

/-- The unit is adopted and its process not spawned yet. -/
def Fiber.preparing : Fiber → Bool
  | .resolving => true
  | .child (.pre _) _ _ => true
  | _ => false

/-- The unit is a service that is run without commands before. -/
def Plain (u : Unit) : Prop := u.type ≠ .oneshot ∧ u.execStartPre = []

/-- What is adopted was started since its last process, or the policy allows another one, or it
    is a service that is stopped. When a `stop` reads the PID, the process that is alive is the
    one that is recorded, and no unit that runs other processes first is on its way. -/
def Careful (u : Unit) (s : State) : Event → Prop
  | .adopt => s.scans ≠ 0 → s.fiber = .idle →
      Allowed u s ∨ u.type ≠ .oneshot ∧ s.wanted = false
  | .proceed i _ => ∀ stop ∈ s.stops[i]?, stop.stage = .reading → stop.interrupted = false →
      (∀ pid ∈ s.alive, s.pidFile = some pid) ∧
        (s.fiber.preparing ∨ s.scans ≠ 0 → Plain u)
  | _ => True

/-! ## The invariant -/

/-- The process that the supervision owns, while it is alive. -/
def Fiber.alive : Fiber → List ℕ
  | .child _ pid none => [pid]
  | _ => []

/-- Nothing is spawned before the unit is wanted again. -/
def Quiet (u : Unit) (s : State) : Prop :=
  s.wanted = false ∧ (s.fiber.preparing ∨ s.scans ≠ 0 → Plain u)

/-- What a `stop` has reached, unless the unit was started since it began. -/
def Reached (u : Unit) (s : State) : StopStage → Prop
  | .reading => s.wanted = false
  | .waiting pid => Quiet u s ∧ ∀ pid' ∈ s.alive, pid' = pid
  | .clearing | .removing => Quiet u s ∧ s.alive = []

/-- The stops have reached what their stages say. -/
structure Stopping (u : Unit) (s : State) : Prop where
  stops : ∀ stop ∈ s.stops, stop.interrupted = false → Reached u s stop.stage
  settled : s.settled → Quiet u s ∧ s.alive = []

structure Inv (u : Unit) (s : State) : Prop extends Stopping u s where
  alive : s.alive = s.fiber.alive
  prepared : s.fiber.preparing → Allowed u s ∨ u.type ≠ .oneshot ∧ s.wanted = false
  sleeping : s.fiber = .sleeping → Allowed u s
  exit : ∀ stage pid code, s.fiber = .child stage pid (some code) → stage.isMain →
    s.lastExit = some code
  pre : ∀ left pid status, s.fiber = .child (.pre left) pid status → left < u.execStartPre.length

variable {u : Unit} {s s' : State}

/-- Where nothing new is wanted or on its way and nothing new is alive, the stops stay where
    they are. -/
theorem Stopping.of_le (h : Stopping u s) (hstops : s'.stops = s.stops)
    (hsettled : s'.settled = s.settled) (hwanted : s.wanted = false → s'.wanted = false)
    (hquiet : Quiet u s → Quiet u s') (halive : s'.alive.Sublist s.alive) : Stopping u s' := by
  constructor
  · intro stop hstop hint
    rw [hstops] at hstop
    have hreached := h.stops stop hstop hint
    cases hstage : stop.stage with
    | reading =>
      rw [hstage] at hreached
      exact hwanted hreached
    | waiting pid =>
      rw [hstage] at hreached
      exact ⟨hquiet hreached.1, fun pid' hpid => hreached.2 pid' (halive.subset hpid)⟩
    | clearing =>
      rw [hstage] at hreached
      exact ⟨hquiet hreached.1, List.sublist_nil.1 (hreached.2 ▸ halive)⟩
    | removing =>
      rw [hstage] at hreached
      exact ⟨hquiet hreached.1, List.sublist_nil.1 (hreached.2 ▸ halive)⟩
  · intro hset
    rw [hsettled] at hset
    obtain ⟨hq, hnil⟩ := h.settled hset
    exact ⟨hquiet hq, List.sublist_nil.1 (hnil ▸ halive)⟩

/-- Where something may be spawned, no `stop` has come further than reading the PID. -/
theorem Stopping.of_not_quiet (h : Stopping u s) (hq : ¬ Quiet u s) (hstops : s'.stops = s.stops)
    (hsettled : s'.settled = s.settled) (hwanted : s.wanted = false → s'.wanted = false) :
    Stopping u s' := by
  constructor
  · intro stop hstop hint
    rw [hstops] at hstop
    have hreached := h.stops stop hstop hint
    cases hstage : stop.stage with
    | reading =>
      rw [hstage] at hreached
      exact hwanted hreached
    | waiting pid =>
      rw [hstage] at hreached
      exact absurd hreached.1 hq
    | clearing =>
      rw [hstage] at hreached
      exact absurd hreached.1 hq
    | removing =>
      rw [hstage] at hreached
      exact absurd hreached.1 hq
  · intro hset
    rw [hsettled] at hset
    exact absurd (h.settled hset).1 hq

/-- A `stop` goes to a stage that it has reached. -/
theorem Stopping.set (h : Stopping u s) (i : ℕ) {stop : Stop}
    (hnew : stop.interrupted = false → Reached u s stop.stage) :
    Stopping u { s with stops := s.stops.set i stop } := by
  refine ⟨fun stop' hstop' hint => ?_, h.settled⟩
  rcases List.mem_or_eq_of_mem_set hstop' with hstop' | rfl
  · exact h.stops stop' hstop' hint
  · exact hnew hint

/-! ## Steps -/

/-- A step keeps the invariant, and a process that it spawns may be spawned. -/
def Good (u : Unit) (s s' : State) : Prop :=
  Inv u s' ∧ (Spawned s s' → ¬ s.settled ∧ (s'.fiber.isMain → Allowed u s))

theorem Inv.good (h : Inv u s') (heq : s'.nextPid = s.nextPid) : Good u s s' :=
  ⟨h, fun hne => absurd heq hne⟩

theorem Good.sound {e : Event} (h : Good u s (step u s e)) : Sound u s e where
  one := by
    rw [h.1.alive]
    cases (step u s e).fiber with
    | child stage pid status => cases status <;> simp [Fiber.alive]
    | _ => simp [Fiber.alive]
  policy hs hmain := (h.2 hs).2 hmain
  dead hset := (h.1.settled hset).2
  quiet hset hs := (h.2 hs).1 hset

/-- The supervision comes to rest, where no process was left. -/
theorem Inv.rest (h : Inv u s) (hnil : s.alive = []) {fiber : Fiber} (halive : fiber.alive = [])
    (hprep : fiber.preparing = false) (hsleep : fiber = .sleeping → Allowed u s)
    (hchild : ∀ stage pid status, fiber ≠ .child stage pid status) :
    Inv u { s with fiber } where
  toStopping := h.toStopping.of_le rfl rfl id
    (fun hq => ⟨hq.1, fun hor => hq.2 (.inr (hor.resolve_left (by simp [hprep])))⟩)
    (List.Sublist.refl _)
  alive := hnil.trans halive.symm
  prepared hp := by
    rw [hprep] at hp
    cases hp
  sleeping := hsleep
  exit stage pid code heq := absurd heq (hchild stage pid (some code))
  pre left pid status heq := absurd heq (hchild (.pre left) pid status)

/-- A process is spawned. -/
theorem Inv.spawn (h : Inv u s) (hnil : s.alive = []) (hq : ¬ Quiet u s) {stage : Stage}
    (hmain : stage.isMain → Allowed u s)
    (hpre : ∀ left, stage = .pre left → left < u.execStartPre.length ∧
      (Allowed u s ∨ u.type ≠ .oneshot ∧ s.wanted = false)) :
    Good u s (spawn stage s) := by
  refine ⟨⟨h.toStopping.of_not_quiet hq rfl rfl id, ?_, fun hp => ?_, ?_, ?_, ?_⟩,
    fun _ => ⟨fun hset => hq (h.settled hset).1, hmain⟩⟩
  · rw [Supervisor.spawn, hnil]
    rfl
  · cases stage with
    | pre left =>
      obtain ⟨_, hallowed⟩ := hpre left rfl
      simpa [Supervisor.spawn, Allowed, Stage.isMain] using hallowed
    | _ => cases hp
  · rintro ⟨⟩
  · rintro _ _ _ ⟨⟩
  · rintro left pid status heq
    cases heq
    exact (hpre left rfl).1

/-- The loop spawns the service, if it is wanted. -/
theorem Inv.loop (h : Inv u s) (hnil : s.alive = []) (hallowed : s.wanted → Allowed u s) :
    Good u s (loop s) := by
  rw [Supervisor.loop]
  split_ifs with hwanted
  · refine h.spawn hnil (fun hq => ?_) (fun _ => hallowed hwanted) (fun left heq => by cases heq)
    rw [hq.1] at hwanted
    cases hwanted
  · exact (h.rest hnil rfl rfl (fun heq => by cases heq) fun _ _ _ heq => by cases heq).good rfl

/-- What an adopted unit runs next. -/
theorem Inv.prepare (h : Inv u s) (hnil : s.alive = []) (hprep : s.fiber.preparing) {left : ℕ}
    (hleft : left ≤ u.execStartPre.length) : Good u s (prepare u left s) := by
  have hallowed := h.prepared hprep
  have hplain : Quiet u s → Plain u := fun hq => hq.2 (.inl hprep)
  cases left with
  | zero =>
    rw [Supervisor.prepare]
    split_ifs with htype
    · have hmay : Allowed u s := hallowed.resolve_right fun hand => hand.1 htype
      exact h.spawn hnil (fun hq => (hplain hq).1 htype) (fun _ => hmay) fun left heq => by cases heq
    · refine h.loop hnil fun hwanted => hallowed.resolve_right fun hand => ?_
      rw [hand.2] at hwanted
      cases hwanted
  | succ left =>
    refine h.spawn hnil (fun hq => ?_) (fun hmain => by cases hmain) fun left' heq => ?_
    · rw [(hplain hq).2] at hleft
      cases hleft
    · cases heq
      exact ⟨hleft, hallowed⟩

theorem quiet_died (hq : Quiet u s) (code : ℤ) : Quiet u (died code s) := by
  rw [died]
  split
  · next stage pid hfiber =>
    refine ⟨hq.1, fun hor => hq.2 ?_⟩
    rw [hfiber]
    cases stage <;> exact hor
  · exact hq

/-- The process ends. -/
theorem Inv.died (h : Inv u s) (code : ℤ) : Inv u (died code s) ∧ (died code s).alive = [] ∧
    (died code s).nextPid = s.nextPid := by
  have hquiet : Quiet u s → Quiet u (Supervisor.died code s) := fun hq => quiet_died hq code
  rw [Supervisor.died] at hquiet ⊢
  split
  · next stage pid hfiber =>
    have halive : s.alive = [pid] := by rw [h.alive, hfiber]; rfl
    have hnil : s.alive.erase pid = [] := by simp [halive]
    rw [hfiber] at hquiet
    refine ⟨⟨h.toStopping.of_le rfl rfl id hquiet List.erase_sublist, hnil, fun hp => ?_,
      (fun heq => by cases heq), ?_, ?_⟩, hnil, rfl⟩
    · cases stage with
      | pre left =>
        have hallowed := h.prepared (by rw [hfiber]; rfl)
        simpa [Allowed, Stage.isMain] using hallowed
      | _ => cases hp
    · rintro _ _ _ ⟨⟩ hmain
      exact if_pos hmain
    · rintro left pid' status heq
      cases heq
      exact h.pre left pid none hfiber
  · next hno =>
    refine ⟨h, ?_, rfl⟩
    rw [h.alive]
    cases hfiber : s.fiber with
    | child stage pid status =>
      cases status with
      | none => exact absurd hfiber (hno stage pid)
      | some code => rfl
    | _ => rfl

/-- The supervisor learns that its process has ended. -/
theorem Inv.observed (h : Inv u s) {stage : Stage} {pid : ℕ} {code : ℤ}
    (hfiber : s.fiber = .child stage pid (some code)) : Good u s (observed u stage code s) := by
  have hnil : s.alive = [] := by rw [h.alive, hfiber]; rfl
  cases stage with
  | pre left =>
    rw [Supervisor.observed]
    split_ifs
    · exact (h.rest hnil rfl rfl (fun heq => by cases heq) fun _ _ _ heq => by cases heq).good rfl
    · exact h.prepare hnil (by rw [hfiber]; rfl) (Nat.le_of_lt (h.pre left pid _ hfiber))
  | oneshot =>
    have hrest : Inv u { s with fiber := .dropping } :=
      h.rest hnil rfl rfl (fun heq => by cases heq) fun _ _ _ heq => by cases heq
    exact Inv.good { hrest with stops := hrest.stops, settled := hrest.settled } rfl
  | spawned => exact h.good rfl
  | running =>
    rw [Supervisor.observed]
    split_ifs with hand
    · refine (h.rest hnil rfl rfl (fun _ => ?_) fun _ _ _ heq => by cases heq).good rfl
      have hrestart := hand.2
      rw [shouldRestart, Bool.or_eq_true, Bool.and_eq_true] at hrestart
      rcases hrestart with halways | ⟨hfail, hcode⟩
      · exact .inr (.inl (of_decide_eq_true halways))
      · exact .inr (.inr ⟨of_decide_eq_true hfail, code, h.exit _ pid code hfiber rfl,
          of_decide_eq_true hcode⟩)
    · exact (h.rest hnil rfl rfl (fun heq => by cases heq) fun _ _ _ heq => by cases heq).good rfl

/-- The unit is started: no `stop` speaks of it any more. -/
theorem Inv.start (h : Inv u s) : Inv u (step u s .start) where
  stops stop hstop hint := by
    obtain ⟨_, _, rfl⟩ := List.mem_map.1 hstop
    cases hint
  settled hset := by cases hset
  alive := h.alive
  prepared _ := .inl (.inl rfl)
  sleeping _ := .inl rfl
  exit := h.exit
  pre := h.pre

/-- The marker is removed. -/
theorem Inv.unwant (h : Inv u s) : Inv u { s with wanted := false } where
  toStopping := h.toStopping.of_le rfl rfl (fun _ => rfl) (fun hq => ⟨rfl, hq.2⟩)
    (List.Sublist.refl _)
  alive := h.alive
  prepared hp := (h.prepared hp).imp_right fun hand => ⟨hand.1, rfl⟩
  sleeping := h.sleeping
  exit := h.exit
  pre := h.pre

/-- A pass comes to the unit. -/
theorem Inv.adopt (h : Inv u s) (hcareful : Careful u s .adopt) : Inv u (step u s .adopt) := by
  rw [step]
  split_ifs with hscans hidle
  · exact h
  · refine ⟨h.toStopping.of_le rfl rfl id (fun hq => ⟨hq.1, fun _ => hq.2 (.inr hscans)⟩)
      (List.Sublist.refl _), ?_, fun _ => hcareful hscans hidle, ?_, ?_, ?_⟩
    · rw [h.alive, hidle]
      rfl
    · rintro ⟨⟩
    · rintro _ _ _ ⟨⟩
    · rintro _ _ _ ⟨⟩
  · exact { h with
      toStopping := h.toStopping.of_le rfl rfl id
        (fun hq => ⟨hq.1, fun hor => hq.2 (hor.imp_right fun hne heq => hne (by simp [heq]))⟩)
        (List.Sublist.refl _) }

/-- A pass reads the markers. -/
theorem Inv.scan (h : Inv u s) : Inv u (step u s .scan) := by
  rw [step]
  split_ifs with hwanted
  · refine { h with
      toStopping := h.toStopping.of_le rfl rfl id (fun hq => ?_) (List.Sublist.refl _) }
    rw [hq.1] at hwanted
    cases hwanted
  · exact h

/-- The PID is recorded. -/
theorem Inv.recorded (h : Inv u s) : Inv u (step u s .recorded) := by
  rw [step]
  split
  · next pid status hfiber =>
    refine ⟨h.toStopping.of_le rfl rfl id (fun hq => ⟨hq.1, fun hor => hq.2 ?_⟩)
      (List.Sublist.refl _), ?_, ?_, ?_, ?_, ?_⟩
    · rw [hfiber]
      exact hor
    · rw [h.alive, hfiber]
      cases status <;> rfl
    · rintro ⟨⟩
    · rintro ⟨⟩
    · rintro _ _ code ⟨⟩ _
      exact h.exit .spawned pid code hfiber rfl
    · rintro _ _ _ ⟨⟩
  · exact h

/-- The supervision ends. -/
theorem Inv.finish (h : Inv u s) : Inv u (step u s .finish) := by
  rw [step]
  split
  · next hfiber =>
    have hnil : s.alive = [] := by rw [h.alive, hfiber]; rfl
    have hrest : Inv u { s with fiber := .idle } :=
      h.rest hnil rfl rfl (fun heq => by cases heq) fun _ _ _ heq => by cases heq
    exact { hrest with stops := hrest.stops, settled := hrest.settled }
  · next hfiber =>
    have hnil : s.alive = [] := by rw [h.alive, hfiber]; rfl
    have hrest : Inv u { s with fiber := .idle } :=
      h.rest hnil rfl rfl (fun heq => by cases heq) fun _ _ _ heq => by cases heq
    exact hrest.unwant
  · exact h

/-! ## Stops -/

/-- A `stop` begins. -/
theorem Inv.stop (h : Inv u s) : Inv u (step u s .stop) where
  stops stop hstop hint := by
    rcases List.mem_append.1 hstop with hstop | hstop
    · exact h.unwant.stops stop hstop hint
    · rw [List.mem_singleton.1 hstop]
      rfl
  settled := h.unwant.settled
  alive := h.unwant.alive
  prepared := h.unwant.prepared
  sleeping := h.unwant.sleeping
  exit := h.unwant.exit
  pre := h.unwant.pre

/-- A `stop` goes on. -/
theorem Inv.proceed (h : Inv u s) {i : ℕ} {deadline : Bool}
    (hcareful : Careful u s (.proceed i deadline)) {stop : Stop} (hstop : s.stops[i]? = some stop) :
    Inv u (proceed i stop deadline s) ∧ (proceed i stop deadline s).nextPid = s.nextPid := by
  have hmem : stop ∈ s.stops := List.mem_of_getElem? hstop
  have hreached := h.stops stop hmem
  have hread := hcareful stop hstop
  obtain ⟨stage, interrupted⟩ := stop
  cases stage with
  | reading =>
    -- The process that is alive is the one whose PID is read.
    have hquiet : interrupted = false → Quiet u s := fun hint =>
      ⟨hreached hint, (hread rfl hint).2⟩
    cases hpid : s.pidFile.filter (· ∈ s.alive) with
    | some pid =>
      have hproc : Supervisor.proceed i ⟨.reading, interrupted⟩ deadline s =
          { s with stops := s.stops.set i ⟨.waiting pid, interrupted⟩ } := by
        simp only [Supervisor.proceed, hpid]
      rw [hproc]
      refine ⟨{ h with toStopping := h.toStopping.set i fun hint => ⟨hquiet hint, ?_⟩ }, rfl⟩
      intro pid' hpid'
      rw [(hread rfl hint).1 pid' hpid'] at hpid
      exact Option.some.inj (Option.filter_eq_some_iff.1 hpid).1
    | none =>
      have hproc : Supervisor.proceed i ⟨.reading, interrupted⟩ deadline s =
          { s with stops := s.stops.set i ⟨.clearing, interrupted⟩ } := by
        simp only [Supervisor.proceed, hpid]
      rw [hproc]
      refine ⟨{ h with toStopping := h.toStopping.set i fun hint => ⟨hquiet hint, ?_⟩ }, rfl⟩
      refine List.eq_nil_iff_forall_not_mem.2 fun pid' hpid' => ?_
      rw [(hread rfl hint).1 pid' hpid'] at hpid
      simp [hpid'] at hpid
  | waiting pid =>
    by_cases halive : pid ∈ s.alive
    · cases deadline with
      | true =>
        have hproc : Supervisor.proceed i ⟨.waiting pid, interrupted⟩ true s =
            { Supervisor.died 137 s with
              stops := (Supervisor.died 137 s).stops.set i ⟨.clearing, interrupted⟩ } := by
          simp [Supervisor.proceed, halive]
        obtain ⟨hdied, hnil, hnext⟩ := h.died 137
        rw [hproc]
        exact ⟨{ hdied with toStopping := hdied.toStopping.set i fun hint =>
          ⟨quiet_died (hreached hint).1 137, hnil⟩ }, hnext⟩
      | false =>
        have hproc : Supervisor.proceed i ⟨.waiting pid, interrupted⟩ false s = s := by
          simp [Supervisor.proceed, halive]
        rw [hproc]
        exact ⟨h, rfl⟩
    · have hproc : Supervisor.proceed i ⟨.waiting pid, interrupted⟩ deadline s =
          { s with stops := s.stops.set i ⟨.clearing, interrupted⟩ } := by
        simp [Supervisor.proceed, halive]
      rw [hproc]
      refine ⟨{ h with toStopping := h.toStopping.set i fun hint => ⟨(hreached hint).1, ?_⟩ }, rfl⟩
      exact List.eq_nil_iff_forall_not_mem.2 fun pid' hpid' =>
        halive ((hreached hint).2 pid' hpid' ▸ hpid')
  | clearing =>
    have hset : Stopping u { s with stops := s.stops.set i ⟨.removing, interrupted⟩ } :=
      h.toStopping.set i hreached
    exact ⟨{ h with stops := hset.stops, settled := hset.settled }, rfl⟩
  | removing =>
    refine ⟨{ h with
      stops := fun stop' hstop' => h.stops stop' (List.mem_of_mem_eraseIdx hstop')
      settled := fun hset => ?_ }, rfl⟩
    rcases Bool.or_eq_true_iff.1 hset with hset | hint
    · exact h.settled hset
    · exact hreached (by simpa using hint)

/-- One step of a careful run. -/
theorem good_step (h : Inv u s) {e : Event} (hcareful : Careful u s e) : Good u s (step u s e) := by
  cases e with
  | start => exact h.start.good rfl
  | disable => exact h.unwant.good rfl
  | scan =>
    refine h.scan.good ?_
    rw [step]
    split_ifs <;> rfl
  | adopt =>
    refine (h.adopt hcareful).good ?_
    rw [step]
    split_ifs <;> rfl
  | resolved runnable =>
    rw [step]
    by_cases hfiber : s.fiber = .resolving
    · have hnil : s.alive = [] := by rw [h.alive, hfiber]; rfl
      rw [if_pos hfiber]
      cases runnable with
      | true => exact h.prepare hnil (by rw [hfiber]; rfl) (Nat.le_refl _)
      | false =>
        exact (h.rest hnil rfl rfl (fun heq => by cases heq) fun _ _ _ heq => by cases heq).good rfl
    · rw [if_neg hfiber]
      exact h.good rfl
  | exit code =>
    obtain ⟨hdied, _, hnext⟩ := h.died code
    exact hdied.good hnext
  | observe =>
    rw [step]
    split
    · next hfiber => exact h.observed hfiber
    · exact h.good rfl
  | recorded =>
    refine h.recorded.good ?_
    rw [step]
    split <;> rfl
  | wake =>
    rw [step]
    by_cases hfiber : s.fiber = .sleeping
    · have hnil : s.alive = [] := by rw [h.alive, hfiber]; rfl
      rw [if_pos hfiber]
      exact h.loop hnil fun _ => h.sleeping hfiber
    · rw [if_neg hfiber]
      exact h.good rfl
  | finish =>
    refine h.finish.good ?_
    rw [step]
    split <;> rfl
  | stop => exact h.stop.good rfl
  | proceed i deadline =>
    rw [step]
    cases hstop : s.stops[i]? with
    | none => exact h.good rfl
    | some stop =>
      obtain ⟨hinv, hnext⟩ := h.proceed hcareful hstop
      exact hinv.good hnext

theorem inv_start (u : Unit) : Inv u .start where
  stops _ hstop := absurd hstop List.not_mem_nil
  settled hset := by cases hset
  alive := rfl
  prepared hp := by cases hp
  sleeping heq := by cases heq
  exit _ _ _ heq := by cases heq
  pre _ _ _ heq := by cases heq

/-- Every step of a careful run is sound. -/
theorem supervised_of_careful (u : Unit) (es : List Event)
    (hcareful : Along (step u) (Careful u) .start es) : Along (step u) (Sound u) .start es :=
  along_of_inv (fun s _ (h : Inv u s) he => ⟨(good_step h he).sound, (good_step h he).1⟩)
    (inv_start u) hcareful

/-- A service that is not restarted. -/
def sampleUnit : Unit := ⟨.simple, [], .no, false⟩

/-- It is started, stopped while it runs, and ends. -/
theorem supervised_of_careful_sampleUnit : Along (step sampleUnit) (Sound sampleUnit) .start
    [.start, .scan, .adopt, .resolved true, .recorded, .stop, .proceed 0 false, .exit 0,
      .proceed 0 false, .proceed 0 false, .proceed 0 false, .observe, .finish] := by
  refine supervised_of_careful sampleUnit _ ⟨trivial, trivial, fun _ _ => .inl (.inl rfl), trivial,
    trivial, trivial, ?_, trivial, ?_, ?_, ?_, trivial, trivial, trivial⟩
  · rintro _ ⟨⟩ _ _
    exact ⟨fun pid hpid => by rw [List.mem_singleton.1 hpid]; rfl, fun _ => ⟨nofun, rfl⟩⟩
  · rintro _ ⟨⟩ ⟨⟩
  · rintro _ ⟨⟩ ⟨⟩
  · rintro _ ⟨⟩ ⟨⟩

/-- It ends by itself, its marker is left, and the next pass runs it again. -/
theorem not_supervised : ¬ ∀ u es, Along (step u) (Sound u) .start es := by
  intro h
  have hagain := (h sampleUnit [.start, .scan, .adopt, .resolved true, .recorded, .exit 0, .observe,
    .finish, .scan, .adopt, .resolved true]).2.2.2.2.2.2.2.2.2.2.1
  rcases hagain.policy (by decide) rfl with hstarted | halways | ⟨hfail, _⟩
  · cases hstarted
  · cases halways
  · cases hfail

end ComputeContract.Supervisor
