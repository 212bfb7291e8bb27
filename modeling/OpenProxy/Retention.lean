import OpenProxy.Lib.Transition

/-!
# Retention and the compaction worker (`reconfigure_retention`, `append`, `request_compaction`,
`start_pending_compaction` of `history.rs`)

A history with a canonical store. Any number of calls and worker passes are in progress; each
lock-protected section and each atomic access is one step of one of them. What the store answers (its
last timestamp, the outcome of a compaction) is the label's choice, with one exception: the closure handed
to `compact_if_authorized` decides between a commit and `Superseded`.

An indexed point is its timestamp here: retention looks at nothing else.
-/

namespace OpenProxy.Retention

open Transition

def compactAfterExpiredSamples : Nat := 288

/-- `t.saturating_sub(days.saturating_mul(86_400))`. -/
def cutoffAt (t days : Nat) : Nat := t - days * 86400

/-- The result of `compact_if_authorized`. -/
inductive Outcome where
  | durable
  | deferred
  | superseded
  | committedSyncPending
  | failed
  deriving DecidableEq, Repr

/-- Who called `start_pending_compaction`. -/
inductive Caller where
  | append
  | reconfigure (days : Nat)
  | worker
  deriving DecidableEq, Repr

/-- What a worker pass captured before it was spawned. -/
structure Pass where
  generation : Nat
  cutoff : Nat
  claimedDrops : Nat
  deriving DecidableEq, Repr

/-- The next step of a call or of a worker pass. -/
inductive Pc where
  | appendInner (t : Nat) (canonicalLast : Option Nat)
  | appendStore (t days : Nat)
  | appendPending (t days : Nat)
  | appendDropped (t days : Nat)
  | reconfigurePrune (days cutoff : Nat)
  | request (caller : Caller) (cutoff : Nat)
  | startPending (caller : Caller)
  | startRunning (caller : Caller)
  | startGeneration (caller : Caller)
  | startCutoff (caller : Caller) (generation : Nat)
  | startDrops (caller : Caller) (generation cutoff : Nat)
  | workerRevision (p : Pass)
  | workerCompact (p : Pass) (innerRevision : Nat)
  | workerInstall (p : Pass) (innerRevision : Nat) (durable : Bool)
  | workerDrops (p : Pass)
  | workerGeneration (p : Pass)
  | workerClear (p : Pass)
  | workerRecheck (p : Pass)
  | workerDays (p : Pass)
  | workerRearm (p : Pass)
  | workerStop (p : Pass) (outcome : Outcome)
  | workerSyncGeneration (p : Pass)
  | workerSyncDays
  | workerSyncPending
  | workerReload
  deriving DecidableEq, Repr

/-- The shared fields of `History`. -/
structure Shared where
  days : Nat
  droppedSinceCompact : Nat
  compactionPending : Bool
  compactionRunning : Bool
  compactionCutoff : Nat
  compactionGeneration : Nat
  controlGeneration : Nat
  points : List Nat
  revision : Nat
  /-- The days set by the `reconfigure_retention` call that returned last. -/
  returned : Option Nat
  deriving DecidableEq, Repr

structure State where
  shared : Shared
  tasks : List Pc
  deriving DecidableEq, Repr

/-- `History::open`: `needed` is `compaction_needed` of the store at the opening cutoff. -/
def start (days openedAt : Nat) (needed : Bool) (points : List Nat) (revision : Nat) : State where
  tasks := []
  shared :=
    let pending := decide (0 < days) && needed
    { days, points, revision
      droppedSinceCompact := 0
      compactionPending := pending
      compactionRunning := false
      compactionCutoff := if 0 < days then cutoffAt openedAt days else 0
      compactionGeneration := pending.toNat
      controlGeneration := pending.toNat
      returned := none }

/-! ### Steps -/

/-- A call ends. -/
def Shared.ret (m : Shared) : Caller → Shared
  | .reconfigure days => { m with returned := some days }
  | .append | .worker => m

def wrappingSucc (n : Nat) : Nat := (n + 1) % 2 ^ 64

/-- `reconfigure_retention(0, _)`: one section under `compaction_control`, after which the call returns. -/
def Shared.setUnlimited (m : Shared) : Shared :=
  { m with
    days := 0
    compactionGeneration := wrappingSucc m.compactionGeneration
    controlGeneration := wrappingSucc m.compactionGeneration
    compactionPending := false
    returned := some 0 }

/-- The section of `append` under `inner`, with the timestamp and the days it goes on with. -/
def Shared.appendInner (m : Shared) (t : Nat) (canonicalLast : Option Nat) : Shared × Nat :=
  let t := max (max t (m.points.getLast?.getD 0)) (canonicalLast.getD 0)
  let kept := if 0 < m.days then m.points.filter (cutoffAt t m.days ≤ ·) else m.points
  ({ m with
      points := kept ++ [t]
      droppedSinceCompact := m.droppedSinceCompact + (m.points.length - kept.length)
      revision := wrappingSucc m.revision }, t)

/-- The section of `reconfigure_retention` under `inner`. -/
def Shared.prune (m : Shared) (cutoff : Nat) : Shared :=
  let kept := m.points.filter (cutoff ≤ ·)
  let removed := m.points.length - kept.length
  { m with
    points := kept
    droppedSinceCompact := m.droppedSinceCompact + removed
    revision := if 0 < removed then wrappingSucc m.revision else m.revision }

/-- The section of `request_compaction` under `compaction_control`. -/
def Shared.request (m : Shared) (cutoff : Nat) : Shared :=
  { m with
    compactionCutoff := cutoff
    compactionGeneration := wrappingSucc m.compactionGeneration
    controlGeneration := wrappingSucc m.compactionGeneration
    compactionPending := true }

/-- The closure a pass of the given generation hands to `compact_if_authorized`. -/
def Shared.authorizes (m : Shared) (generation : Nat) : Bool :=
  m.controlGeneration == generation && m.compactionGeneration == generation && m.compactionPending &&
    decide (0 < m.days)

/-- Whether the store can answer `outcome`. It can defer or fail without asking for authorization. -/
def Shared.answers (m : Shared) (generation : Nat) : Outcome → Bool
  | .durable | .committedSyncPending => m.authorizes generation
  | .superseded => !m.authorizes generation
  | .deferred | .failed => true

/-- One step of a task: the shared fields after it and the task's next step, `none` when it returns. The
pass that `start_pending_compaction` spawns takes the place of the task that spawned it. -/
def run (m : Shared) (outcome : Outcome) : Pc → Option (Shared × Option Pc)
  | .appendInner t canonicalLast =>
    let (m', t) := m.appendInner t canonicalLast
    some (m', some (.appendStore t m.days))
  | .appendStore t days => some (m, if 0 < days then some (.appendPending t days) else none)
  | .appendPending t days =>
    some (m, some (if m.compactionPending then .request .append (cutoffAt t days) else .appendDropped t days))
  | .appendDropped t days =>
    some (m, if compactAfterExpiredSamples < m.droppedSinceCompact then
      some (.request .append (cutoffAt t days)) else none)
  | .reconfigurePrune days cutoff => some (m.prune cutoff, some (.request (.reconfigure days) cutoff))
  | .request caller cutoff => some (m.request cutoff, some (.startPending caller))
  | .startPending caller =>
    if m.compactionPending then some (m, some (.startRunning caller)) else some (m.ret caller, none)
  | .startRunning caller =>
    if m.compactionRunning then some (m.ret caller, none)
    else some ({ m with compactionRunning := true }, some (.startGeneration caller))
  | .startGeneration caller => some (m, some (.startCutoff caller m.compactionGeneration))
  | .startCutoff caller generation => some (m, some (.startDrops caller generation m.compactionCutoff))
  | .startDrops caller generation cutoff =>
    some (m.ret caller, some (.workerRevision ⟨generation, cutoff, m.droppedSinceCompact⟩))
  | .workerRevision p => some (m, some (.workerCompact p m.revision))
  | .workerCompact p innerRevision =>
    if m.answers p.generation outcome then
      match outcome with
      | .durable => some (m, some (.workerInstall p innerRevision true))
      | .committedSyncPending => some (m, some (.workerInstall p innerRevision false))
      | .deferred | .superseded | .failed => some (m, some (.workerStop p outcome))
    else none
  | .workerInstall p innerRevision durable =>
    -- `install_canonical_replay_if_unchanged`
    let m' := if m.revision = innerRevision then { m with revision := wrappingSucc m.revision } else m
    some (m', some (if durable then .workerDrops p else .workerStop p .committedSyncPending))
  | .workerDrops p =>
    some ({ m with droppedSinceCompact := m.droppedSinceCompact - p.claimedDrops }, some (.workerGeneration p))
  | .workerGeneration p =>
    some (m, some (if m.compactionGeneration = p.generation then .workerClear p else .workerStop p .durable))
  | .workerClear p => some ({ m with compactionPending := false }, some (.workerRecheck p))
  | .workerRecheck p =>
    some (m, some (if m.compactionGeneration = p.generation then .workerStop p .durable else .workerDays p))
  | .workerDays p => some (m, some (if 0 < m.days then .workerRearm p else .workerStop p .durable))
  | .workerRearm p => some ({ m with compactionPending := true }, some (.workerStop p .durable))
  | .workerStop p outcome =>
    some ({ m with compactionRunning := false },
      match outcome with
      | .durable | .superseded => some .workerReload
      | .committedSyncPending => some (.workerSyncGeneration p)
      | .deferred | .failed => none)
  | .workerSyncGeneration p =>
    some (m, if m.compactionGeneration = p.generation then none else some .workerSyncDays)
  | .workerSyncDays => some (m, if 0 < m.days then some .workerSyncPending else none)
  | .workerSyncPending => some (m, if m.compactionPending then some .workerReload else none)
  | .workerReload => some (m, if m.compactionPending then some (.startPending .worker) else none)

inductive Op where
  /-- `append` is called and reads the store's last timestamp. -/
  | append (t : Nat) (canonicalLast : Option Nat)
  /-- `reconfigure_retention` is called; it stores the days, and for 0 runs to its end. -/
  | reconfigure (days now : Nat)
  /-- Task `i` takes its next step; `outcome` is read by a compaction only. -/
  | task (i : Nat) (outcome : Outcome)
  deriving DecidableEq, Repr

def step (s : State) : Op → Option State
  | .append t canonicalLast => some { s with tasks := s.tasks ++ [.appendInner t canonicalLast] }
  | .reconfigure 0 _ => some { s with shared := s.shared.setUnlimited }
  | .reconfigure days now =>
    some { shared := { s.shared with days := days }
           tasks := s.tasks ++ [.reconfigurePrune days (cutoffAt now days)] }
  | .task i outcome => do
    let pc ← s.tasks[i]?
    let (m, next) ← run s.shared outcome pc
    return { shared := m
             tasks := match next with
               | some pc' => s.tasks.set i pc'
               | none => s.tasks.eraseIdx i }

/-! ### What the steps can do -/

def Caller.retunes? : Caller → Option Nat
  | .reconfigure days => some days
  | .append | .worker => none

/-- The days of the finite `reconfigure_retention` call that takes the step. -/
def Pc.retunes? : Pc → Option Nat
  | .reconfigurePrune days _ => some days
  | .request caller _ | .startPending caller | .startRunning caller | .startGeneration caller
  | .startCutoff caller _ | .startDrops caller _ _ => caller.retunes?
  | _ => none

/-- The steps outside `reconfigure_retention` that set `compaction_pending`. -/
def Pc.arms : Pc → Bool
  | .request caller _ => caller.retunes?.isNone
  | .workerRearm _ => true
  | _ => false

/-- Past the look at `compaction_pending` in `start_pending_compaction`. -/
def Pc.starting : Pc → Bool
  | .startRunning _ | .startGeneration _ | .startCutoff _ _ | .startDrops _ _ _ => true
  | _ => false

def Pc.spawns : Pc → Bool
  | .startDrops _ _ _ => true
  | _ => false

/-- `append` requests compaction, and a worker re-arms it, only while the retention is finite. -/
def Timely (s : State) : Op → Prop
  | .task i _ => ∀ pc ∈ s.tasks[i]?, pc.arms = true → 0 < s.shared.days
  | _ => True

instance (s : State) : DecidablePred (Timely s) := fun op => by
  cases op <;> unfold Timely <;> infer_instance

/-- The worker passes a run starts. -/
def passes : State → List Op → Nat
  | _, [] => 0
  | s, op :: ops =>
    (match op with
      | .task i _ => (s.tasks[i]?.any Pc.spawns).toNat
      | _ => 0) +
    match step s op with
    | some s' => passes s' ops
    | none => 0

/-- The call to retune a finite retention. -/
def Op.finite : Op → Bool
  | .reconfigure (_ + 1) _ => true
  | _ => false

theorem step_task {s s' : State} {i : Nat} {outcome : Outcome} (h : step s (.task i outcome) = some s') :
    ∃ pc next rest, s.tasks[i]? = some pc ∧ run s.shared outcome pc = some (s'.shared, next) ∧
      s.tasks.Perm (pc :: rest) ∧ s'.tasks.Perm (next.toList ++ rest) := by
  obtain ⟨pc, hpc, h⟩ := Option.bind_eq_some_iff.1 h
  obtain ⟨⟨m, next⟩, hrun, h⟩ := Option.bind_eq_some_iff.1 h
  obtain rfl := Option.some.inj h
  obtain ⟨hi, rfl⟩ := List.getElem?_eq_some_iff.1 hpc
  refine ⟨_, next, s.tasks.eraseIdx i, hpc, hrun, (List.getElem_cons_eraseIdx_perm hi).symm, ?_⟩
  cases next with
  | none => exact .refl _
  | some pc' => exact List.set_perm_cons_eraseIdx hi pc'

section
variable {m m' : Shared} {outcome : Outcome} {pc : Pc} {next : Option Pc}

@[simp] theorem ret_days (caller : Caller) : (m.ret caller).days = m.days := by cases caller <;> rfl

@[simp] theorem ret_compactionPending (caller : Caller) :
    (m.ret caller).compactionPending = m.compactionPending := by cases caller <;> rfl

@[simp] theorem ret_returned (caller : Caller) :
    (m.ret caller).returned = caller.retunes?.or m.returned := by cases caller <;> rfl

theorem run_days (h : run m outcome pc = some (m', next)) : m'.days = m.days := by
  cases pc <;> simp only [run] at h
  case workerCompact =>
    split at h
    · split at h <;> (cases h; rfl)
    · cases h
  case workerInstall => cases h; split <;> rfl
  case startPending => split at h <;> (cases h; simp)
  case startRunning => split at h <;> (cases h; simp)
  case startDrops => cases h; simp
  all_goals (cases h; rfl)

/-- A finite `reconfigure_retention` goes on, or returns and is then the last one that did. -/
theorem run_retunes (h : run m outcome pc = some (m', next)) :
    (next.bind Pc.retunes? = pc.retunes? ∧ m'.returned = m.returned) ∨
      (next.bind Pc.retunes? = none ∧ m'.returned = pc.retunes?.or m.returned) := by
  cases pc <;> simp only [run] at h
  case workerCompact =>
    split at h
    · split at h <;> (cases h; exact .inl ⟨rfl, rfl⟩)
    · cases h
  case workerInstall => cases h; left; constructor <;> split <;> rfl
  case startPending =>
    split at h <;> cases h
    · exact .inl ⟨rfl, rfl⟩
    · exact .inr ⟨rfl, ret_returned _⟩
  case startRunning =>
    split at h <;> cases h
    · exact .inr ⟨rfl, ret_returned _⟩
    · exact .inl ⟨rfl, rfl⟩
  case startDrops => cases h; exact .inr ⟨rfl, ret_returned _⟩
  all_goals
    cases h
    left
    refine ⟨?_, rfl⟩
    first | rfl | (split <;> rfl)

theorem run_pending (h : run m outcome pc = some (m', next)) (hm : m.compactionPending = false)
    (harms : pc.arms = false) (hr : pc.retunes? = none) : m'.compactionPending = false := by
  cases pc <;> simp only [run] at h
  case workerCompact =>
    split at h
    · split at h <;> (cases h; exact hm)
    · cases h
  case workerInstall => cases h; split <;> exact hm
  case startPending => split at h <;> (cases h; simpa using hm)
  case startRunning => split at h <;> (cases h; simpa using hm)
  case startDrops => cases h; simpa using hm
  case request caller cutoff =>
    simp only [Pc.retunes?] at hr
    simp [Pc.arms, hr] at harms
  case workerRearm => simp [Pc.arms] at harms
  case workerClear => cases h; rfl
  all_goals (cases h; exact hm)

/-- With nothing pending no task gets past the look at `compaction_pending`. -/
theorem run_starting (h : run m outcome pc = some (m', next)) (hm : m.compactionPending = false) :
    pc.spawns.toNat + (next.any Pc.starting).toNat ≤ pc.starting.toNat := by
  cases pc <;> simp only [run, hm, if_false, Bool.false_eq_true] at h
  case workerCompact =>
    split at h
    · split at h <;> (cases h; exact Nat.le_refl 0)
    · cases h
  case startRunning => split at h <;> (cases h; simp [Pc.spawns, Pc.starting])
  case startDrops | startGeneration | startCutoff => cases h; exact Nat.le_refl 1
  all_goals
    cases h
    first | exact Nat.le_refl 0 | (split <;> exact Nat.le_refl 0)

end

/-! ### Runs -/

/-- No finite `reconfigure_retention` call is in progress. -/
def Settled (s : State) : Prop := ∀ pc ∈ s.tasks, pc.retunes? = none

instance : DecidablePred Settled := fun s =>
  inferInstanceAs (Decidable (∀ pc ∈ s.tasks, pc.retunes? = none))

structure Inv (s : State) : Prop where
  finite : ∀ pc ∈ s.tasks, ∀ days, pc.retunes? = some days → 0 < days
  unlimited : s.shared.returned = some 0 → Settled s →
    s.shared.days = 0 ∧ s.shared.compactionPending = false

theorem start_inv (days openedAt : Nat) (needed : Bool) (points : List Nat) (revision : Nat) :
    Inv (start days openedAt needed points revision) :=
  ⟨fun _ h => absurd h List.not_mem_nil, fun h => by cases h⟩

theorem step_inv {s s' : State} {op : Op} (hI : Inv s) (hC : Timely s op) (h : step s op = some s') :
    Inv s' := by
  cases op with
  | append t canonicalLast =>
    cases h
    refine ⟨fun pc hpc days hd => ?_, fun h0 hs => hI.unlimited h0 fun pc hpc => ?_⟩
    · rcases List.mem_append.1 hpc with hpc | hpc
      · exact hI.finite pc hpc days hd
      · obtain rfl := List.mem_singleton.1 hpc
        cases hd
    · exact hs pc (List.mem_append_left _ hpc)
  | reconfigure days now =>
    cases days with
    | zero => cases h; exact ⟨hI.finite, fun _ _ => ⟨rfl, rfl⟩⟩
    | succ days =>
      cases h
      refine ⟨fun pc hpc d hd => ?_, fun _ hs => ?_⟩
      · rcases List.mem_append.1 hpc with hpc | hpc
        · exact hI.finite pc hpc d hd
        · obtain rfl := List.mem_singleton.1 hpc
          cases hd
          exact Nat.succ_pos days
      · cases hs _ (List.mem_append_right _ (List.mem_singleton.2 rfl))
  | task i outcome =>
    obtain ⟨pc, next, rest, hpc, hrun, hperm, hperm'⟩ := step_task h
    have hmem : pc ∈ s.tasks := hperm.mem_iff.2 List.mem_cons_self
    have hrest : ∀ pc' ∈ rest, pc' ∈ s.tasks := fun pc' h' => hperm.mem_iff.2 (List.mem_cons_of_mem _ h')
    have hnext : ∀ pc' ∈ next, pc' ∈ s'.tasks := fun pc' h' =>
      hperm'.mem_iff.2 (List.mem_append_left _ (Option.mem_toList.2 h'))
    refine ⟨fun pc' h' days hd => ?_, fun h0 hs => ?_⟩
    · rcases List.mem_append.1 (hperm'.mem_iff.1 h') with h' | h'
      · have hb : next.bind Pc.retunes? = some days := by
          rw [Option.mem_toList.1 h']; exact hd
        rcases run_retunes hrun with ⟨he, -⟩ | ⟨he, -⟩
        · exact hI.finite pc hmem days (he.symm.trans hb)
        · rw [he] at hb; cases hb
      · exact hI.finite pc' (hrest pc' h') days hd
    · have hb : next.bind Pc.retunes? = none := by
        cases next with
        | none => rfl
        | some pc' => exact hs pc' (hnext pc' rfl)
      have hr : pc.retunes? = none ∧ s'.shared.returned = s.shared.returned := by
        rcases run_retunes hrun with ⟨he, hret⟩ | ⟨-, hret⟩
        · exact ⟨he.symm.trans hb, hret⟩
        · cases hpr : pc.retunes? with
          | none => rw [hpr] at hret; exact ⟨rfl, hret⟩
          | some days =>
            -- a finite call that returned now set more than 0 days
            have := hI.finite pc hmem days hpr
            rw [hret, hpr] at h0
            cases h0
            omega
      have hset : Settled s := by
        intro pc' h'
        rcases List.mem_cons.1 (hperm.mem_iff.1 h') with rfl | h'
        · exact hr.1
        · exact hs pc' (hperm'.mem_iff.2 (List.mem_append_right _ h'))
      obtain ⟨hdays, hpend⟩ := hI.unlimited (hr.2.symm.trans h0) hset
      have harms : pc.arms = false := by
        by_contra harms
        have := hC pc hpc (eq_true_of_ne_false harms)
        omega
      exact ⟨(run_days hrun).trans hdays, run_pending hrun hpend harms hr.1⟩

/-- The tasks past the look at `compaction_pending`. -/
def State.starting (s : State) : Nat := s.tasks.countP Pc.starting

/-- Under unlimited retention every pass is started by a task that is about to start one already. -/
theorem passes_le {s s' : State} {ops : List Op} (hI : Inv s) (h0 : s.shared.returned = some 0)
    (hs : Settled s) (hfin : ∀ op ∈ ops, op.finite = false) (hC : Meets step Timely s ops)
    (h : exec step s ops = some s') : passes s ops ≤ s.starting := by
  induction ops generalizing s with
  | nil => exact Nat.zero_le _
  | cons op ops ih =>
    obtain ⟨s₁, h₁, h₂⟩ := exec_cons_eq_some.1 h
    have hI₁ := step_inv hI hC.1 h₁
    have hpend := (hI.unlimited h0 hs).2
    have ih := fun h0₁ hs₁ => ih hI₁ h0₁ hs₁ (fun op' h' => hfin op' (List.mem_cons_of_mem _ h'))
      (hC.2 s₁ h₁) h₂
    simp only [passes, h₁]
    cases op with
    | append t canonicalLast =>
      cases h₁
      have := ih h0 fun pc hpc => by
        rcases List.mem_append.1 hpc with hpc | hpc
        · exact hs pc hpc
        · rw [List.mem_singleton.1 hpc]; rfl
      simpa [State.starting, Pc.starting] using this
    | reconfigure days now =>
      cases days with
      | zero => cases h₁; simpa [State.starting] using ih rfl hs
      | succ days => cases hfin _ List.mem_cons_self
    | task i outcome =>
      obtain ⟨pc, next, rest, hpc, hrun, hperm, hperm'⟩ := step_task h₁
      have hr : pc.retunes? = none := hs pc (hperm.mem_iff.2 List.mem_cons_self)
      have hnext : next.bind Pc.retunes? = none ∧ s₁.shared.returned = s.shared.returned := by
        rcases run_retunes hrun with ⟨he, hret⟩ | ⟨he, hret⟩
        · exact ⟨he.trans hr, hret⟩
        · rw [hr] at hret; exact ⟨he, hret⟩
      have hs₁ : Settled s₁ := by
        intro pc' h'
        rcases List.mem_append.1 (hperm'.mem_iff.1 h') with h' | h'
        · rw [Option.mem_toList.1 h'] at hnext; exact hnext.1
        · exact hs pc' (hperm.mem_iff.2 (List.mem_cons_of_mem _ h'))
      have hle := run_starting hrun hpend
      have := ih (hnext.2.trans h0) hs₁
      have hc : s.starting = rest.countP Pc.starting + pc.starting.toNat := by
        rw [State.starting, hperm.countP_eq, List.countP_cons]
        cases pc.starting <;> rfl
      have hc₁ : s₁.starting = (next.any Pc.starting).toNat + rest.countP Pc.starting := by
        rw [State.starting, hperm'.countP_eq, List.countP_append]
        cases next with
        | none => rfl
        | some pc' => simp only [Option.toList_some, List.countP_singleton, Option.any_some]; cases pc'.starting <;> rfl
      simp only [hpc, Option.any_some]
      omega

/-- Once the last `reconfigure_retention` to return set 0 days and no other is in progress, compaction is
not pending, and however the history is used from there on (but for a call that sets a finite retention)
no more passes are started than were about to start. -/
theorem unlimited_idle {days openedAt revision : Nat} {needed : Bool} {points : List Nat} {ops : List Op}
    {s : State} (hC : Meets step Timely (start days openedAt needed points revision) ops)
    (h : exec step (start days openedAt needed points revision) ops = some s)
    (h0 : s.shared.returned = some 0) (hs : Settled s) :
    s.shared.compactionPending = false ∧
      ∀ more s', (∀ op ∈ more, op.finite = false) → Meets step Timely s more →
        exec step s more = some s' → passes s more ≤ s.starting := by
  have hI : Inv s := exec_invariant_of_meets (fun _ _ _ => step_inv)
    (start_inv days openedAt needed points revision) hC h
  exact ⟨(hI.unlimited h0 hs).2, fun more s' hfin hmore hexec => passes_le hI h0 hs hfin hmore hexec⟩

/-! ### A request made too late -/

def thirtyDays : State := start 30 10000000 true [] 0

/-- An append of a finite retention has seen a pending compaction; the retention is made unlimited before
the append requests it again. -/
def requestLate : List Op :=
  [.append 10000300 none, .task 0 .failed, .task 0 .failed, .task 0 .failed, .reconfigure 0 10000301] ++
    List.replicate 6 (.task 0 .failed)

/-- One pass of a worker whose closure refuses, up to the pass it starts. -/
def refusedPass : List Op :=
  [.task 0 .failed, .task 0 .superseded] ++ List.replicate 7 (.task 0 .failed)

theorem passes_append {s s' : State} {ops ops' : List Op} (h : exec step s ops = some s') :
    passes s (ops ++ ops') = passes s ops + passes s' ops' := by
  induction ops generalizing s with
  | nil => cases h; simp [passes]
  | cons op ops ih =>
    obtain ⟨s₁, h₁, h₂⟩ := exec_cons_eq_some.1 h
    simp only [List.cons_append, passes, h₁, ih h₂, Nat.add_assoc]

theorem passes_replicate {s : State} {ops : List Op} (h : exec step s ops = some s) (n : Nat) :
    exec step s (List.replicate n ops).flatten = some s ∧
      passes s (List.replicate n ops).flatten = n * passes s ops := by
  induction n with
  | zero => exact ⟨rfl, (Nat.zero_mul _).symm⟩
  | succ n ih =>
    rw [List.replicate_succ, List.flatten_cons]
    refine ⟨exec_append_eq_some.2 ⟨s, h, ih.1⟩, ?_⟩
    rw [passes_append h, ih.2, Nat.succ_mul]
    omega

/-- The state the race ends in: a worker pass is under way, asked for under unlimited retention. -/
def respawning : State where
  shared :=
    { days := 0
      droppedSinceCompact := 0
      compactionPending := true
      compactionRunning := true
      compactionCutoff := 7408300
      compactionGeneration := 3
      controlGeneration := 3
      points := [10000300]
      revision := 1
      returned := some 0 }
  tasks := [.workerRevision ⟨3, 7408300, 0⟩]

/-- The store defers: nothing is in progress and compaction stays pending. The closure refuses: the worker
respawns without end. -/
theorem not_unlimited_idle_requestLate :
    exec step thirtyDays requestLate = some respawning ∧ respawning.shared.returned = some 0 ∧
      Settled respawning ∧
      (∃ s, exec step respawning [.task 0 .failed, .task 0 .deferred, .task 0 .failed] = some s ∧
        s.tasks = [] ∧ s.shared.returned = some 0 ∧ s.shared.compactionPending = true) ∧
      ∀ n, ∃ more, (∀ op ∈ more, op.finite = false) ∧ exec step respawning more = some respawning ∧
        passes respawning more = n := by
  refine ⟨by decide +kernel, rfl, by decide +kernel, ⟨_, rfl, rfl, rfl, rfl⟩, fun n => ?_⟩
  have hpass : exec step respawning refusedPass = some respawning := by decide +kernel
  have hone : passes respawning refusedPass = 1 := by decide +kernel
  obtain ⟨hexec, hn⟩ := passes_replicate hpass n
  refine ⟨(List.replicate n refusedPass).flatten, fun op hop => ?_, hexec, ?_⟩
  · obtain ⟨ops, hops, hop⟩ := List.mem_flatten.1 hop
    obtain rfl := List.eq_of_mem_replicate hops
    exact (by decide +kernel : ∀ op ∈ refusedPass, op.finite = false) op hop
  · rw [hn, hone, Nat.mul_one]

/-- The append requests while the retention is still finite; the retention is made unlimited while the
worker runs. -/
def requestInTime : List Op :=
  [.append 10000300 none] ++ List.replicate 8 (.task 0 .failed) ++ [.reconfigure 0 10000301]

theorem unlimited_idle_requestInTime :
    ∃ s, exec step thirtyDays requestInTime = some s ∧ s.tasks ≠ [] ∧ s.shared.compactionPending = false ∧
      ∀ more s', (∀ op ∈ more, op.finite = false) → Meets step Timely s more →
        exec step s more = some s' → passes s more ≤ s.starting := by
  have hsome : (exec step thirtyDays requestInTime).isSome := by decide +kernel
  obtain ⟨s, hs⟩ := Option.isSome_iff_exists.1 hsome
  have hmap : ((exec step thirtyDays requestInTime).map fun s =>
      (s.shared.returned, s.tasks.map Pc.retunes?)) = some (some 0, [none]) := by decide +kernel
  rw [hs, Option.map_some, Option.some.injEq, Prod.mk.injEq] at hmap
  have hset : Settled s := by
    intro pc hpc
    have := List.mem_map_of_mem (f := Pc.retunes?) hpc
    rw [hmap.2] at this
    exact List.mem_singleton.1 this
  have hne : s.tasks ≠ [] := by
    intro h
    rw [h] at hmap
    cases hmap.2
  exact ⟨s, hs, hne, unlimited_idle (by decide +kernel) hs hmap.1 hset⟩

end OpenProxy.Retention
