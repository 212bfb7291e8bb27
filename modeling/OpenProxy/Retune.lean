import OpenProxy.Retention

/-!
# Which cutoff is compacted to in the end (`reconfigure_retention`, `append`, `request_compaction`)

The pending cutoff is one cell. `reconfigure_retention` writes it, and so does an `append` that goes on with the
days and the time it has read before. `Traced` keeps beside the history which cutoff was committed last, and which
one the last call of `reconfigure_retention` asks for.
-/

namespace OpenProxy.Retention

open Transition

structure Traced where
  history : State
  /-- The cutoff of the last compaction that was committed. -/
  committed : Option Nat
  /-- What the last call of `reconfigure_retention` asks for; `none` before the first, and for unlimited retention. -/
  asked : Option Nat

/-- The cutoff that a step commits. -/
def commits (s : State) : Op → Option Nat
  | .task i outcome =>
    match s.tasks[i]?, outcome with
    | some (.workerCompact p _), .durable | some (.workerCompact p _), .committedSyncPending => some p.cutoff
    | _, _ => none
  | .append _ _ | .reconfigure _ _ => none

def Traced.step (s : Traced) (op : Op) : Option Traced :=
  (Retention.step s.history op).map fun history =>
    { history
      committed := (commits s.history op).or s.committed
      asked := match op with
        | .reconfigure days now => if days = 0 then none else some (cutoffAt now days)
        | .append _ _ | .task _ _ => s.asked }

def traced (s : State) : Traced := ⟨s, none, none⟩

/-- The cutoff that is pending, or else was committed last. -/
def Traced.lastCutoff (s : Traced) : Option Nat :=
  if s.history.shared.compactionPending then some s.history.shared.compactionCutoff else s.committed

/-! ### Tasks -/

/-- The generation that a worker pass, or the start of one, has read. -/
def Pc.generation? : Pc → Option Nat
  | .startCutoff _ generation | .startDrops _ generation _ => some generation
  | .workerRevision p | .workerCompact p _ | .workerInstall p _ _ | .workerDrops p | .workerGeneration p
  | .workerClear p | .workerRecheck p | .workerDays p | .workerRearm p | .workerStop p _
  | .workerSyncGeneration p => some p.generation
  | _ => none

/-- The generation and the cutoff it has read. -/
def Pc.claims? : Pc → Option (Nat × Nat)
  | .startDrops _ generation cutoff => some (generation, cutoff)
  | .workerRevision p | .workerCompact p _ => some (p.generation, p.cutoff)
  | _ => none

/-- The generation of a pass that has committed and has not looked at the generation again. -/
def Pc.committed? : Pc → Option Nat
  | .workerInstall p _ _ | .workerDrops p | .workerGeneration p | .workerClear p | .workerRecheck p =>
    some p.generation
  | _ => none

/-- The cutoff that a call of `reconfigure_retention` has yet to request. -/
def Pc.asks? : Pc → Option Nat
  | .reconfigurePrune _ cutoff | .request (.reconfigure _) cutoff => some cutoff
  | _ => none

/-- A pass that has cleared `compaction_pending` and comes to set it again. -/
def Pc.rearms (generation : Nat) : Pc → Bool
  | .workerRecheck p => p.generation != generation
  | .workerDays _ | .workerRearm _ => true
  | _ => false

/-- The step renews the generation. -/
def renews (s : State) : Op → Bool
  | .reconfigure days _ => days == 0
  | .task i _ => s.tasks[i]?.any fun pc => match pc with
    | .request _ _ => true
    | _ => false
  | .append _ _ => false

/-- The cutoff of a request outside `reconfigure_retention`. -/
def Pc.requests? : Pc → Option Nat
  | .request caller cutoff => if caller.retunes?.isNone then some cutoff else none
  | _ => none

/-- The calls of `reconfigure_retention` do not overlap: `commit` makes them under the store lock. -/
def Serial (s : Traced) : Op → Prop
  | .reconfigure _ _ => Settled s.history
  | .append _ _ | .task _ _ => True

/-- No task holds a generation that comes round again. -/
def Fresh (s : Traced) (op : Op) : Prop :=
  renews s.history op = true → ∀ pc ∈ s.history.tasks,
    pc.generation? ≠ some (wrappingSucc s.history.shared.compactionGeneration)

/-- Once `reconfigure_retention` has made its request nobody else requests an earlier cutoff. -/
def NotEarlier (s : Traced) : Op → Prop
  | .task i _ => ∀ cutoff ∈ s.history.tasks[i]?.bind Pc.requests?, ∀ c ∈ s.asked,
    (∃ pc ∈ s.history.tasks, pc.asks?.isSome = true) ∨ c ≤ cutoff
  | .append _ _ | .reconfigure _ _ => True

structure Newest (s : Traced) (op : Op) : Prop where
  serial : Serial s op
  fresh : Fresh s op
  notEarlier : NotEarlier s op

instance (s : Traced) : DecidablePred (Serial s)
  | .reconfigure _ _ => inferInstanceAs (Decidable (Settled s.history))
  | .append _ _ | .task _ _ => isTrue trivial

instance (s : Traced) : DecidablePred (Fresh s) := fun op =>
  inferInstanceAs (Decidable (renews s.history op = true → ∀ pc ∈ s.history.tasks,
    pc.generation? ≠ some (wrappingSucc s.history.shared.compactionGeneration)))

instance (s : Traced) : DecidablePred (NotEarlier s)
  | .task i _ => inferInstanceAs (Decidable (∀ cutoff ∈ s.history.tasks[i]?.bind Pc.requests?, ∀ c ∈ s.asked,
    (∃ pc ∈ s.history.tasks, pc.asks?.isSome = true) ∨ c ≤ cutoff))
  | .append _ _ | .reconfigure _ _ => isTrue trivial

instance (s : Traced) : DecidablePred (Newest s) := fun op =>
  decidable_of_iff (Serial s op ∧ Fresh s op ∧ NotEarlier s op)
    ⟨fun ⟨h₁, h₂, h₃⟩ => ⟨h₁, h₂, h₃⟩, fun h => ⟨h.serial, h.fresh, h.notEarlier⟩⟩

/-! ### One step of a task -/

section
variable {m m' : Shared} {outcome : Outcome} {pc : Pc} {next : Option Pc}

/-- The fields of the compaction request, and what is left of them by a step. -/
inductive Effect (m : Shared) : Pc → Shared → Prop where
  | requests {caller : Caller} {cutoff : Nat} : Effect m (.request caller cutoff) (m.request cutoff)
  | clears {p : Pass} : Effect m (.workerClear p) { m with compactionPending := false }
  | rearms {p : Pass} : Effect m (.workerRearm p) { m with compactionPending := true }
  | keeps {pc : Pc} {m' : Shared} (hpending : m'.compactionPending = m.compactionPending)
      (hcutoff : m'.compactionCutoff = m.compactionCutoff)
      (hgeneration : m'.compactionGeneration = m.compactionGeneration) (hdays : m'.days = m.days)
      (hrequest : ∀ caller cutoff, pc ≠ .request caller cutoff) (hclear : ∀ p, pc ≠ .workerClear p)
      (hrearm : ∀ p, pc ≠ .workerRearm p) : Effect m pc m'

theorem run_effect (h : run m outcome pc = some (m', next)) : Effect m pc m' := by
  cases pc <;> simp only [run] at h
  case request => cases h; exact .requests
  case workerClear => cases h; exact .clears
  case workerRearm => cases h; exact .rearms
  case workerCompact =>
    split at h
    · split at h <;> (cases h; refine .keeps rfl rfl rfl rfl ?_ ?_ ?_ <;> simp)
    · cases h
  case workerInstall => cases h; split <;> (refine .keeps rfl rfl rfl rfl ?_ ?_ ?_ <;> simp)
  case startPending caller =>
    split at h <;> cases h
    · refine .keeps rfl rfl rfl rfl ?_ ?_ ?_ <;> simp
    · cases caller <;> (refine .keeps rfl rfl rfl rfl ?_ ?_ ?_ <;> simp)
  case startRunning caller =>
    split at h <;> cases h
    · cases caller <;> (refine .keeps rfl rfl rfl rfl ?_ ?_ ?_ <;> simp)
    · refine .keeps rfl rfl rfl rfl ?_ ?_ ?_ <;> simp
  case startDrops caller generation cutoff =>
    cases h
    cases caller <;> (refine .keeps rfl rfl rfl rfl ?_ ?_ ?_ <;> simp)
  all_goals (cases h; refine .keeps rfl rfl rfl rfl ?_ ?_ ?_ <;> simp)

variable {pc' : Pc}

theorem run_claims {generation cutoff : Nat} (h : run m outcome pc = some (m', some pc'))
    (hc : pc'.claims? = some (generation, cutoff)) :
    pc.claims? = some (generation, cutoff) ∨ cutoff = m.compactionCutoff := by
  cases pc <;> simp only [run] at h
  case startCutoff => cases h; cases hc; exact .inr rfl
  case startDrops => cases h; exact .inl hc
  case workerRevision => cases h; exact .inl hc
  case workerCompact =>
    split at h
    · split at h <;> (cases h; cases hc)
    · cases h
  case workerInstall p revision durable => cases durable <;> (cases h; cases hc)
  case appendStore | appendPending | appendDropped | startPending | startRunning | workerSyncGeneration
      | workerSyncDays | workerSyncPending | workerReload | workerGeneration | workerRecheck | workerDays
      | workerStop =>
    split at h <;> (cases h; try cases hc)
  all_goals (cases h; cases hc)

/-- A pass goes on to clear what is pending only after a commit that the closure authorized. -/
theorem run_committed {generation : Nat} (h : run m outcome pc = some (m', some pc'))
    (hc : pc'.committed? = some generation) :
    pc.committed? = some generation ∨ ∃ p revision, pc = .workerCompact p revision ∧ p.generation = generation ∧
      m.authorizes generation = true ∧ (outcome = .durable ∨ outcome = .committedSyncPending) := by
  cases pc <;> simp only [run] at h
  case workerCompact p revision =>
    split at h
    · rename_i hanswers
      split at h <;> cases h <;> cases hc
      · exact .inr ⟨p, revision, rfl, rfl, hanswers, .inl rfl⟩
      · exact .inr ⟨p, revision, rfl, rfl, hanswers, .inr rfl⟩
    · cases h
  case workerInstall p revision durable =>
    cases durable <;> cases h
    · cases hc
    · exact .inl hc
  case workerGeneration | workerRecheck => split at h <;> (cases h; first | exact .inl hc | cases hc)
  case workerDrops | workerClear => cases h; exact .inl hc
  case appendStore | appendPending | appendDropped | startPending | startRunning | workerSyncGeneration
      | workerSyncDays | workerSyncPending | workerReload | workerDays | workerStop =>
    split at h <;> (cases h; try cases hc)
  all_goals (cases h; cases hc)

theorem run_asks {cutoff : Nat} (h : run m outcome pc = some (m', some pc')) (hc : pc'.asks? = some cutoff) :
    pc.asks? = some cutoff := by
  cases pc <;> simp only [run] at h
  case reconfigurePrune => cases h; exact hc
  case workerCompact =>
    split at h
    · split at h <;> (cases h; cases hc)
    · cases h
  case workerInstall p revision durable => cases durable <;> (cases h; cases hc)
  case appendStore | appendPending | appendDropped | startPending | startRunning | workerSyncGeneration
      | workerSyncDays | workerSyncPending | workerReload | workerGeneration | workerRecheck | workerDays
      | workerStop =>
    split at h <;> (cases h; try cases hc)
  all_goals (cases h; cases hc)

/-- Until it makes its request a call goes on. -/
theorem run_asking {cutoff : Nat} (h : run m outcome pc = some (m', next)) (hc : pc.asks? = some cutoff) :
    (∃ caller, pc = .request caller cutoff) ∨ ∃ pc', next = some pc' ∧ pc'.asks?.isSome := by
  cases pc <;> try cases hc
  case reconfigurePrune =>
    cases h
    exact .inr ⟨_, rfl, rfl⟩
  case request caller cutoff' =>
    cases caller with
    | reconfigure days => cases hc; exact .inl ⟨_, rfl⟩
    | append => cases hc
    | worker => cases hc

theorem run_rearms (h : run m outcome pc = some (m', next)) (hdays : 0 < m.days)
    (hr : pc.rearms m.compactionGeneration = true) :
    m'.compactionPending = true ∨ ∃ pc', next = some pc' ∧ pc'.rearms m.compactionGeneration = true := by
  cases pc <;> try cases hr
  case workerRecheck p =>
    have hne : p.generation ≠ m.compactionGeneration := by simpa [Pc.rearms] using hr
    simp only [run, if_neg hne.symm] at h
    cases h
    exact .inr ⟨_, rfl, rfl⟩
  case workerDays p =>
    simp only [run, if_pos hdays] at h
    cases h
    exact .inr ⟨_, rfl, rfl⟩
  case workerRearm => cases h; exact .inl rfl

end

theorem claims_generation {pc : Pc} {generation cutoff : Nat} (h : pc.claims? = some (generation, cutoff)) :
    pc.generation? = some generation := by
  cases pc <;> cases h <;> rfl

theorem committed_generation {pc : Pc} {generation : Nat} (h : pc.committed? = some generation) :
    pc.generation? = some generation := by
  cases pc <;> cases h <;> rfl

theorem asks_retunes {pc : Pc} (h : pc.retunes? = none) : pc.asks? = none := by
  cases pc <;> try rfl
  case reconfigurePrune => cases h
  case request caller cutoff =>
    cases caller with
    | reconfigure days => cases h
    | append => rfl
    | worker => rfl

/-! ### Runs -/

/-- The pending cutoff will not be lost: it is pending, it was committed, or a pass sets it pending again. -/
def Traced.Covered (s : Traced) : Prop :=
  s.history.shared.compactionPending = true ∨ s.committed = some s.history.shared.compactionCutoff ∨
    ∃ pc ∈ s.history.tasks, pc.rearms s.history.shared.compactionGeneration = true

structure Traced.Inv (s : Traced) : Prop where
  claims : ∀ pc ∈ s.history.tasks, ∀ cutoff,
    pc.claims? = some (s.history.shared.compactionGeneration, cutoff) → cutoff = s.history.shared.compactionCutoff
  committed : ∀ pc ∈ s.history.tasks, pc.committed? = some s.history.shared.compactionGeneration →
    s.committed = some s.history.shared.compactionCutoff
  asks : ∀ pc ∈ s.history.tasks, ∀ cutoff, pc.asks? = some cutoff → s.asked = some cutoff
  asked : ∀ cutoff, s.asked = some cutoff → 0 < s.history.shared.days ∧
    ((∃ pc ∈ s.history.tasks, pc.asks?.isSome) ∨ cutoff ≤ s.history.shared.compactionCutoff ∧ s.Covered)

theorem traced_inv {s : State} (h : s.tasks = []) : (traced s).Inv := by
  have hnone : ∀ pc, pc ∉ (traced s).history.tasks := fun pc hpc => by
    rw [show (traced s).history.tasks = s.tasks from rfl, h] at hpc
    exact absurd hpc List.not_mem_nil
  exact ⟨fun pc hpc => absurd hpc (hnone pc), fun pc hpc => absurd hpc (hnone pc),
    fun pc hpc => absurd hpc (hnone pc), fun _ hasked => by cases hasked⟩

/-- The call of `append`, and the call of `reconfigure_retention`, which stores the days. -/
theorem Traced.Inv.call {s s' : Traced} {op : Op} (hI : s.Inv) (hN : Newest s op) (h : s.step op = some s')
    (htask : ∀ i outcome, op ≠ .task i outcome) : s'.Inv := by
  obtain ⟨history, hstep, rfl⟩ := Option.map_eq_some_iff.1 h
  cases op with
  | append t canonicalLast =>
    cases hstep
    have hmem : ∀ pc ∈ s.history.tasks ++ [Pc.appendInner t canonicalLast],
        pc ∈ s.history.tasks ∨ pc = .appendInner t canonicalLast := by simp
    refine ⟨fun pc hpc cutoff hc => ?_, fun pc hpc hc => ?_, fun pc hpc cutoff hc => ?_, fun cutoff hc => ?_⟩
    · rcases hmem pc hpc with hpc | rfl
      · exact hI.claims pc hpc cutoff hc
      · cases hc
    · rcases hmem pc hpc with hpc | rfl
      · exact hI.committed pc hpc hc
      · cases hc
    · rcases hmem pc hpc with hpc | rfl
      · exact hI.asks pc hpc cutoff hc
      · cases hc
    · obtain ⟨hdays, ⟨pc, hpc, hask⟩ | ⟨hle, hcovered⟩⟩ := hI.asked cutoff hc
      · exact ⟨hdays, .inl ⟨pc, List.mem_append_left _ hpc, hask⟩⟩
      · exact ⟨hdays, .inr ⟨hle, hcovered.imp_right (·.imp_right fun ⟨pc, hpc, hr⟩ =>
          ⟨pc, List.mem_append_left _ hpc, hr⟩)⟩⟩
  | reconfigure days now =>
    have hserial : ∀ pc ∈ s.history.tasks, pc.asks? = none := fun pc hpc =>
      asks_retunes (hN.serial pc hpc)
    cases days with
    | zero =>
      cases hstep
      have hfresh := hN.fresh rfl
      refine ⟨fun pc hpc cutoff hc => ?_, fun pc hpc hc => ?_, fun pc hpc cutoff hc => ?_, fun cutoff hc => ?_⟩
      · exact absurd (claims_generation hc) (hfresh pc hpc)
      · exact absurd (committed_generation hc) (hfresh pc hpc)
      · rw [hserial pc hpc] at hc
        cases hc
      · cases hc
    | succ days =>
      cases hstep
      have hmem : ∀ pc ∈ s.history.tasks ++ [Pc.reconfigurePrune (days + 1) (cutoffAt now (days + 1))],
          pc ∈ s.history.tasks ∨ pc = .reconfigurePrune (days + 1) (cutoffAt now (days + 1)) := by simp
      refine ⟨fun pc hpc cutoff hc => ?_, fun pc hpc hc => ?_, fun pc hpc cutoff hc => ?_, fun cutoff hc => ?_⟩
      · rcases hmem pc hpc with hpc | rfl
        · exact hI.claims pc hpc cutoff hc
        · cases hc
      · rcases hmem pc hpc with hpc | rfl
        · exact hI.committed pc hpc hc
        · cases hc
      · rcases hmem pc hpc with hpc | rfl
        · rw [hserial pc hpc] at hc
          cases hc
        · cases hc
          rfl
      · exact ⟨Nat.succ_pos days, .inl ⟨_, List.mem_append_right _ (List.mem_singleton_self _), rfl⟩⟩
  | task i outcome => exact absurd rfl (htask i outcome)

/-- A step of a task that renews the generation: the pending cutoff is a new one. -/
theorem Traced.Inv.requests {s s' : Traced} {i : Nat} {outcome : Outcome} {caller : Caller} {cutoff : Nat}
    (hI : s.Inv) (hN : Newest s (.task i outcome)) (hpc : s.history.tasks[i]? = some (.request caller cutoff))
    (h : s.step (.task i outcome) = some s') : s'.Inv := by
  obtain ⟨history, hstep, rfl⟩ := Option.map_eq_some_iff.1 h
  obtain ⟨pc, next, rest, hpc', hrun, hperm, hperm'⟩ := step_task hstep
  obtain rfl : pc = .request caller cutoff := Option.some.inj (hpc'.symm.trans hpc)
  obtain ⟨hshared, rfl⟩ : s.history.shared.request cutoff = history.shared ∧ some (.startPending caller) = next := by
    simpa [run] using hrun
  have hrest : ∀ pc ∈ rest, pc ∈ s.history.tasks := fun pc hpc => hperm.mem_iff.2 (List.mem_cons_of_mem _ hpc)
  have hmem : ∀ pc ∈ history.tasks, pc ∈ rest ∨ pc = .startPending caller := fun pc hpc => by
    simpa [or_comm] using hperm'.mem_iff.1 hpc
  have hfresh : ∀ pc ∈ rest, pc.generation? ≠ some history.shared.compactionGeneration := by
    intro pc hpc
    rw [← hshared]
    exact hN.fresh (by simp [renews, hpc']) pc (hrest pc hpc)
  refine ⟨fun pc hpc c hc => ?_, fun pc hpc hc => ?_, fun pc hpc c hc => ?_, fun c hc => ?_⟩
  · rcases hmem pc hpc with hpc | rfl
    · exact absurd (claims_generation hc) (hfresh pc hpc)
    · cases hc
  · rcases hmem pc hpc with hpc | rfl
    · exact absurd (committed_generation hc) (hfresh pc hpc)
    · cases hc
  · rcases hmem pc hpc with hpc | rfl
    · exact hI.asks pc (hrest pc hpc) c hc
    · cases hc
  · have hdays := (hI.asked c hc).1
    refine ⟨by rw [← hshared]; exact hdays, ?_⟩
    have hnew (hle : c ≤ cutoff) : c ≤ history.shared.compactionCutoff ∧
        Traced.Covered ⟨history, (commits s.history (.task i outcome)).or s.committed, s.asked⟩ := by
      unfold Traced.Covered
      rw [← hshared]
      exact ⟨hle, .inl rfl⟩
    cases hcaller : caller.retunes? with
    | some days =>
      have hasks : (Pc.request caller cutoff).asks? = some cutoff := by
        cases caller with
        | reconfigure days => rfl
        | append => cases hcaller
        | worker => cases hcaller
      have hask : s.asked = some cutoff := hI.asks _ (List.mem_of_getElem? hpc) cutoff hasks
      have hc' : s.asked = some c := hc
      rw [hask] at hc'
      cases hc'
      exact .inr (hnew (Nat.le_refl _))
    | none =>
      have hrequests : cutoff ∈ s.history.tasks[i]?.bind Pc.requests? := by simp [hpc, Pc.requests?, hcaller]
      rcases hN.notEarlier cutoff hrequests c hc with ⟨pc, hpc', hask⟩ | hle
      · rcases List.mem_cons.1 (hperm.mem_iff.1 hpc') with rfl | hpc'
        · have hnone : (Pc.request caller cutoff).asks? = none := asks_retunes hcaller
          rw [hnone] at hask
          cases hask
        · exact .inl ⟨pc, hperm'.mem_iff.2 (List.mem_append_right _ hpc'), hask⟩
      · exact .inr (hnew hle)

/-- What the closure authorizes is the pending cutoff. -/
theorem Traced.Inv.commits {s : Traced} {i cutoff : Nat} {outcome : Outcome} {history : State} (hI : s.Inv)
    (h : Retention.step s.history (.task i outcome) = some history)
    (hc : commits s.history (.task i outcome) = some cutoff) : cutoff = s.history.shared.compactionCutoff := by
  obtain ⟨pc, next, rest, hpc, hrun, -, -⟩ := step_task h
  have hcommit (p : Pass) (revision : Nat) (hp : pc = .workerCompact p revision)
      (houtcome : outcome = .durable ∨ outcome = .committedSyncPending) :
      p.cutoff = s.history.shared.compactionCutoff := by
    subst hp
    have hauthorizes : s.history.shared.authorizes p.generation = true := by
      simp only [run] at hrun
      split at hrun
      · rename_i hanswers
        rcases houtcome with rfl | rfl <;> exact hanswers
      · cases hrun
    have hgeneration : s.history.shared.compactionGeneration = p.generation := by
      simp only [Shared.authorizes, Bool.and_eq_true, beq_iff_eq] at hauthorizes
      exact hauthorizes.1.1.2
    exact hI.claims _ (List.mem_of_getElem? hpc) p.cutoff (by rw [hgeneration]; rfl)
  simp only [Retention.commits, hpc] at hc
  split at hc
  · rename_i p revision heq
    cases hc
    exact hcommit p revision (Option.some.inj heq) (.inl rfl)
  · rename_i p revision heq
    cases hc
    exact hcommit p revision (Option.some.inj heq) (.inr rfl)
  · cases hc

/-- Any other step of a task. -/
theorem Traced.Inv.task {s s' : Traced} {i : Nat} {outcome : Outcome} {pc : Pc} (hI : s.Inv)
    (hpc : s.history.tasks[i]? = some pc) (hrequest : ∀ caller cutoff, pc ≠ .request caller cutoff)
    (h : s.step (.task i outcome) = some s') : s'.Inv := by
  obtain ⟨history, hstep, rfl⟩ := Option.map_eq_some_iff.1 h
  obtain ⟨pc', next, rest, hpc', hrun, hperm, hperm'⟩ := step_task hstep
  obtain rfl : pc' = pc := Option.some.inj (hpc'.symm.trans hpc)
  have hmem' : pc' ∈ s.history.tasks := List.mem_of_getElem? hpc
  have hrest : ∀ pc ∈ rest, pc ∈ s.history.tasks := fun pc hpc => hperm.mem_iff.2 (List.mem_cons_of_mem _ hpc)
  have hmem : ∀ pc ∈ history.tasks, some pc = next ∨ pc ∈ rest := fun pc hpc => by
    simpa [eq_comm] using hperm'.mem_iff.1 hpc
  have hnext : ∀ pc, next = some pc → pc ∈ history.tasks := fun pc hn => hperm'.mem_iff.2 (by simp [hn])
  have hkept : ∀ pc ∈ rest, pc ∈ history.tasks := fun pc hpc => hperm'.mem_iff.2 (List.mem_append_right _ hpc)
  have heffect := run_effect hrun
  obtain ⟨hcutoff, hgeneration, hdays⟩ : history.shared.compactionCutoff = s.history.shared.compactionCutoff ∧
      history.shared.compactionGeneration = s.history.shared.compactionGeneration ∧
      history.shared.days = s.history.shared.days := by
    generalize history.shared = m' at heffect
    cases heffect with
    | requests => exact absurd rfl (hrequest _ _)
    | clears => exact ⟨rfl, rfl, rfl⟩
    | rearms => exact ⟨rfl, rfl, rfl⟩
    | keeps _ hcutoff hgeneration hdays _ _ _ => exact ⟨hcutoff, hgeneration, hdays⟩
  have hcommitted (hold : s.committed = some s.history.shared.compactionCutoff) :
      (Retention.commits s.history (.task i outcome)).or s.committed = some s.history.shared.compactionCutoff := by
    cases hc : Retention.commits s.history (.task i outcome) with
    | none => exact hold
    | some cutoff => rw [hI.commits hstep hc]; rfl
  refine ⟨fun pc hpc c hc => ?_, fun pc hpc hc => ?_, fun pc hpc c hc => ?_, fun c hc => ?_⟩
  · simp only [hgeneration] at hc
    rw [hcutoff]
    rcases hmem pc hpc with rfl | hpc
    · exact (run_claims hrun hc).elim (hI.claims _ hmem' c) id
    · exact hI.claims pc (hrest pc hpc) c hc
  · simp only [hgeneration] at hc
    rw [hcutoff]
    rcases hmem pc hpc with rfl | hpc
    · rcases run_committed hrun hc with hold | ⟨p, revision, rfl, -, -, houtcome⟩
      · exact hcommitted (hI.committed _ hmem' hold)
      · have hcommit : Retention.commits s.history (.task i outcome) = some p.cutoff := by
          simp only [Retention.commits, hpc']
          rcases houtcome with rfl | rfl <;> rfl
        rw [hI.commits hstep hcommit] at hcommit
        simp only [hcommit, Option.some_or]
    · exact hcommitted (hI.committed pc (hrest pc hpc) hc)
  · rcases hmem pc hpc with rfl | hpc
    · exact hI.asks _ hmem' c (run_asks hrun hc)
    · exact hI.asks pc (hrest pc hpc) c hc
  · obtain ⟨hpos, hcase⟩ := hI.asked c hc
    refine ⟨by rw [hdays]; exact hpos, ?_⟩
    rcases hcase with ⟨pc, hpc, hask⟩ | ⟨hle, hcovered⟩
    · rcases List.mem_cons.1 (hperm.mem_iff.1 hpc) with rfl | hpc
      · obtain ⟨cutoff, hcutoff⟩ := Option.isSome_iff_exists.1 hask
        rcases run_asking hrun hcutoff with ⟨caller, rfl⟩ | ⟨pc', hn, hask'⟩
        · exact absurd rfl (hrequest _ _)
        · exact .inl ⟨pc', hnext pc' hn, hask'⟩
      · exact .inl ⟨pc, hkept pc hpc, hask⟩
    · refine .inr ⟨by rw [hcutoff]; exact hle, ?_⟩
      unfold Traced.Covered
      rw [hcutoff, hgeneration]
      rcases hcovered with hpending | hold | ⟨pc, hpc, hr⟩
      · generalize history.shared = m' at heffect hrun
        cases heffect with
        | requests => exact absurd rfl (hrequest _ _)
        | @clears p =>
          by_cases heq : p.generation = s.history.shared.compactionGeneration
          · exact .inr (.inl (hcommitted (hI.committed _ hmem' (congrArg some heq))))
          · cases hrun
            exact .inr (.inr ⟨.workerRecheck p, hnext _ rfl, by simpa [Pc.rearms] using heq⟩)
        | rearms => exact .inl rfl
        | keeps hsame _ _ _ _ _ _ => exact .inl (hsame.trans hpending)
      · exact .inr (.inl (hcommitted hold))
      · rcases List.mem_cons.1 (hperm.mem_iff.1 hpc) with rfl | hpc
        · rcases run_rearms hrun hpos hr with hpending | ⟨pc', hn, hr'⟩
          · exact .inl hpending
          · exact .inr (.inr ⟨pc', hnext pc' hn, hr'⟩)
        · exact .inr (.inr ⟨pc, hkept pc hpc, hr⟩)

theorem Traced.Inv.step {s s' : Traced} {op : Op} (hI : s.Inv) (hN : Newest s op) (h : s.step op = some s') :
    s'.Inv := by
  cases op with
  | append t canonicalLast => exact hI.call hN h nofun
  | reconfigure days now => exact hI.call hN h nofun
  | task i outcome =>
    obtain ⟨history, hstep, -⟩ := Option.map_eq_some_iff.1 h
    obtain ⟨pc, next, rest, hpc, -, -, -⟩ := step_task hstep
    by_cases hrequest : ∃ caller cutoff, pc = .request caller cutoff
    · obtain ⟨caller, cutoff, rfl⟩ := hrequest
      exact hI.requests hN hpc h
    · exact hI.task hpc (fun caller cutoff heq => hrequest ⟨caller, cutoff, heq⟩) h

/-- When everything has come to rest after a call of `reconfigure_retention` with a finite retention, the cutoff
that is pending, or else was committed last, is not earlier than what the call asked for. -/
theorem last_retention_wins {days openedAt revision cutoff : Nat} {needed : Bool} {points : List Nat} {ops : List Op}
    {s : Traced} (hN : Meets Traced.step Newest (traced (start days openedAt needed points revision)) ops)
    (hrun : exec Traced.step (traced (start days openedAt needed points revision)) ops = some s)
    (hidle : s.history.tasks = []) (hasked : s.asked = some cutoff) : ∃ c, s.lastCutoff = some c ∧ cutoff ≤ c := by
  have hI : s.Inv := exec_invariant_of_meets (fun s op s' hI hN hs => hI.step hN hs) (traced_inv rfl) hN hrun
  obtain ⟨-, ⟨pc, hpc, -⟩ | ⟨hle, hcovered⟩⟩ := hI.asked cutoff hasked
  · rw [hidle] at hpc
    exact absurd hpc List.not_mem_nil
  refine ⟨s.history.shared.compactionCutoff, ?_, hle⟩
  unfold Traced.lastCutoff
  rcases hcovered with hpending | hcommitted | ⟨pc, hpc, -⟩
  · rw [if_pos hpending]
  · rw [hcommitted, ite_self]
  · rw [hidle] at hpc
    exact absurd hpc List.not_mem_nil

/-- Retention is set from thirty days to one, and an append that has read thirty days makes its request first. -/
def requestInOrder : List Op :=
  ([.append 10000300 none, .task 0 .failed, .task 0 .failed, .task 0 .failed, .reconfigure 1 10000301] : List Op) ++
    ([.task 0 .failed, .task 1 .failed, .task 1 .failed] : List Op) ++ List.replicate 5 (Op.task 0 .failed) ++
    List.replicate 2 (Op.task 1 .failed) ++ ([.task 0 .failed, .task 0 .durable] : List Op) ++
    List.replicate 7 (Op.task 0 .failed)

theorem last_retention_wins_inOrder : ∃ s, exec Traced.step (traced thirtyDays) requestInOrder = some s ∧
    s.history.tasks = [] ∧ s.asked = some (cutoffAt 10000301 1) ∧
    ∃ c, s.lastCutoff = some c ∧ cutoffAt 10000301 1 ≤ c := by
  have hrun : ((exec Traced.step (traced thirtyDays) requestInOrder).any fun s =>
      s.history.tasks == [] && s.asked == some (cutoffAt 10000301 1)) = true := by decide +kernel
  obtain ⟨s, hs, hok⟩ := (Option.any_eq_true ..).1 hrun
  obtain ⟨hidle, hasked⟩ := Bool.and_eq_true_iff.1 hok
  have hN : Meets Traced.step Newest (traced thirtyDays) requestInOrder := by decide +kernel
  exact ⟨s, hs, by simpa using hidle, by simpa using hasked,
    last_retention_wins hN hs (by simpa using hidle) (by simpa using hasked)⟩

/-- Retention is set from thirty days to one, while an append that has read thirty days waits for the request to be
made and then overwrites it. -/
def staleRequest : List Op :=
  ([.append 10000300 none, .task 0 .failed, .task 0 .failed, .task 0 .failed, .reconfigure 1 10000301] : List Op) ++
    List.replicate 7 (Op.task 1 .failed) ++ List.replicate 3 (Op.task 0 .failed) ++
    ([.task 0 .failed, .task 0 .superseded] : List Op) ++ List.replicate 7 (Op.task 0 .failed) ++
    ([.task 0 .failed, .task 0 .durable] : List Op) ++ List.replicate 7 (Op.task 0 .failed)

/-- In the end the file has been compacted to thirty days, and nothing is pending. -/
theorem not_last_retention_wins_staleRequest : ¬ ∀ (ops : List Op) (s : Traced) (cutoff : Nat),
    Meets Traced.step Serial (traced thirtyDays) ops → exec Traced.step (traced thirtyDays) ops = some s →
    s.history.tasks = [] → s.asked = some cutoff → ∃ c, s.lastCutoff = some c ∧ cutoff ≤ c := by
  intro h
  have hrun : ((exec Traced.step (traced thirtyDays) staleRequest).any fun s =>
      s.history.tasks == [] && s.asked == some (cutoffAt 10000301 1) &&
        s.lastCutoff == some (cutoffAt 10000300 30)) = true := by decide +kernel
  obtain ⟨s, hs, hok⟩ := (Option.any_eq_true ..).1 hrun
  simp only [Bool.and_eq_true, beq_iff_eq] at hok
  obtain ⟨⟨hidle, hasked⟩, hlast⟩ := hok
  have hserial : Meets Traced.step Serial (traced thirtyDays) staleRequest := by decide +kernel
  obtain ⟨c, hc, hle⟩ := h staleRequest s _ hserial hs hidle hasked
  rw [hlast] at hc
  cases hc
  exact absurd hle (by decide)

end OpenProxy.Retention
