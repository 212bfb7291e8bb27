import OpenProxy.Config
import OpenProxy.Governor

/-!
# Which model a request is governed as (`sanitize_label`, `label_model`, `acquire_model_permit` of `proxy.rs`)

The governor and its overrides are looked up by the metric label of the model id: the first 64 of its characters that
are harmless in a label, or `other` once 256 labels have been seen.
-/

namespace OpenProxy.ModelScope

open Transition Governor

/-! ### Labels -/

def inert (c : Char) : Bool := c.isAlphanum || c == '.' || c == '_' || c == '-' || c == '/' || c == ':'

def sanitizeLabel (raw : String) : String :=
  let cleaned := (raw.toList.filter inert).take 64
  if cleaned.isEmpty then "none" else String.ofList cleaned

def modelLabelCap : Nat := 256

/-- The label, and the labels seen with it. -/
def boundedLabel (seen : List String) (s : String) (cap : Nat) : String × List String :=
  if s ∈ seen then (s, seen) else if seen.length < cap then (s, s :: seen) else ("other", seen)

def labelModel (seen : List String) (raw : String) : String × List String :=
  boundedLabel seen (sanitizeLabel raw) modelLabelCap

/-! ### Requests -/

structure Request where
  /-- The id the request names, and its label. -/
  rawModel : String
  model : String
  path : String
  cfg : GovernorCfg

namespace Request

def generation (r : Request) : Bool := r.path = "/v1/chat/completions" || r.path = "/v1/completions"

def gated (r : Request) : Bool := r.cfg.enabled && r.model != "none" && r.generation

def pinned (r : Request) : Option Nat := r.cfg.overrides[r.model]?

/-- The operator has set a cap for the id, and the request is one that it is for. -/
def Capped (r : Request) : Prop :=
  r.cfg.enabled = true ∧ r.generation = true ∧ validModelId r.rawModel = true ∧
    (r.cfg.overrides[r.rawModel]?).isSome = true

instance (r : Request) : Decidable r.Capped := inferInstanceAs (Decidable (_ ∧ _ ∧ _ ∧ _))

end Request

structure State where
  seen : List String := []
  governor : Governor := {}
  /-- The requests in the order they came, and which of them hold a permit. -/
  requests : List Request := []
  permits : List Nat := []
  /-- What was recorded, with the id of the request that did. -/
  log : List (String × Event) := []

inductive Op where
  | arrive (rawModel path : String) (cfg : GovernorCfg)
  /-- A round of `acquire_model_permit`. -/
  | poll (n now : Nat)
  | drop (n : Nat)
  | exhausted (n now : Nat)

namespace State

def request (s : State) (rawModel path : String) (cfg : GovernorCfg) : Request :=
  ⟨rawModel, (labelModel s.seen rawModel).1, path, cfg⟩

def record (s : State) (r : Request) (event : Event) : State :=
  { s with governor := s.governor.apply r.model event, log := s.log ++ [(r.rawModel, event)] }

end State

def step (s : State) : Op → Option State
  | .arrive rawModel path cfg =>
    some { s with
      seen := (labelModel s.seen rawModel).2
      requests := s.requests ++ [s.request rawModel path cfg] }
  | .poll n now => do
    let r ← s.requests[n]?
    if r.gated && !s.permits.contains n then
      let ok := (s.governor.admitAt r.model r.pinned now).2
      return { s.record r (.admitAt r.pinned now) with permits := if ok then n :: s.permits else s.permits }
    else none
  | .drop n => do
    let r ← s.requests[n]?
    if s.permits.contains n then return { s.record r .release with permits := s.permits.erase n } else none
  | .exhausted n now => do
    let r ← s.requests[n]?
    -- a request that is not gated reports all the same
    if !r.gated || s.permits.contains n then return s.record r (.exhausted r.pinned now) else none

/-! ### A governor of one model -/

/-- What the requests for one id have recorded. -/
def own (log : List (String × Event)) (rawModel : String) : ModelState :=
  (log.filter (·.1 = rawModel)).foldl (fun s e => s.apply e.2) {}

/-- Requests are admitted as if those for other ids were not there, and a cap holds for the id it is set for. -/
structure Scoped (s : State) : Prop where
  admitted : ∀ r ∈ s.requests, r.gated = true → ∀ now,
    (s.governor.admitAt r.model r.pinned now).2 = ((own s.log r.rawModel).admitAt r.pinned now).2
  capped : ∀ r ∈ s.requests, r.Capped → r.gated = true ∧ r.pinned = r.cfg.overrides[r.rawModel]?

/-- The id has its label for itself, and the label of an id with a cap is the id. -/
def Clear (s : State) : Op → Prop
  | .arrive rawModel path cfg =>
    let r := s.request rawModel path cfg
    (r.model ≠ "none" → ∀ r' ∈ s.requests, r'.model = r.model → r'.rawModel = r.rawModel) ∧
      (r.Capped → r.model = rawModel ∧ rawModel ≠ "none")
  | .poll _ _ | .drop _ | .exhausted _ _ => True

theorem own_append (log : List (String × Event)) (rawModel rawModel' : String) (event : Event) :
    own (log ++ [(rawModel', event)]) rawModel =
      if rawModel' = rawModel then (own log rawModel).apply event else own log rawModel := by
  rw [own, List.filter_append, List.foldl_append]
  by_cases h : rawModel' = rawModel
  · simp [h, own]
  · simp [h, own]

theorem own_of_foreign {log : List (String × Event)} {rawModel : String} (h : ∀ e ∈ log, e.1 ≠ rawModel) :
    own log rawModel = {} := by
  have hnil : log.filter (·.1 = rawModel) = [] := by
    rw [List.filter_eq_nil_iff]
    exact fun e he => by simpa using h e he
  rw [own, hnil, List.foldl_nil]

/-! ### A label is for good -/

/-- What the labels seen say of a request: its id has got its own label, or all labels were taken. -/
def Labelled (seen : List String) (r : Request) : Prop :=
  (sanitizeLabel r.rawModel ∈ seen ∧ r.model = sanitizeLabel r.rawModel) ∨
    (sanitizeLabel r.rawModel ∉ seen ∧ modelLabelCap ≤ seen.length ∧ r.model = "other")

theorem labelModel_cases (seen : List String) (raw : String) :
    (sanitizeLabel raw ∈ seen ∧ labelModel seen raw = (sanitizeLabel raw, seen)) ∨
      (sanitizeLabel raw ∉ seen ∧ seen.length < modelLabelCap ∧
        labelModel seen raw = (sanitizeLabel raw, sanitizeLabel raw :: seen)) ∨
      (sanitizeLabel raw ∉ seen ∧ modelLabelCap ≤ seen.length ∧ labelModel seen raw = ("other", seen)) := by
  rw [labelModel, boundedLabel]
  split
  · rename_i hseen
    exact .inl ⟨hseen, rfl⟩
  · rename_i hseen
    split
    · rename_i hroom
      exact .inr (.inl ⟨hseen, hroom, rfl⟩)
    · rename_i hfull
      exact .inr (.inr ⟨hseen, Nat.le_of_not_lt hfull, rfl⟩)

theorem labelled_request (s : State) (rawModel path : String) (cfg : GovernorCfg) :
    Labelled (labelModel s.seen rawModel).2 (s.request rawModel path cfg) := by
  rw [State.request]
  rcases labelModel_cases s.seen rawModel with ⟨hseen, h⟩ | ⟨-, -, h⟩ | ⟨hseen, hfull, h⟩
  · rw [h]
    exact .inl ⟨hseen, rfl⟩
  · rw [h]
    exact .inl ⟨List.mem_cons_self, rfl⟩
  · rw [h]
    exact .inr ⟨hseen, hfull, rfl⟩

/-- A label that another request takes does not change those there are. -/
theorem Labelled.again {seen : List String} {r : Request} (h : Labelled seen r) (raw : String) :
    Labelled (labelModel seen raw).2 r := by
  rcases labelModel_cases seen raw with ⟨-, hl⟩ | ⟨-, hroom, hl⟩ | ⟨-, -, hl⟩
  · rw [hl]
    exact h
  · rw [hl]
    rcases h with ⟨hseen, hmodel⟩ | ⟨-, hfull, -⟩
    · exact .inl ⟨List.mem_cons_of_mem _ hseen, hmodel⟩
    · omega
  · rw [hl]
    exact h

theorem Labelled.model_eq {seen : List String} {r r' : Request} (h : Labelled seen r) (h' : Labelled seen r')
    (hid : r.rawModel = r'.rawModel) : r.model = r'.model := by
  rw [Labelled, ← hid] at h'
  rcases h with ⟨hseen, hmodel⟩ | ⟨hseen, -, hmodel⟩
  · rcases h' with ⟨-, hmodel'⟩ | ⟨hseen', -⟩
    · rw [hmodel, hmodel']
    · exact absurd hseen hseen'
  · rcases h' with ⟨hseen', -⟩ | ⟨-, -, hmodel'⟩
    · exact absurd hseen' hseen
    · rw [hmodel, hmodel']

/-! ### The invariant -/

structure Inv (s : State) : Prop where
  labelled : ∀ r ∈ s.requests, Labelled s.seen r
  apart : ∀ r ∈ s.requests, r.model ≠ "none" → ∀ r' ∈ s.requests, r'.model = r.model → r'.rawModel = r.rawModel
  entry : ∀ r ∈ s.requests, r.model ≠ "none" → s.governor.get r.model = own s.log r.rawModel
  fresh : ∀ model, (∀ r ∈ s.requests, r.model ≠ model) → s.governor.get model = {}
  logged : ∀ e ∈ s.log, ∃ r ∈ s.requests, r.rawModel = e.1
  capped : ∀ r ∈ s.requests, r.Capped → r.model = r.rawModel ∧ r.rawModel ≠ "none"

theorem inv_start : Inv {} where
  labelled := nofun
  apart := nofun
  entry := nofun
  fresh model _ := get_empty model
  logged := nofun
  capped := nofun

theorem Inv.scoped {s : State} (h : Inv s) : Scoped s where
  admitted r hr hgated now := by
    have hnone : r.model ≠ "none" := by
      rintro hnone
      simp [Request.gated, hnone] at hgated
    rw [admitAt_snd, h.entry r hr hnone]
  capped r hr hcapped := by
    obtain ⟨hmodel, hnone⟩ := h.capped r hr hcapped
    obtain ⟨henabled, hgeneration, -, -⟩ := hcapped
    constructor
    · simp [Request.gated, henabled, hgeneration, hmodel, hnone]
    · rw [Request.pinned, hmodel]

/-- Recording changes the entry and the log of the one id. -/
theorem Inv.record {s : State} (h : Inv s) {r : Request} (hr : r ∈ s.requests) (event : Event) :
    Inv (s.record r event) := by
  refine ⟨h.labelled, h.apart, fun r' hr' hnone => ?_, fun model hfresh => ?_, fun e he => ?_, h.capped⟩
  · have hsame : r.model = r'.model ↔ r.rawModel = r'.rawModel :=
      ⟨h.apart r' hr' hnone r hr, (h.labelled r hr).model_eq (h.labelled r' hr')⟩
    show (s.governor.apply r.model event).get r'.model = own (s.log ++ [(r.rawModel, event)]) r'.rawModel
    rw [get_apply, own_append]
    by_cases hid : r.rawModel = r'.rawModel
    · rw [if_pos (hsame.2 hid), if_pos hid, hsame.2 hid, h.entry r' hr' hnone]
    · rw [if_neg (fun hmodel => hid (hsame.1 hmodel)), if_neg hid, h.entry r' hr' hnone]
  · show (s.governor.apply r.model event).get model = {}
    rw [get_apply, if_neg (hfresh r hr), h.fresh model hfresh]
  · rcases List.mem_append.1 he with he | he
    · exact h.logged e he
    · rw [List.mem_singleton.1 he]
      exact ⟨r, hr, rfl⟩

theorem Inv.congr {s : State} (h : Inv s) (permits : List Nat) : Inv { s with permits } :=
  ⟨h.labelled, h.apart, h.entry, h.fresh, h.logged, h.capped⟩

theorem Inv.arrive {s : State} (h : Inv s) {rawModel path : String} {cfg : GovernorCfg}
    (hclear : Clear s (.arrive rawModel path cfg)) :
    Inv { s with
      seen := (labelModel s.seen rawModel).2
      requests := s.requests ++ [s.request rawModel path cfg] } := by
  obtain ⟨hapart, hcapped⟩ := hclear
  have hlabelled : ∀ r ∈ s.requests ++ [s.request rawModel path cfg], Labelled (labelModel s.seen rawModel).2 r := by
    intro r hr
    rcases List.mem_append.1 hr with hr | hr
    · exact (h.labelled r hr).again rawModel
    · rw [List.mem_singleton.1 hr]
      exact labelled_request ..
  have hnew : s.request rawModel path cfg ∈ s.requests ++ [s.request rawModel path cfg] := by simp
  refine ⟨hlabelled, fun r hr hnone r' hr' hmodel => ?_, fun r hr hnone => ?_, fun model hfresh => ?_,
    fun e he => ?_, fun r hr => ?_⟩
  · rcases List.mem_append.1 hr with hr | hr
    · rcases List.mem_append.1 hr' with hr' | hr'
      · exact h.apart r hr hnone r' hr' hmodel
      · rw [List.mem_singleton.1 hr'] at hmodel ⊢
        exact (hapart (hmodel ▸ hnone) r hr hmodel.symm).symm
    · rw [List.mem_singleton.1 hr] at hnone hmodel ⊢
      rcases List.mem_append.1 hr' with hr' | hr'
      · exact hapart hnone r' hr' hmodel
      · rw [List.mem_singleton.1 hr']
  · rcases List.mem_append.1 hr with hr | hr
    · exact h.entry r hr hnone
    rw [List.mem_singleton.1 hr] at hnone ⊢
    by_cases hold : ∃ r' ∈ s.requests, r'.model = (s.request rawModel path cfg).model
    · -- the label is in use, so that it is for this id
      obtain ⟨r', hr', hmodel⟩ := hold
      have hid := hapart hnone r' hr' hmodel
      have hentry := h.entry r' hr' (hmodel ▸ hnone)
      rw [hmodel, hid] at hentry
      exact hentry
    · have hforeign : ∀ e ∈ s.log, e.1 ≠ (s.request rawModel path cfg).rawModel := by
        intro e he hid
        obtain ⟨r', hr', hid'⟩ := h.logged e he
        exact hold ⟨r', hr', (hlabelled r' (List.mem_append_left _ hr')).model_eq (hlabelled _ hnew) (hid'.trans hid)⟩
      show s.governor.get _ = own s.log _
      rw [own_of_foreign hforeign]
      exact h.fresh _ fun r' hr' hmodel => hold ⟨r', hr', hmodel⟩
  · exact h.fresh model fun r hr => hfresh r (List.mem_append_left _ hr)
  · obtain ⟨r, hr, hid⟩ := h.logged e he
    exact ⟨r, List.mem_append_left _ hr, hid⟩
  · rcases List.mem_append.1 hr with hr | hr
    · exact h.capped r hr
    · rw [List.mem_singleton.1 hr]
      exact hcapped

theorem step_inv {s s' : State} {op : Op} (h : Inv s) (hclear : Clear s op) (hs : step s op = some s') : Inv s' := by
  cases op with
  | arrive rawModel path cfg =>
    obtain rfl := Option.some.inj hs
    exact h.arrive hclear
  | poll n now =>
    obtain ⟨r, hr, hs⟩ := Option.bind_eq_some_iff.1 hs
    split at hs
    · obtain rfl := Option.some.inj hs
      exact (h.record (List.mem_of_getElem? hr) _).congr _
    · cases hs
  | drop n =>
    obtain ⟨r, hr, hs⟩ := Option.bind_eq_some_iff.1 hs
    split at hs
    · obtain rfl := Option.some.inj hs
      exact (h.record (List.mem_of_getElem? hr) _).congr _
    · cases hs
  | exhausted n now =>
    obtain ⟨r, hr, hs⟩ := Option.bind_eq_some_iff.1 hs
    split at hs
    · obtain rfl := Option.some.inj hs
      exact h.record (List.mem_of_getElem? hr) _
    · cases hs

/-- In every run whose requests have labels of their own, and for an id with a cap the id itself: the requests of a
model are admitted as if there were no others, and a cap holds for every request of its id. -/
theorem governed_apart {ops : List Op} {s : State} (hclear : Meets step Clear {} ops)
    (hs : exec step {} ops = some s) : Scoped s := by
  have h : Inv s := exec_invariant_of_meets (fun _ _ _ h hop hstep => step_inv h hop hstep) inv_start hclear hs
  exact h.scoped

/-! ### Ids of one label -/

instance (s : State) : DecidablePred (Clear s)
  | .arrive rawModel path cfg =>
    inferInstanceAs (Decidable (((s.request rawModel path cfg).model ≠ "none" → ∀ r' ∈ s.requests,
      r'.model = (s.request rawModel path cfg).model → r'.rawModel = rawModel) ∧
        ((s.request rawModel path cfg).Capped → (s.request rawModel path cfg).model = rawModel ∧ rawModel ≠ "none")))
  | .poll _ _ | .drop _ | .exhausted _ _ => isTrue trivial

/-- The workers of the first model run out, and a request for the second comes. -/
def exhaustedFirst (model model' : String) : List Op :=
  [.arrive model "/v1/chat/completions" {}, .poll 0 0, .exhausted 0 0,
    .arrive model' "/v1/chat/completions" { overrides := .ofList [(model', 7)] }]

theorem governed_apart_second : ∃ s r, exec step {} (exhaustedFirst "m" "n") = some s ∧ s.requests[1]? = some r ∧
    r.pinned = some 7 ∧ (s.governor.admitAt r.model r.pinned second).2 = true := by
  have hclear : Meets step Clear {} (exhaustedFirst "m" "n") := by decide +kernel
  have hrun : ((exec step {} (exhaustedFirst "m" "n")).any fun s => (s.requests[1]?).any fun r =>
      decide (r.gated = true ∧ r.Capped ∧ r.rawModel = "n" ∧ r.cfg.overrides[r.rawModel]? = some 7 ∧
        ((own s.log "n").admitAt (some 7) second).2 = true)) = true := by decide +kernel
  obtain ⟨s, hs, hrun⟩ := (Option.any_eq_true ..).1 hrun
  obtain ⟨r, hr, hrun⟩ := (Option.any_eq_true ..).1 hrun
  obtain ⟨hgated, hcapped, hid, hoverride, hadmitted⟩ := of_decide_eq_true hrun
  have h := governed_apart hclear hs
  have hpinned := (h.capped r (List.mem_of_getElem? hr) hcapped).2.trans hoverride
  refine ⟨s, r, hs, hr, hpinned, ?_⟩
  rw [h.admitted r (List.mem_of_getElem? hr) hgated, hpinned, hid]
  exact hadmitted

/-- Ids that differ in their last character only, after 64 others. -/
def longModel (c : Char) : String := String.ofList (List.replicate 64 'a' ++ [c])

/-- The second model is refused in the drain gap of the first, and the cap that is set for it does not hold. -/
theorem not_governed_apart_long : ∃ s r, exec step {} (exhaustedFirst (longModel '1') (longModel '2')) = some s ∧
    s.requests[1]? = some r ∧ r.rawModel = longModel '2' ∧ validModelId (longModel '1') = true ∧
    validModelId (longModel '2') = true ∧ r.gated = true ∧ r.Capped ∧
    (s.governor.admitAt r.model r.pinned second).2 = false ∧
    ((own s.log r.rawModel).admitAt r.pinned second).2 = true ∧
    r.cfg.overrides[r.rawModel]? = some 7 ∧ r.pinned = none := by
  have hrun : ((exec step {} (exhaustedFirst (longModel '1') (longModel '2'))).any fun s =>
      (s.requests[1]?).any fun r => decide (r.rawModel = longModel '2' ∧ validModelId (longModel '1') = true ∧
        validModelId (longModel '2') = true ∧ r.gated = true ∧ r.Capped ∧
        (s.governor.admitAt r.model r.pinned second).2 = false ∧
        ((own s.log r.rawModel).admitAt r.pinned second).2 = true ∧
        r.cfg.overrides[r.rawModel]? = some 7 ∧ r.pinned = none)) = true := by decide +kernel
  obtain ⟨s, hs, hrun⟩ := (Option.any_eq_true ..).1 hrun
  obtain ⟨r, hr, hrun⟩ := (Option.any_eq_true ..).1 hrun
  exact ⟨s, r, hs, hr, of_decide_eq_true hrun⟩

end OpenProxy.ModelScope
