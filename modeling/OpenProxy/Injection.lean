import OpenProxy.Catalog

/-!
# Usage injection (`handle`, `streaming` of `proxy.rs`)

A streamed chat request is sent with `stream_options` set on the client's behalf. The untouched body is kept until a
lane does not support the field or the upstream answers 400; then it takes the other's place.
-/

namespace OpenProxy

open Json (Value)

namespace Json.Value

def isObject : Value → Bool
  | .object _ => true
  | _ => false

/-- `v[key] = value` of an object; its keys are in order. -/
def set (v : Value) (key : String) (value : Value) : Value :=
  match v with
  | .object fields => .object (fields.filter (·.1 < key) ++ (key, value) :: fields.filter (key < ·.1))
  | v => v

end Json.Value

namespace Injection

open Transition

section
variable {B : Type}

/-! ### Arrival -/

structure Arrival (B : Type) where
  body : B
  path : String
  /-- The label of the model. -/
  model : String
  strictPassthrough : Bool

def wantsStream (json : SerdeValue B) (a : Arrival B) : Bool :=
  ((json.fromSlice a.body).bind fun v => (v.get "stream").bind Value.asBool).getD false

/-- The object that `stream_options` is set in, if it may be. -/
def injectable (json : SerdeValue B) (noInject : List String) (a : Arrival B) : Option Value :=
  if wantsStream json a && !a.strictPassthrough && a.path = "/v1/chat/completions" then
    (json.fromSlice a.body).filter fun v =>
      v.isObject && (v.get "stream_options").isNone && !noInject.contains a.model
  else none

def injected (json : SerdeValue B) (v : Value) : B :=
  json.toVec (v.set "stream_options" (.object [("include_usage", .bool true)]))

/-- The body to send, and the untouched one where that is another. -/
def inject (json : SerdeValue B) (noInject : List String) (a : Arrival B) : B × Option B :=
  match injectable json noInject a with
  | some v => (injected json v, some a.body)
  | none => (a.body, none)

/-! ### The loop -/

/-- A body that was sent, whether the lane supports `stream_options`, and the status it was answered with. -/
structure Attempt (B : Type) where
  body : B
  supports : Bool
  answer : Option Nat := none
  deriving DecidableEq

structure State (B : Type) where
  handle : Handle.State
  body : B
  fallback : Option B
  /-- The newest first. -/
  attempts : List (Attempt B) := []
  noInject : List String

inductive Op where
  | event (e : Handle.Event)
  /-- Other requests remember models, and settings make the proxy forget them. -/
  | others (noInject : List String)

def start (json : SerdeValue B) (noInject : List String) (a : Arrival B) : State B :=
  let (body, fallback) := inject json noInject a
  { handle := Handle.start (.streaming fallback.isSome), body, fallback, noInject }

namespace State

def send (s : State B) (supports : Bool) : State B :=
  match s.fallback with
  | some original =>
    if supports then { s with attempts := ⟨s.body, supports, none⟩ :: s.attempts }
    else { s with body := original, fallback := none, attempts := ⟨original, supports, none⟩ :: s.attempts }
  | none => { s with attempts := ⟨s.body, supports, none⟩ :: s.attempts }

def answered (s : State B) (code : Nat) : State B :=
  { s with attempts := s.attempts.modifyHead fun x => { x with answer := some code } }

def respond (s : State B) (model : String) (code : Nat) : State B :=
  match s.fallback with
  | some original =>
    if code = 400 then { s.answered code with body := original, fallback := none, noInject := model :: s.noInject }
    else s.answered code
  | none => s.answered code

/-- What the loop does with its two bodies at an event. -/
def bodies (s : State B) (model : String) : Handle.Event → State B
  | .granted (some supports) => s.send supports
  | .responded (some status) _ => s.respond model status.code
  | _ => s

end State

def step (t : Handle.Timers) (model : String) (s : State B) : Op → Option (State B)
  | .event e => (Handle.step t s.handle e).map fun handle => { s.bodies model e with handle }
  | .others noInject => some { s with noInject }

end

/-! ### What a handler step leaves -/

section
variable {t : Handle.Timers} {s s' : Handle.State}

def rejection (status : Handle.Status) (detail : String) : String := "upstream error " ++ status.text ++ ": " ++ detail

/-- A 400 is on its way to the client or has reached the channel, unless the client went away or the deadline of
the request passed. -/
inductive Surfacing (s : Handle.State) : Prop where
  | reading (status : Handle.Status) (code : status.code = 400) (phase : s.phase = .rejectBody status)
  | failing (status : Handle.Status) (detail : String) (code : status.code = 400)
    (phase : s.phase = .fail "upstream_unavailable" (rejection status detail))
  | surfaced (status : Handle.Status) (detail : String) (code : status.code = 400)
    (phase : s.phase = .done (some ("upstream_unavailable", rejection status detail)))
    (frame : Handle.sseErrorWithCode "upstream_unavailable" (rejection status detail) ∈ s.sent)
  | gone (done : s.isDone = true) (why : s.closed = true ∨ "deadline" ∈ s.statuses)

theorem step_granted {supports : Bool} (h : Handle.step t s (.granted (some supports)) = some s') :
    s.phase = .slot ∧ s' = { s with fallback := s.fallback && supports, phase := .upstream } := by
  simp only [Handle.step, Handle.State.resume] at h
  split at h <;> try cases h
  all_goals simp_all

theorem step_responded {status : Handle.Status} {expired : Bool} (hstreaming : s.streaming = true)
    (h : Handle.step t s (.responded (some status) expired) = some s') :
    s.phase = .upstream ∧ s' = s.respondStreaming status expired := by
  simp only [Handle.step, Handle.State.resume] at h
  split at h <;> try cases h
  all_goals simp_all

/-- The step keeps the two bodies as they are and sends none. -/
structure Leaves (s s' : Handle.State) : Prop where
  fallback : s'.fallback = s.fallback
  streaming : s'.streaming = s.streaming
  phase : s'.phase = .upstream → s.phase = .upstream

theorem leaves_finalize (s : Handle.State) (outcome : Sse.StreamOutcome) : Leaves s (s.finalizeSseObserver outcome) := by
  unfold Handle.State.finalizeSseObserver
  split <;> exact ⟨rfl, rfl, id⟩

theorem Leaves.failWith {s s₁ : Handle.State} (h : Leaves s s₁) (status message : String) :
    Leaves s (s₁.failWith status message) := ⟨h.fallback, h.streaming, fun hphase => by cases hphase⟩

theorem Leaves.finish {s s₁ : Handle.State} (h : Leaves s s₁) (status : String) (error : Option (String × String)) :
    Leaves s ((s₁.recordRequest status).finish error) := ⟨h.fallback, h.streaming, fun hphase => by cases hphase⟩

theorem leaves_refl (s : Handle.State) : Leaves s s := ⟨rfl, rfl, id⟩

theorem leaves_giveUp (s : Handle.State) : Leaves s s.giveUp := by
  unfold Handle.State.giveUp
  split
  · exact (leaves_refl s).failWith _ _
  · exact (leaves_refl s).finish _ _

theorem leaves_disconnect (s : Handle.State) : Leaves s s.disconnect := (leaves_finalize s _).finish _ _

theorem leaves_heartbeat (s : Handle.State) (frame : List UInt8) :
    Leaves s (if s.hasRoom then s.push frame else s.giveUp) := by
  split
  · exact ⟨rfl, rfl, id⟩
  · exact leaves_giveUp s

theorem leaves_send {s s' : Handle.State} {frame : List UInt8} {sent failed : Handle.State → Handle.State}
    (hsent : Leaves s (sent (s.push frame))) (hfailed : Leaves s (failed s))
    (h : s.send frame sent failed = some s') : Leaves s s' := by
  unfold Handle.State.send at h
  split at h
  · obtain rfl := Option.some.inj h
    exact hfailed
  · split at h
    · obtain rfl := Option.some.inj h
      exact hsent
    · cases h

/-- Only a grant sends a body, and only a response takes one back. -/
theorem resume_leaves {e : Handle.Event} (hgranted : ∀ supports, e ≠ .granted (some supports))
    (hresponded : ∀ status expired, e ≠ .responded (some status) expired) (h : s.resume t e = some s') :
    Leaves s s' := by
  unfold Handle.State.resume at h
  split at h
  · -- catalog
    obtain rfl := Option.some.inj h
    exact (leaves_refl s).finish _ _
  · -- connect
    exact leaves_send ⟨rfl, rfl, fun hphase => by cases hphase⟩ ((leaves_refl s).finish _ _) h
  · -- permit
    obtain rfl := Option.some.inj h
    split
    · exact ⟨rfl, rfl, fun hphase => by cases hphase⟩
    · exact leaves_giveUp s
  · -- heartbeat at the permit
    split at h
    · obtain rfl := Option.some.inj h
      exact leaves_heartbeat s _
    · cases h
  · -- heartbeat at the slot
    split at h
    · obtain rfl := Option.some.inj h
      exact leaves_heartbeat s _
    · cases h
  · -- no slot
    obtain rfl := Option.some.inj h
    exact leaves_giveUp s
  · -- slot
    exact absurd rfl (hgranted _)
  · -- connection error
    obtain rfl := Option.some.inj h
    exact ⟨rfl, rfl, fun hphase => by cases hphase⟩
  · -- response
    exact absurd rfl (hresponded _ _)
  · -- body of a response that is retried
    obtain rfl := Option.some.inj h
    refine ⟨rfl, rfl, fun hphase => ?_⟩
    dsimp only at hphase
    split at hphase <;> cases hphase
  · -- retrying
    exact leaves_send ⟨rfl, rfl, fun hphase => by cases hphase⟩ ((leaves_refl s).finish _ _) h
  · -- body of a rejected request
    obtain rfl := Option.some.inj h
    exact (leaves_refl s).failWith _ _
  · -- the buffered response was read
    obtain rfl := Option.some.inj h
    exact ⟨rfl, rfl, fun hphase => by cases hphase⟩
  · -- chunk
    obtain rfl := Option.some.inj h
    exact ⟨rfl, rfl, fun hphase => by cases hphase⟩
  · -- end of the stream
    obtain rfl := Option.some.inj h
    exact (leaves_finalize s _).finish _ _
  · -- broken
    obtain rfl := Option.some.inj h
    exact (leaves_finalize s _).failWith _ _
  · -- stalled
    split at h
    · obtain rfl := Option.some.inj h
      exact (leaves_finalize s _).failWith _ _
    · cases h
  · -- the client went away
    split at h
    · obtain rfl := Option.some.inj h
      exact leaves_disconnect s
    · cases h
  · -- a chunk on its way
    exact leaves_send ⟨rfl, rfl, fun hphase => by cases hphase⟩ (leaves_disconnect s) h
  · -- an error frame on its way
    exact leaves_send ⟨rfl, rfl, fun hphase => by cases hphase⟩ ⟨rfl, rfl, fun hphase => by cases hphase⟩ h
  · cases h

theorem expire_done (s : Handle.State) : s.expire.isDone = true := by
  unfold Handle.State.expire
  dsimp only
  split <;> rfl

theorem leaves_expire (s : Handle.State) : Leaves s s.expire := by
  obtain ⟨hfallback, hstreaming, -⟩ := leaves_finalize s .deadline
  unfold Handle.State.expire
  dsimp only
  split <;> exact ⟨hfallback, hstreaming, fun hphase => by cases hphase⟩

theorem step_leaves {e : Handle.Event} (hgranted : ∀ supports, e ≠ .granted (some supports))
    (hresponded : ∀ status expired, e ≠ .responded (some status) expired) (h : Handle.step t s e = some s') :
    Leaves s s' := by
  unfold Handle.step at h
  split at h
  · split at h
    · cases h
    · obtain rfl := Option.some.inj h
      exact ⟨rfl, rfl, id⟩
  · split at h
    · obtain rfl := Option.some.inj h
      exact ⟨rfl, rfl, id⟩
    · cases h
  · split at h
    · obtain rfl := Option.some.inj h
      exact leaves_expire s
    · cases h
  · exact resume_leaves hgranted hresponded h

/-! ### A 400 on its way -/

theorem isDone_iff : s.isDone = true ↔ ∃ error, s.phase = .done error := by
  unfold Handle.State.isDone
  split
  · rename_i error hphase
    exact ⟨fun _ => ⟨error, hphase⟩, fun _ => rfl⟩
  · rename_i hphase
    constructor
    · rintro ⟨⟩
    · rintro ⟨error, h⟩
      exact absurd h (hphase error)

/-- A request that has ended only empties its channel. -/
theorem step_of_isDone {e : Handle.Event} (hdone : s.isDone = true) (h : Handle.step t s e = some s') :
    s'.phase = s.phase ∧ s'.sent = s.sent ∧ s'.statuses = s.statuses ∧ (s.closed = true → s'.closed = true) := by
  unfold Handle.step at h
  split at h
  · split at h
    · cases h
    · obtain rfl := Option.some.inj h
      exact ⟨rfl, rfl, rfl, id⟩
  · split at h
    · obtain rfl := Option.some.inj h
      exact ⟨rfl, rfl, rfl, fun _ => rfl⟩
    · cases h
  · rw [hdone, Bool.not_true, Bool.and_false, if_neg Bool.false_ne_true] at h
    cases h
  · obtain ⟨error, hphase⟩ := isDone_iff.1 hdone
    simp only [Handle.State.resume, hphase] at h
    cases h

/-- A step that is not the handler's own, or the deadline. -/
theorem step_cases {e : Handle.Event} (h : Handle.step t s e = some s') :
    (s'.phase = s.phase ∧ s'.sent = s.sent ∧ s'.statuses = s.statuses) ∨
      (s'.isDone = true ∧ "deadline" ∈ s'.statuses) ∨ s.resume t e = some s' := by
  unfold Handle.step at h
  split at h
  · split at h
    · cases h
    · obtain rfl := Option.some.inj h
      exact .inl ⟨rfl, rfl, rfl⟩
  · split at h
    · obtain rfl := Option.some.inj h
      exact .inl ⟨rfl, rfl, rfl⟩
    · cases h
  · split at h
    · obtain rfl := Option.some.inj h
      refine .inr (.inl ⟨expire_done s, ?_⟩)
      rw [Handle.State.expire_statuses]
      simp
    · cases h
  · exact .inr (.inr h)

theorem Surfacing.step {e : Handle.Event} (hs : Surfacing s) (h : Handle.step t s e = some s') : Surfacing s' := by
  cases hs with
  | reading status code phase =>
    rcases step_cases h with ⟨hphase, -⟩ | ⟨hdone, hdeadline⟩ | hresume
    · exact .reading status code (hphase.trans phase)
    · exact .gone hdone (.inr hdeadline)
    · cases e with
      | body detail =>
        simp only [Handle.State.resume, phase] at hresume
        obtain rfl := Option.some.inj hresume
        exact .failing status detail code rfl
      | _ =>
        simp only [Handle.State.resume, phase] at hresume
        cases hresume
  | failing status detail code phase =>
    rcases step_cases h with ⟨hphase, -⟩ | ⟨hdone, hdeadline⟩ | hresume
    · exact .failing status detail code (hphase.trans phase)
    · exact .gone hdone (.inr hdeadline)
    · cases e with
      | pushed =>
        simp only [Handle.State.resume, phase] at hresume
        unfold Handle.State.send at hresume
        split at hresume
        · rename_i hclosed
          obtain rfl := Option.some.inj hresume
          exact .gone rfl (.inl hclosed)
        · split at hresume
          · obtain rfl := Option.some.inj hresume
            exact .surfaced status detail code rfl (List.mem_append_right _ (List.mem_singleton.2 rfl))
          · cases hresume
      | _ =>
        simp only [Handle.State.resume, phase] at hresume
        cases hresume
  | surfaced status detail code phase frame =>
    obtain ⟨hphase, hsent, -⟩ := step_of_isDone (isDone_iff.2 ⟨_, phase⟩) h
    exact .surfaced status detail code (hphase.trans phase) (hsent ▸ frame)
  | gone done why =>
    obtain ⟨hphase, -, hstatuses, hclosed⟩ := step_of_isDone done h
    obtain ⟨error, herror⟩ := isDone_iff.1 done
    refine .gone (isDone_iff.2 ⟨error, hphase.trans herror⟩) ?_
    rcases why with hc | hd
    · exact .inl (hclosed hc)
    · exact .inr (hstatuses ▸ hd)

end

/-! ### The bodies that were sent -/

section
variable {B : Type} (json : SerdeValue B) (noInject : List String) (a : Arrival B)

/-- When and as what the injected body may be sent. -/
structure MayInject (body : B) : Prop where
  strict : a.strictPassthrough = false
  path : a.path = "/v1/chat/completions"
  accepted : a.model ∉ noInject
  unset : ∃ v, json.fromSlice a.body = some v ∧ v.get "stream_options" = none ∧ body = injected json v

theorem mayInject_of_injectable {v : Value} (h : injectable json noInject a = some v) :
    MayInject json noInject a (injected json v) := by
  unfold injectable at h
  split at h
  · rename_i hcond
    simp only [Bool.and_eq_true, Bool.not_eq_true', decide_eq_true_eq] at hcond
    obtain ⟨⟨-, hstrict⟩, hpath⟩ := hcond
    obtain ⟨hparsed, hv⟩ := Option.filter_eq_some_iff.1 h
    simp only [Bool.and_eq_true, Bool.not_eq_true', Option.isNone_iff_eq_none] at hv
    obtain ⟨⟨-, hunset⟩, hnoInject⟩ := hv
    exact ⟨hstrict, hpath, by simpa using hnoInject, v, hparsed, hunset, rfl⟩
  · cases h

/-- The attempts are those with the injected body, and after them those with the untouched one. Of the former only
the last was answered 400; a 400 to the latter is the last answer, and on its way. -/
structure Split (s : State B) (later earlier : List (Attempt B)) : Prop where
  attempts : s.attempts = later ++ earlier
  originals : ∀ x ∈ later, x.body = a.body
  injecteds : ∀ x ∈ earlier, x.supports = true ∧ MayInject json noInject a x.body
  once : ∀ x ∈ earlier.tail, x.answer ≠ some 400
  last : ∀ x ∈ later.tail, x.answer ≠ some 400
  surfacing : ∀ x ∈ later.head?, x.answer = some 400 → Surfacing s.handle
  kept : ∀ original, s.fallback = some original → original = a.body ∧ later = [] ∧ MayInject json noInject a s.body ∧
    ∀ x ∈ earlier, x.answer ≠ some 400
  used : s.fallback = none → s.body = a.body ∧ (s.handle.phase = .upstream → later ≠ [])
  sent : s.handle.phase = .upstream → ∃ x ∈ s.attempts.head?, x.body = s.body

structure Inv (s : State B) : Prop where
  fallback : s.handle.fallback = s.fallback.isSome
  streaming : s.handle.streaming = true
  split : ∃ later earlier, Split json noInject a s later earlier

variable {json noInject a}

theorem inv_start : Inv json noInject a (start json noInject a) := by
  rw [start, inject]
  cases h : injectable json noInject a with
  | some v =>
    refine ⟨rfl, rfl, [], [], rfl, nofun, nofun, nofun, nofun, nofun, fun original ho => ?_, nofun, nofun⟩
    exact ⟨(Option.some.inj ho).symm, rfl, mayInject_of_injectable json noInject a h, nofun⟩
  | none => exact ⟨rfl, rfl, [], [], rfl, nofun, nofun, nofun, nofun, nofun, nofun, fun _ => ⟨rfl, nofun⟩, nofun⟩

theorem State.head?_send (s : State B) (supports : Bool) :
    (s.send supports).attempts.head? = some ⟨(s.send supports).body, supports, none⟩ := by
  unfold State.send
  split
  · split <;> rfl
  · rfl

theorem Split.no_400 {s : State B} {later earlier : List (Attempt B)} (h : Split json noInject a s later earlier)
    (hquiet : ¬ Surfacing s.handle) : ∀ x ∈ later, x.answer ≠ some 400 := by
  intro x hx hanswer
  cases later with
  | nil => cases hx
  | cons y ys =>
    rcases List.mem_cons.1 hx with rfl | hx
    · exact hquiet (h.surfacing x rfl hanswer)
    · exact h.last x hx hanswer

/-- A lane is granted. -/
theorem Split.send {s : State B} {later earlier : List (Attempt B)} (h : Split json noInject a s later earlier)
    (hquiet : ¬ Surfacing s.handle) (supports : Bool) (handle : Handle.State) :
    ∃ later' earlier', Split json noInject a { s.send supports with handle } later' earlier' := by
  cases hf : s.fallback with
  | some original =>
    obtain ⟨rfl, hlater, hmay, hno⟩ := h.kept original hf
    subst hlater
    cases supports with
    | true =>
      refine ⟨[], ⟨s.body, true, none⟩ :: earlier, ?_, nofun, fun x hx => ?_, hno, nofun, nofun, fun o ho => ?_, ?_,
        fun _ => ⟨_, s.head?_send true, rfl⟩⟩
      · simp only [State.send, hf, if_true, h.attempts, List.nil_append]
      · rcases List.mem_cons.1 hx with rfl | hx
        · exact ⟨rfl, hmay⟩
        · exact h.injecteds x hx
      · simp only [State.send, hf, if_true] at ho ⊢
        refine ⟨(Option.some.inj ho).symm, trivial, hmay, fun x hx => ?_⟩
        rcases List.mem_cons.1 hx with rfl | hx
        · nofun
        · exact hno x hx
      · simp only [State.send, hf, if_true]
        nofun
    | false =>
      refine ⟨[⟨a.body, false, none⟩], earlier, ?_, fun x hx => ?_, h.injecteds, h.once, nofun, fun x hx => ?_, ?_, ?_,
        fun _ => ⟨_, s.head?_send false, rfl⟩⟩
      · simp only [State.send, hf, Bool.false_eq_true, if_false, h.attempts, List.nil_append, List.singleton_append]
      · rw [List.mem_singleton.1 hx]
      · rw [← Option.some.inj hx]
        nofun
      · simp only [State.send, hf, Bool.false_eq_true, if_false]
        nofun
      · simp only [State.send, hf, Bool.false_eq_true, if_false]
        exact fun _ => ⟨trivial, fun _ => List.cons_ne_nil _ _⟩
  | none =>
    obtain ⟨hbody, -⟩ := h.used hf
    refine ⟨⟨s.body, supports, none⟩ :: later, earlier, ?_, fun x hx => ?_, h.injecteds, h.once, h.no_400 hquiet,
      fun x hx => ?_, ?_, ?_, fun _ => ⟨_, s.head?_send supports, rfl⟩⟩
    · simp only [State.send, hf, h.attempts, List.cons_append]
    · rcases List.mem_cons.1 hx with rfl | hx
      · exact hbody
      · exact h.originals x hx
    · rw [← Option.some.inj hx]
      nofun
    · simp only [State.send, hf]
      nofun
    · simp only [State.send, hf]
      exact fun _ => ⟨hbody, fun _ => List.cons_ne_nil _ _⟩

/-- The upstream answers. -/
theorem Split.respond {s : State B} {later earlier : List (Attempt B)} (h : Split json noInject a s later earlier)
    (hphase : s.handle.phase = .upstream) (code : Nat) (handle : Handle.State)
    (hreject : s.fallback = none → code = 400 → Surfacing handle) (hnext : handle.phase ≠ .upstream) :
    ∃ later' earlier', Split json noInject a { s.respond a.model code with handle } later' earlier' := by
  cases hf : s.fallback with
  | some original =>
    obtain ⟨rfl, hlater, hmay, hno⟩ := h.kept original hf
    subst hlater
    have hattempts : s.attempts = earlier := h.attempts
    have hinjecteds : ∀ x ∈ earlier.modifyHead fun x => { x with answer := some code },
        x.supports = true ∧ MayInject json noInject a x.body := by
      intro x hx
      cases earlier with
      | nil => cases hx
      | cons y ys =>
        rcases List.mem_cons.1 hx with rfl | hx
        · exact h.injecteds y List.mem_cons_self
        · exact h.injecteds x (List.mem_cons_of_mem _ hx)
    have htail : (earlier.modifyHead fun x => { x with answer := some code }).tail = earlier.tail := by
      cases earlier <;> rfl
    have honce : ∀ x ∈ (earlier.modifyHead fun x => { x with answer := some code }).tail, x.answer ≠ some 400 := by
      rw [htail]
      exact fun x hx => hno x (List.mem_of_mem_tail hx)
    by_cases hcode : code = 400
    · refine ⟨[], _, ?_, nofun, hinjecteds, honce, nofun, nofun, ?_, ?_, fun hp => absurd hp hnext⟩
      · simp only [State.respond, hf, hcode, if_true, State.answered, hattempts, List.nil_append]
      · simp only [State.respond, hf, hcode, if_true]
        nofun
      · simp only [State.respond, hf, hcode, if_true]
        exact fun _ => ⟨trivial, fun hp => absurd hp hnext⟩
    · refine ⟨[], _, ?_, nofun, hinjecteds, honce, nofun, nofun, ?_, ?_, fun hp => absurd hp hnext⟩
      · simp only [State.respond, hf, hcode, if_false, State.answered, hattempts, List.nil_append]
      · simp only [State.respond, hf, hcode, if_false, State.answered]
        intro o ho
        refine ⟨(Option.some.inj ho).symm, trivial, hmay, fun x hx => ?_⟩
        cases earlier with
        | nil => cases hx
        | cons y ys =>
          rcases List.mem_cons.1 hx with rfl | hx
          · exact fun hanswer => hcode (Option.some.inj hanswer)
          · exact hno x (List.mem_cons_of_mem _ hx)
      · simp only [State.respond, hf, hcode, if_false, State.answered]
        nofun
  | none =>
    obtain ⟨hbody, hne⟩ := h.used hf
    obtain ⟨y, ys, rfl⟩ := List.exists_cons_of_ne_nil (hne hphase)
    refine ⟨{ y with answer := some code } :: ys, earlier, ?_, fun x hx => ?_, h.injecteds, h.once, h.last,
      fun x hx hanswer => ?_, ?_, ?_, fun hp => absurd hp hnext⟩
    · simp only [State.respond, hf, State.answered, h.attempts, List.cons_append, List.modifyHead_cons]
    · rcases List.mem_cons.1 hx with rfl | hx
      · exact h.originals y List.mem_cons_self
      · exact h.originals x (List.mem_cons_of_mem _ hx)
    · rw [← Option.some.inj hx] at hanswer
      exact hreject hf (Option.some.inj hanswer)
    · simp only [State.respond, hf, State.answered]
      nofun
    · simp only [State.respond, hf, State.answered]
      exact fun _ => ⟨hbody, fun _ => List.cons_ne_nil _ _⟩

/-- Nothing is sent or answered. -/
theorem Split.leave {s : State B} {later earlier : List (Attempt B)} (h : Split json noInject a s later earlier)
    {handle : Handle.State} (hsurfacing : Surfacing s.handle → Surfacing handle)
    (hphase : handle.phase = .upstream → s.handle.phase = .upstream) :
    Split json noInject a { s with handle } later earlier :=
  { h with
    surfacing := fun x hx hanswer => hsurfacing (h.surfacing x hx hanswer)
    used := fun hf => ⟨(h.used hf).1, fun hp => (h.used hf).2 (hphase hp)⟩
    sent := fun hp => h.sent (hphase hp) }

theorem not_surfacing {s : Handle.State} (h : s.phase = .slot ∨ s.phase = .upstream) : ¬ Surfacing s := by
  rintro (⟨status, -, hphase⟩ | ⟨status, detail, -, hphase⟩ | ⟨status, detail, -, hphase, -⟩ | ⟨hdone, -⟩)
  · rcases h with h | h <;> rw [h] at hphase <;> cases hphase
  · rcases h with h | h <;> rw [h] at hphase <;> cases hphase
  · rcases h with h | h <;> rw [h] at hphase <;> cases hphase
  · obtain ⟨error, hphase⟩ := isDone_iff.1 hdone
    rcases h with h | h <;> rw [h] at hphase <;> cases hphase

/-- What the handler makes of an answer: a 400 to the injected body is retried, one to the untouched body is not. -/
theorem respondStreaming_cases (s : Handle.State) (status : Handle.Status) (expired : Bool) :
    (s.respondStreaming status expired).streaming = s.streaming ∧
      (s.respondStreaming status expired).phase ≠ .upstream ∧
      (s.respondStreaming status expired).fallback = (s.fallback && status.code != 400) ∧
      (status.code = 400 → (s.respondStreaming status expired).phase =
        if s.fallback then .permit else .rejectBody status) := by
  unfold Handle.State.respondStreaming
  by_cases hcode : status.code = 400
  · have hretryable : Handle.retryable status.code = false := by rw [hcode]; rfl
    have hsuccess : Handle.isSuccess status.code = false := by rw [hcode]; rfl
    cases hf : s.fallback with
    | true => simp [hcode]
    | false => simp [hcode, hcode ▸ hretryable, hcode ▸ hsuccess]
  · rw [if_neg fun h => hcode h.1]
    have hne : (status.code != 400) = true := by simpa using hcode
    rw [hne, Bool.and_true]
    split
    · split <;> exact ⟨rfl, nofun, rfl, fun h => absurd h hcode⟩
    · split <;> exact ⟨rfl, nofun, rfl, fun h => absurd h hcode⟩

variable {t : Handle.Timers}

theorem step_inv {s s' : State B} {op : Op} (h : Inv json noInject a s) (hs : step t a.model s op = some s') :
    Inv json noInject a s' := by
  obtain ⟨hfallback, hstreaming, later, earlier, hsplit⟩ := h
  cases op with
  | others others =>
    obtain rfl := Option.some.inj hs
    exact ⟨hfallback, hstreaming, later, earlier, { hsplit with }⟩
  | event e =>
    obtain ⟨handle, hstep, rfl⟩ := Option.map_eq_some_iff.1 hs
    have hquiet (hgranted : ∀ supports, e ≠ .granted (some supports))
        (hresponded : ∀ status expired, e ≠ .responded (some status) expired) (hbodies : s.bodies a.model e = s) :
        Inv json noInject a { s.bodies a.model e with handle } := by
      obtain ⟨hfallback', hstreaming', hphase⟩ := step_leaves hgranted hresponded hstep
      rw [hbodies]
      exact ⟨hfallback'.trans hfallback, hstreaming'.trans hstreaming, later, earlier,
        hsplit.leave (fun hsurfacing => hsurfacing.step hstep) hphase⟩
    cases e with
    | granted slot =>
      cases slot with
      | none => exact hquiet nofun nofun rfl
      | some supports =>
        obtain ⟨hphase, rfl⟩ := step_granted hstep
        refine ⟨?_, hstreaming, hsplit.send (not_surfacing (.inl hphase)) supports _⟩
        show (s.handle.fallback && supports) = (s.send supports).fallback.isSome
        rw [hfallback, State.send]
        cases hf : s.fallback with
        | none => rfl
        | some original => cases supports <;> rfl
    | responded status expired =>
      cases status with
      | none => exact hquiet nofun nofun rfl
      | some status =>
        obtain ⟨hphase, rfl⟩ := step_responded hstreaming hstep
        obtain ⟨hstreaming', hnext, hfallback', hreject⟩ := respondStreaming_cases s.handle status expired
        refine ⟨?_, hstreaming'.trans hstreaming, hsplit.respond hphase status.code _ (fun hf hcode => ?_) hnext⟩
        · show (s.handle.respondStreaming status expired).fallback = (s.respond a.model status.code).fallback.isSome
          rw [hfallback', hfallback, State.respond]
          cases hf : s.fallback with
          | none => simp [State.answered, hf]
          | some original => by_cases hcode : status.code = 400 <;> simp [hf, hcode, State.answered]
        · refine .reading status hcode ?_
          rw [hreject hcode, hfallback, hf]
          rfl
    | answered | admitted | heartbeat | body | pushed | chunk | ended | broken | stalled | noticed | drained | hungUp |
      deadline => exact hquiet nofun nofun rfl

end

/-! ### A model that rejects the field -/

/-- One chat request and its injected form. -/
def chatJson : SerdeValue String where
  empty := ""
  fromSlice body := if body = "chat" then some (.object [("stream", .bool true)]) else none
  toVec _ := "chat with usage"

def chat (strictPassthrough : Bool) : Arrival String := ⟨"chat", "/v1/chat/completions", "m", strictPassthrough⟩

def badRequest : Handle.Status := ⟨400, "400 Bad Request"⟩

def rejected : List Op :=
  [.event .pushed, .event (.admitted true), .event (.granted (some true)), .event (.responded (some badRequest) false)]

/-- How a request has ended, and the error that went out. -/
def ending (s : Handle.State) : Option (Option (String × String)) :=
  match s.phase with
  | .done error => some error
  | _ => none

end Injection

end OpenProxy
