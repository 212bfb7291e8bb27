import OpenProxy.Lib.Transition
import OpenProxy.Sse
import OpenProxy.Text

/-!
# The life of a proxied request (`handle`, `buffered`, `streaming` of `proxy.rs`)

The handler goes from one await point to the next. What it awaits is an event: the answer of an admission gate or
of the upstream, room in the channel to the client, the client going away, the deadline the request carries in
`x-openproxy-deadline-ms`. Between two awaits it runs without interruption; at an await the deadline may cancel it.
-/

namespace OpenProxy.Handle

open Text Transition

/-! ### Error frames -/

/-- A character of a JSON string. -/
def escapeChar (c : Char) : List Char :=
  match c with
  | '"' => ['\\', '"']
  | '\\' => ['\\', '\\']
  | '\x08' => ['\\', 'b']
  | '\x0c' => ['\\', 'f']
  | '\n' => ['\\', 'n']
  | '\r' => ['\\', 'r']
  | '\t' => ['\\', 't']
  | c => if c.toNat < 32 then ['\\', 'u', '0', '0', Nat.digitChar (c.toNat / 16), Nat.digitChar (c.toNat % 16)] else [c]

def jsonText (s : String) : List Char := '"' :: s.toList.flatMap escapeChar ++ ['"']

def utf8 (cs : List Char) : List UInt8 := cs.flatMap String.utf8EncodeChar

/-- The text of `proxy_error_json`; an object shows its keys in order. -/
def proxyErrorJson (code message : String) : List UInt8 :=
  utf8 ("\x7b\"error\":\x7b\"code\":".toList ++ jsonText code ++ ",\"message\":".toList ++ jsonText message ++
    ",\"type\":\"proxy_error\"\x7d\x7d".toList)

def sseErrorWithCode (code message : String) : List UInt8 :=
  Sse.ascii "data: " ++ proxyErrorJson code message ++ Sse.ascii "\n\ndata: [DONE]\n\n"

/-! ### Arrival -/

structure Arrival where
  setupRequired : Bool
  /-- Requests in flight, this one included. -/
  inflight : Nat
  maxInflight : Nat
  /-- The client the bearer belongs to; `local` in open mode. -/
  client : Option String
  /-- The deadline header, `none` if it does not parse. -/
  requestDeadline : Option (Option Nat)
  /-- `route_model` of the model the request names. -/
  route : Option (List Nat)
  get : Bool
  path : String
  wantsStream : Bool
  /-- `stream_options` may be set on the client's behalf. -/
  injectable : Bool

/-- Where `handle` sends a request. -/
inductive Entry where
  | refused
  | unroutable
  | catalog
  | buffered
  | streaming (injected : Bool)
  deriving DecidableEq, Repr

def perModelPath (path : String) : Bool := (stripPrefix path "/v1/models/").any (· ≠ "")

def handle (a : Arrival) : Entry :=
  if a.setupRequired || decide (a.maxInflight < a.inflight) || a.client.isNone || a.requestDeadline.isNone then .refused
  else
    match a.route with
    | none | some [] => .unroutable
    | some (_ :: _) =>
      if a.get && (a.path = "/v1/models" || perModelPath a.path) then .catalog
      else if a.wantsStream then .streaming (a.path = "/v1/chat/completions" && a.injectable)
      else .buffered

/-! ### Await points and events -/

/-- The status of a response: its code, and its text in a message (code and reason). -/
structure Status where
  code : Nat
  text : String

def retryable (code : Nat) : Bool := code ∈ [429, 500, 502, 503, 504]

def isSuccess (code : Nat) : Bool := 200 ≤ code && code < 300

/-- What the request awaits. -/
inductive Phase where
  /-- The catalog. -/
  | catalog
  /-- Room for the first comment. -/
  | connect
  | permit
  | slot
  | upstream
  /-- The body of a response that is retried. -/
  | retryBody
  | retrying
  /-- The body of a response that is passed on as an error. -/
  | rejectBody (status : Status)
  /-- Buffered: the body of the response. -/
  | relay
  /-- Streaming: the next chunk, or the client going away. -/
  | read
  | forward (chunk : List UInt8)
  /-- Room for an error frame. -/
  | fail (code message : String)
  /-- The end; `error` is the error frame that went out, if one did. -/
  | done (error : Option (String × String))

inductive Event where
  | answered (code : Nat)
  | admitted (ok : Bool)
  /-- The slot, if there is one, is on a lane that supports `stream_options` or does not. -/
  | granted (slot : Option Bool)
  | heartbeat
  /-- The upstream answers, or the connection fails; `expired`: the wait deadline has passed. -/
  | responded (status : Option Status) (expired : Bool)
  | body (detail : String)
  /-- A pending `tx.send` returns. -/
  | pushed
  | chunk (bytes : List UInt8)
  | ended
  | broken
  | stalled
  /-- `tx.closed()` returns. -/
  | noticed
  /-- The client takes a frame out of the channel. -/
  | drained
  | hungUp
  /-- The request deadline passes. -/
  | deadline

/-- Which of the two timers the request has. -/
structure Timers where
  requestDeadline : Bool
  streamIdle : Bool

def timers (a : Arrival) (streamIdle : Nat) : Timers :=
  ⟨(a.requestDeadline.getD none).isSome, decide (0 < streamIdle)⟩

structure State where
  streaming : Bool
  phase : Phase
  /-- The untouched body is still kept for a retry. -/
  fallback : Bool := false
  /-- The frames that went into the channel, and how many of them wait there. -/
  sent : List (List UInt8) := []
  queued : Nat := 0
  closed : Bool := false
  /-- The statuses `nimproxy_requests_total` counted the request under. -/
  statuses : List String := []
  /-- The chunks the observer was given, and what it was finished with. -/
  observer : Option (List (List UInt8)) := none
  observations : List (List (List UInt8) × Sse.StreamOutcome) := []

def capacity : Nat := 16

namespace State

def recordRequest (s : State) (status : String) : State := { s with statuses := s.statuses ++ [status] }

def finalizeSseObserver (s : State) (outcome : Sse.StreamOutcome) : State :=
  match s.observer with
  | none => s
  | some chunks => { s with observer := none, observations := s.observations ++ [(chunks, outcome)] }

def push (s : State) (frame : List UInt8) : State := { s with sent := s.sent ++ [frame], queued := s.queued + 1 }

def hasRoom (s : State) : Bool := !s.closed && decide (s.queued < capacity)

/-- `tx.send(frame).await`: it waits for room, and fails once the client is gone. -/
def send (s : State) (frame : List UInt8) (sent failed : State → State) : Option State :=
  if s.closed then some (failed s) else if s.queued < capacity then some (sent (s.push frame)) else none

def finish (s : State) (error : Option (String × String)) : State := { s with phase := .done error }

/-- Record a status and send the client an error frame. -/
def failWith (s : State) (status message : String) : State :=
  { s.recordRequest status with phase := .fail "upstream_unavailable" message }

/-- No slot before the wait deadline. -/
def giveUp (s : State) : State :=
  if s.streaming then s.failWith "504" "proxy timed out waiting for an upstream slot"
  else (s.recordRequest "504").finish none

/-- The client went away. -/
def disconnect (s : State) : State :=
  ((s.finalizeSseObserver .disconnected).recordRequest "disconnect").finish none

/-- The answer of the upstream, buffered. -/
def respondBuffered (s : State) (status : Status) (expired : Bool) : State :=
  if retryable status.code && !expired then { s with phase := .retryBody }
  else { s.recordRequest (toString status.code) with phase := .relay }

/-- The answer of the upstream, streaming. -/
def respondStreaming (s : State) (status : Status) (expired : Bool) : State :=
  if status.code = 400 ∧ s.fallback then { s with fallback := false, phase := .permit }
  else if retryable status.code then
    if expired then s.failWith "504" "upstream unavailable, retries exhausted" else { s with phase := .retryBody }
  else if isSuccess status.code then { s with observer := some [], phase := .read }
  else { s with phase := .rejectBody status }

/-- The arm of the request deadline. -/
def expire (s : State) : State :=
  let s := (s.finalizeSseObserver .deadline).recordRequest "deadline"
  if s.streaming && s.hasRoom then
    (s.push (sseErrorWithCode "deadline_exceeded" "proxy request deadline exceeded")).finish
      (some ("deadline_exceeded", "proxy request deadline exceeded"))
  else s.finish none

end State

def start : Entry → State
  | .refused => { streaming := false, phase := .done none }
  | .unroutable => { streaming := false, phase := .done none, statuses := ["404"] }
  | .catalog => { streaming := false, phase := .catalog }
  | .buffered => { streaming := false, phase := .permit }
  | .streaming injected => { streaming := true, phase := .connect, fallback := injected }

/-- What happens at an await point other than the deadline. -/
def State.resume (t : Timers) (s : State) (event : Event) : Option State :=
  match s.phase, event with
  | .catalog, .answered code => some ((s.recordRequest (toString code)).finish none)
  | .connect, .pushed =>
    s.send (Sse.ascii ": connected\n\n") (fun s => { s with phase := .permit })
      fun s => (s.recordRequest "disconnect").finish none
  | .permit, .admitted ok => some (if ok then { s with phase := .slot } else s.giveUp)
  | .permit, .heartbeat | .slot, .heartbeat =>
    if s.streaming then some (if s.hasRoom then s.push (Sse.ascii ": heartbeat\n\n") else s.giveUp) else none
  | .slot, .granted none => some s.giveUp
  | .slot, .granted (some supportsStreamOptions) =>
    some { s with fallback := s.fallback && supportsStreamOptions, phase := .upstream }
  | .upstream, .responded none _ => some { s with phase := .permit }
  | .upstream, .responded (some status) expired =>
    some (if s.streaming then s.respondStreaming status expired else s.respondBuffered status expired)
  | .retryBody, .body _ => some { s with phase := if s.streaming then .retrying else .permit }
  | .retrying, .pushed =>
    s.send (Sse.ascii ": retrying\n\n") (fun s => { s with phase := .permit })
      fun s => (s.recordRequest "disconnect").finish none
  | .rejectBody status, .body detail =>
    some (s.failWith (toString status.code) ("upstream error " ++ status.text ++ ": " ++ detail))
  | .relay, .body _ => some (s.finish none)
  | .read, .chunk bytes => some { s with observer := s.observer.map (· ++ [bytes]), phase := .forward bytes }
  | .read, .ended => some (((s.finalizeSseObserver .completed).recordRequest "200").finish none)
  | .read, .broken => some ((s.finalizeSseObserver .truncated).failWith "stream_error" "upstream stream interrupted")
  | .read, .stalled =>
    if t.streamIdle then some ((s.finalizeSseObserver .truncated).failWith "stall" "upstream stream stalled") else none
  | .read, .noticed => if s.closed then some s.disconnect else none
  | .forward chunk, .pushed => s.send chunk (fun s => { s with phase := .read }) State.disconnect
  | .fail code message, .pushed =>
    s.send (sseErrorWithCode code message) (State.finish · (some (code, message))) (State.finish · none)
  | _, _ => none

def State.isDone (s : State) : Bool :=
  match s.phase with
  | .done _ => true
  | _ => false

def step (t : Timers) (s : State) (event : Event) : Option State :=
  match event with
  | .drained => if s.closed || s.queued = 0 then none else some { s with queued := s.queued - 1 }
  | .hungUp => if s.streaming && !s.closed then some { s with closed := true } else none
  | .deadline => if t.requestDeadline && !s.isDone then some s.expire else none
  | event => s.resume t event

/-! ### What a step records -/

/-- No status was recorded yet, and the request goes on. -/
def State.pending (s : State) : Bool :=
  match s.phase with
  | .relay | .fail .. | .done _ => false
  | _ => true

variable {t : Timers} {s s' : State} {event : Event}

namespace State

@[simp] theorem finalize_statuses (s : State) (outcome : Sse.StreamOutcome) :
    (s.finalizeSseObserver outcome).statuses = s.statuses := by
  unfold finalizeSseObserver
  split <;> rfl

@[simp] theorem push_statuses (s : State) (frame : List UInt8) : (s.push frame).statuses = s.statuses := rfl

@[simp] theorem finish_statuses (s : State) (error : Option (String × String)) :
    (s.finish error).statuses = s.statuses := rfl

@[simp] theorem finish_pending (s : State) (error : Option (String × String)) : (s.finish error).pending = false := rfl

theorem expire_statuses (s : State) : s.expire.statuses = s.statuses ++ ["deadline"] := by
  unfold expire
  dsimp only
  split <;> simp [recordRequest]

/-- The step records nothing, or its status is the last thing the request waited for. -/
inductive Records (s s' : State) : Prop where
  | nothing (statuses : s'.statuses = s.statuses) (pending : s'.pending = s.pending)
  | status (status : String) (statuses : s'.statuses = s.statuses ++ [status]) (before : s.pending = true)
    (after : s'.pending = false)

theorem records_failWith (h : s.pending = true) (s₁ : State) (h₁ : s₁.statuses = s.statuses) (status message : String) :
    Records s (s₁.failWith status message) :=
  .status status (by rw [failWith, recordRequest, h₁]) h rfl

theorem records_finish (h : s.pending = true) (s₁ : State) (h₁ : s₁.statuses = s.statuses) (status : String)
    (error : Option (String × String)) : Records s ((s₁.recordRequest status).finish error) :=
  .status status (by rw [finish_statuses, recordRequest, h₁]) h rfl

theorem records_giveUp (h : s.pending = true) : Records s s.giveUp := by
  unfold giveUp
  split
  · exact records_failWith h s rfl _ _
  · exact records_finish h s rfl _ _

theorem records_disconnect (h : s.pending = true) : Records s s.disconnect :=
  records_finish h _ (finalize_statuses _ _) _ _

theorem records_send {frame : List UInt8} {sent failed : State → State}
    (hsent : Records s (sent (s.push frame))) (hfailed : Records s (failed s))
    (h : s.send frame sent failed = some s') : Records s s' := by
  unfold send at h
  split at h
  · obtain rfl := Option.some.inj h
    exact hfailed
  · split at h
    · obtain rfl := Option.some.inj h
      exact hsent
    · cases h

theorem records_respondBuffered (h : s.phase = .upstream) (status : Status) (expired : Bool) :
    Records s (s.respondBuffered status expired) := by
  have hpending : s.pending = true := by rw [pending, h]
  unfold respondBuffered
  split
  · exact .nothing rfl hpending.symm
  · exact .status _ rfl hpending rfl

theorem records_respondStreaming (h : s.phase = .upstream) (status : Status) (expired : Bool) :
    Records s (s.respondStreaming status expired) := by
  have hpending : s.pending = true := by rw [pending, h]
  unfold respondStreaming
  split
  · exact .nothing rfl hpending.symm
  split
  · split
    · exact records_failWith hpending s rfl _ _
    · exact .nothing rfl hpending.symm
  split
  · exact .nothing rfl hpending.symm
  · exact .nothing rfl hpending.symm

theorem records_heartbeat (h : s.pending = true) (frame : List UInt8) :
    Records s (if s.hasRoom then s.push frame else s.giveUp) := by
  split
  · exact .nothing rfl rfl
  · exact records_giveUp h

theorem resume_records (h : s.resume t event = some s') : Records s s' := by
  unfold resume at h
  split at h <;> rename_i hphase
  · -- catalog
    obtain rfl := Option.some.inj h
    exact records_finish (by rw [pending, hphase]) s rfl _ _
  · -- connect
    have hpending : s.pending = true := by rw [pending, hphase]
    refine records_send ?_ ?_ h
    · exact .nothing rfl hpending.symm
    · exact records_finish hpending s rfl _ _
  · -- permit
    have hpending : s.pending = true := by rw [pending, hphase]
    obtain rfl := Option.some.inj h
    split
    · exact .nothing rfl hpending.symm
    · exact records_giveUp hpending
  · -- heartbeat at the permit
    split at h
    · obtain rfl := Option.some.inj h
      exact records_heartbeat (by rw [pending, hphase]) _
    · cases h
  · -- heartbeat at the slot
    split at h
    · obtain rfl := Option.some.inj h
      exact records_heartbeat (by rw [pending, hphase]) _
    · cases h
  · -- no slot
    obtain rfl := Option.some.inj h
    exact records_giveUp (by rw [pending, hphase])
  · -- slot
    obtain rfl := Option.some.inj h
    exact .nothing rfl (by rw [pending, pending, hphase])
  · -- connection error
    obtain rfl := Option.some.inj h
    exact .nothing rfl (by rw [pending, pending, hphase])
  · -- response
    obtain rfl := Option.some.inj h
    split
    · exact records_respondStreaming hphase _ _
    · exact records_respondBuffered hphase _ _
  · -- body of a response that is retried
    have hpending : s.pending = true := by rw [pending, hphase]
    obtain rfl := Option.some.inj h
    refine .nothing rfl (Eq.trans ?_ hpending.symm)
    cases s.streaming <;> rfl
  · -- retrying
    have hpending : s.pending = true := by rw [pending, hphase]
    refine records_send ?_ ?_ h
    · exact .nothing rfl hpending.symm
    · exact records_finish hpending s rfl _ _
  · -- body of a rejected request
    obtain rfl := Option.some.inj h
    exact records_failWith (by rw [pending, hphase]) s rfl _ _
  · -- the buffered response was read
    obtain rfl := Option.some.inj h
    exact .nothing rfl (by rw [finish_pending, pending, hphase])
  · -- chunk
    obtain rfl := Option.some.inj h
    exact .nothing rfl (by rw [pending, pending, hphase])
  · -- end of the stream
    obtain rfl := Option.some.inj h
    exact records_finish (by rw [pending, hphase]) _ (finalize_statuses _ _) _ _
  · -- broken
    obtain rfl := Option.some.inj h
    exact records_failWith (by rw [pending, hphase]) _ (finalize_statuses _ _) _ _
  · -- stalled
    split at h
    · obtain rfl := Option.some.inj h
      exact records_failWith (by rw [pending, hphase]) _ (finalize_statuses _ _) _ _
    · cases h
  · -- the client went away
    split at h
    · obtain rfl := Option.some.inj h
      exact records_disconnect (by rw [pending, hphase])
    · cases h
  · -- a chunk on its way
    have hpending : s.pending = true := by rw [pending, hphase]
    refine records_send ?_ ?_ h
    · exact .nothing rfl hpending.symm
    · exact records_disconnect hpending
  · -- an error frame on its way
    refine records_send ?_ ?_ h
    · exact .nothing rfl (by rw [finish_pending, pending, hphase])
    · exact .nothing rfl (by rw [finish_pending, pending, hphase])
  · cases h

end State

theorem step_records (h : step t s event = some s') (hne : event ≠ .deadline) : s.Records s' := by
  unfold step at h
  split at h
  · split at h
    · cases h
    · obtain rfl := Option.some.inj h
      exact .nothing rfl rfl
  · split at h
    · obtain rfl := Option.some.inj h
      exact .nothing rfl rfl
    · cases h
  · exact absurd rfl hne
  · exact State.resume_records h

theorem step_deadline (h : step t s .deadline = some s') :
    s.isDone = false ∧ s'.statuses = s.statuses ++ ["deadline"] ∧ s'.isDone = true := by
  rw [step] at h
  split at h
  · rename_i hcond
    obtain rfl := Option.some.inj h
    rw [Bool.and_eq_true, Bool.not_eq_true'] at hcond
    refine ⟨hcond.2, s.expire_statuses, ?_⟩
    unfold State.expire
    dsimp only
    split <;> rfl
  · cases h

/-! ### At most one status -/

def Counted (s : State) : Prop := s.statuses.length ≤ 1

instance (s : State) : Decidable (Counted s) := inferInstanceAs (Decidable (_ ≤ _))

/-- The deadline does not pass while the request waits for something after its status was recorded: the body of a
buffered response, or room for an error frame. -/
def InTime (s : State) (event : Event) : Prop := event = .deadline → s.pending = true ∨ s.isDone = true

structure Inv (s : State) : Prop where
  pending : s.pending = true → s.statuses = []
  recorded : s.pending = false → s.isDone = false → s.statuses ≠ []

theorem isDone_of_pending (h : s.pending = true) : s.isDone = false := by
  unfold State.pending at h
  unfold State.isDone
  cases hphase : s.phase with
  | done error =>
    rw [hphase] at h
    cases h
  | _ => rfl

theorem isDone_step (hs : s.isDone = true) (h : step t s event = some s') : s'.isDone = true := by
  unfold State.isDone at hs
  split at hs
  · rename_i error hphase
    unfold step at h
    split at h
    · split at h
      · cases h
      · obtain rfl := Option.some.inj h
        rw [State.isDone, hphase]
    · split at h
      · obtain rfl := Option.some.inj h
        rw [State.isDone, hphase]
      · cases h
    · rw [State.isDone, hphase, Bool.not_true, Bool.and_false] at h
      cases h
    · simp only [State.resume, hphase, reduceCtorEq] at h
  · cases hs

theorem step_inv (hs : Inv s) (h : step t s event = some s') : Inv s' := by
  by_cases hevent : event = .deadline
  · rw [hevent] at h
    obtain ⟨-, -, hdone⟩ := step_deadline h
    refine ⟨fun hp => ?_, fun _ hd => ?_⟩
    · rw [isDone_of_pending hp] at hdone
      cases hdone
    · rw [hdone] at hd
      cases hd
  · rcases step_records h hevent with ⟨hstatuses, hpending⟩ | ⟨status, hstatuses, -, hafter⟩
    · refine ⟨fun hp => ?_, fun hp hd => ?_⟩
      · rw [hstatuses]
        exact hs.pending (hpending.symm.trans hp)
      · rw [hstatuses]
        refine hs.recorded (hpending.symm.trans hp) ?_
        rw [← Bool.not_eq_true]
        intro hd'
        rw [isDone_step hd' h] at hd
        cases hd
    · refine ⟨fun hp => ?_, fun _ _ => ?_⟩
      · rw [hafter] at hp
        cases hp
      · rw [hstatuses]
        exact List.append_ne_nil_of_right_ne_nil _ (List.cons_ne_nil _ _)

theorem start_inv (entry : Entry) : Inv (start entry) := by
  cases entry with
  | refused | unroutable => exact ⟨nofun, nofun⟩
  | catalog | buffered | streaming => exact ⟨fun _ => rfl, nofun⟩

/-- A request is counted under one status at most, exactly as long as its deadline does not pass after the first. -/
theorem counted_iff_inTime (a : Arrival) (streamIdle : Nat) {events : List Event}
    (hrun : exec (step (timers a streamIdle)) (start (handle a)) events = some s) :
    Always (step (timers a streamIdle)) Counted (start (handle a)) events ↔
      Meets (step (timers a streamIdle)) InTime (start (handle a)) events := by
  refine always_iff_meets (I := Inv) (fun s _ s' hs h => step_inv hs h) ?_ ?_ (start_inv _) ?_ hrun
  · intro s event s' hs hcounted htime h
    by_cases hevent : event = .deadline
    · rw [hevent] at h
      obtain ⟨hdone, hstatuses, -⟩ := step_deadline h
      have hpending : s.pending = true := (htime hevent).resolve_right (ne_true_of_eq_false hdone)
      rw [Counted, hstatuses, hs.pending hpending]
      exact le_rfl
    · rcases step_records h hevent with ⟨hstatuses, -⟩ | ⟨status, hstatuses, hbefore, -⟩
      · rw [Counted, hstatuses]
        exact hcounted
      · rw [Counted, hstatuses, hs.pending hbefore]
        exact le_rfl
  · intro s event s' hs htime h
    rw [InTime, Classical.not_imp, not_or, Bool.not_eq_true, Bool.not_eq_true] at htime
    obtain ⟨rfl, hpending, hdone⟩ := htime
    have hne := List.length_pos_of_ne_nil (hs.recorded hpending hdone)
    rw [Counted, (step_deadline h).2.1, List.length_append, List.length_singleton]
    omega
  · cases handle a <;> exact Nat.le_of_ble_eq_true rfl

/-- A chat request with a deadline, buffered. -/
def bufferedArrival : Arrival where
  setupRequired := false
  inflight := 1
  maxInflight := 64
  client := some "local"
  requestDeadline := some (some 2000)
  route := some [0]
  get := false
  path := "/v1/chat/completions"
  wantsStream := false
  injectable := true

/-- The upstream answers; what happens next finds the handler reading the body. -/
def bufferedRun (next : Event) : List Event :=
  [.admitted true, .granted (some true), .responded (some ⟨200, "200 OK"⟩) false, next]

theorem counted_bufferedRun :
    Always (step (timers bufferedArrival 30)) Counted (start (handle bufferedArrival)) (bufferedRun (.body "")) ↔
      Meets (step (timers bufferedArrival 30)) InTime (start (handle bufferedArrival)) (bufferedRun (.body "")) :=
  counted_iff_inTime bufferedArrival 30 rfl

/-- The deadline passes while the body of the response is read. -/
theorem not_counted_bufferedRun :
    ∃ s, exec (step (timers bufferedArrival 30)) (start (handle bufferedArrival)) (bufferedRun .deadline) = some s ∧
      s.statuses = ["200", "deadline"] ∧ ¬Counted s := by
  refine ⟨_, rfl, rfl, ?_⟩
  decide

end OpenProxy.Handle
