import OpenProxy.Handle

/-!
# What the client of a stream reads (`streaming`, `sse_error_with_code` of `proxy.rs`)

The client reads the frames of the channel as one sequence of bytes and cuts it into events by the grammar of event
streams. The chunks of the upstream are passed on as they come, cut anywhere, and an error frame follows whatever
went out before it.
-/

namespace OpenProxy.Frames

open Handle Lines Sse Transition

/-! ### Events of a client -/

/-- The payloads of the complete events; an event without data is not one. -/
def clientEvents (bytes : List UInt8) : List (List UInt8) :=
  ((cutEvents (splitLines 10 bytes).1).1.filter fun event => !(values event).isEmpty).map joinedValues

/-- The error and the end of the stream come as two events, one after the other. -/
def Readable (code message : String) (bytes : List UInt8) : Prop :=
  [proxyErrorJson code message, ascii "[DONE]"] <:+: clientEvents bytes

instance (code message : String) (bytes : List UInt8) : Decidable (Readable code message bytes) :=
  inferInstanceAs (Decidable (_ <:+: _))

/-- The last line is complete, and no data came since the last blank one. -/
def Aligned (bytes : List UInt8) : Prop :=
  (splitLines 10 bytes).2 = [] ∧ values (cutEvents (splitLines 10 bytes).1).2 = []

instance (bytes : List UInt8) : Decidable (Aligned bytes) := inferInstanceAs (Decidable (_ ∧ _))

/-! ### The text of an error -/

/-- A byte below 128 encodes the character of its value. -/
theorem mem_utf8EncodeChar {c : Char} {b : UInt8} (h : b ∈ String.utf8EncodeChar c) (hb : b.toNat < 128) :
    c.toNat = b.toNat := by
  have hlarge : ∀ n base : Nat, 128 ≤ base → n + base < 256 → b ≠ UInt8.ofNat (n + base) := by
    rintro n base hbase hlt rfl
    rw [UInt8.toNat_ofNat'] at hb
    omega
  unfold String.utf8EncodeChar at h
  dsimp only at h
  split at h
  · rw [List.mem_singleton.1 h, UInt8.toNat_ofNat']
    exact (Nat.mod_eq_of_lt (show c.val.toNat < 2 ^ 8 by omega)).symm
  · split at h
    · simp only [List.mem_cons, List.not_mem_nil, or_false] at h
      rcases h with h | h <;> exact absurd h (hlarge _ _ (by decide) (by omega))
    · split at h
      · simp only [List.mem_cons, List.not_mem_nil, or_false] at h
        rcases h with h | h | h <;> exact absurd h (hlarge _ _ (by decide) (by omega))
      · simp only [List.mem_cons, List.not_mem_nil, or_false] at h
        rcases h with h | h | h | h <;> exact absurd h (hlarge _ _ (by decide) (by omega))

theorem mem_utf8 {cs : List Char} {b : UInt8} (h : b ∈ utf8 cs) (hb : b.toNat < 128) :
    ∃ c ∈ cs, c.toNat = b.toNat := by
  obtain ⟨c, hc, hmem⟩ := List.mem_flatMap.1 h
  exact ⟨c, hc, mem_utf8EncodeChar hmem hb⟩

def printable (cs : List Char) : Bool := cs.all fun c => decide (32 ≤ c.toNat)

theorem le_of_printable {cs : List Char} (h : printable cs = true) {c : Char} (hc : c ∈ cs) : 32 ≤ c.toNat :=
  of_decide_eq_true (List.all_eq_true.1 h c hc)

theorem printable_escapeChar (c : Char) : printable (escapeChar c) = true := by
  unfold escapeChar
  split
  all_goals try rfl
  split
  · have hdigit : ∀ n, n < 16 → decide (32 ≤ (Nat.digitChar n).toNat) = true := by decide
    have hfirst := hdigit (c.toNat / 16) (by omega)
    have hsecond := hdigit (c.toNat % 16) (by omega)
    simp only [printable, List.all_cons, List.all_nil, hfirst, hsecond]
    rfl
  · rename_i hc
    rw [printable, List.all_cons, List.all_nil, Bool.and_true, decide_eq_true_iff]
    exact Nat.le_of_not_lt hc

theorem jsonText_printable (s : String) : ∀ c ∈ jsonText s, 32 ≤ c.toNat := by
  intro c hc
  rcases List.mem_append.1 hc with hc | hc
  · rcases List.mem_cons.1 hc with rfl | hc
    · decide
    · obtain ⟨d, -, hd⟩ := List.mem_flatMap.1 hc
      exact le_of_printable (printable_escapeChar d) hd
  · rw [List.mem_singleton.1 hc]
    decide

/-- The text of an error is one line. -/
theorem not_mem_proxyErrorJson (code message : String) : 10 ∉ proxyErrorJson code message := by
  intro h
  obtain ⟨c, hc, hc10⟩ := mem_utf8 h (by decide)
  have hprintable : 32 ≤ c.toNat := by
    simp only [List.append_assoc, List.mem_append] at hc
    rcases hc with hc | hc | hc | hc | hc
    · exact le_of_printable (by decide) hc
    · exact jsonText_printable code c hc
    · exact le_of_printable (by decide) hc
    · exact jsonText_printable message c hc
    · exact le_of_printable (by decide) hc
  rw [hc10] at hprintable
  exact absurd hprintable (by decide)

theorem getLast?_proxyErrorJson (code message : String) : (proxyErrorJson code message).getLast? = some 125 := by
  rw [proxyErrorJson, utf8, List.flatMap_append, List.getLast?_append]
  rfl

/-! ### The error frame -/

def errorLine (code message : String) : List UInt8 := ascii "data: " ++ proxyErrorJson code message

theorem sseErrorWithCode_eq (code message : String) :
    sseErrorWithCode code message = joinLines 10 [errorLine code message, [], ascii "data: [DONE]", []] := by
  rw [sseErrorWithCode, joinLines_cons, errorLine]
  rfl

theorem stripCr_errorLine (code message : String) : stripCr (errorLine code message) = errorLine code message := by
  refine if_neg ?_
  rw [errorLine, List.getLast?_append, getLast?_proxyErrorJson]
  decide

theorem values_errorLine (lines : List (List UInt8)) (code message : String) :
    values (lines ++ [errorLine code message]) = values lines ++ [proxyErrorJson code message] := by
  have h : dataValue (stripCr (errorLine code message)) = some (proxyErrorJson code message) := by
    rw [stripCr_errorLine]
    rfl
  rw [values, List.filterMap_append, List.filterMap_cons, h]
  rfl

theorem isBlankLine_errorLine (code message : String) : isBlankLine (errorLine code message) = false := by
  rw [isBlankLine, stripCr_errorLine]
  rfl

theorem splitLines_frame {bytes : List UInt8} (h : (splitLines 10 bytes).2 = []) (code message : String) :
    (splitLines 10 (bytes ++ sseErrorWithCode code message)).1 =
      (splitLines 10 bytes).1 ++ [errorLine code message, [], ascii "data: [DONE]", []] := by
  have hmem : ∀ line ∈ [errorLine code message, [], ascii "data: [DONE]", []], 10 ∉ line := by
    intro line hline
    simp only [List.mem_cons, List.not_mem_nil, or_false] at hline
    rcases hline with rfl | rfl | rfl | rfl
    · rw [errorLine, List.mem_append, not_or]
      exact ⟨by decide, not_mem_proxyErrorJson code message⟩
    · exact List.not_mem_nil
    · decide
    · exact List.not_mem_nil
  have hframe := splitLines_joinLines hmem []
  rw [List.append_nil] at hframe
  rw [splitLines_append, h, List.nil_append, sseErrorWithCode_eq, hframe]
  exact congrArg _ (List.append_nil _)

/-- After an aligned prefix the frame is two events more. -/
theorem clientEvents_frame {bytes : List UInt8} (h : Aligned bytes) (code message : String) :
    clientEvents (bytes ++ sseErrorWithCode code message) =
      clientEvents bytes ++ [proxyErrorJson code message, ascii "[DONE]"] := by
  obtain ⟨hrest, hpending⟩ := h
  have hcut : (cutEvents (splitLines 10 (bytes ++ sseErrorWithCode code message)).1).1 =
      (cutEvents (splitLines 10 bytes).1).1 ++
        [(cutEvents (splitLines 10 bytes).1).2 ++ [errorLine code message], [ascii "data: [DONE]"]] := by
    rw [splitLines_frame hrest, List.append_cons, List.append_cons _ [], List.append_cons, cutEvents_concat,
      cutEvents_concat, cutEvents_concat, cutEvents_concat, isBlankLine_errorLine]
    show _ ++ [_] ++ [_] = _
    rw [List.append_assoc]
    rfl
  have hvalues : values ((cutEvents (splitLines 10 bytes).1).2 ++ [errorLine code message]) =
      [proxyErrorJson code message] := by
    rw [values_errorLine, hpending]
    rfl
  have hjoined : joinedValues ((cutEvents (splitLines 10 bytes).1).2 ++ [errorLine code message]) =
      proxyErrorJson code message := by
    rw [joinedValues, hvalues, List.intercalate_singleton]
  have hdone : joinedValues [ascii "data: [DONE]"] = ascii "[DONE]" := by decide
  rw [clientEvents, hcut, List.filter_append, List.map_append, List.filter_cons, hvalues]
  show clientEvents bytes ++ [joinedValues _, joinedValues _] = _
  rw [hjoined, hdone]

/-! ### The end of a stream -/

def upstreamUnavailable (message : String) : String × String := ("upstream_unavailable", message)

/-- The error in which the stream ends at this step, if it does: the upstream breaks off, stalls or rejects the
request, no slot or no retry is left, or the deadline passes while the channel has room. -/
def failure (s : State) (event : Event) : Option (String × String) :=
  match event, s.phase with
  | .deadline, _ =>
    if s.streaming && s.hasRoom then some ("deadline_exceeded", "proxy request deadline exceeded") else none
  | .broken, .read => some (upstreamUnavailable "upstream stream interrupted")
  | .stalled, .read => some (upstreamUnavailable "upstream stream stalled")
  | .body detail, .rejectBody status =>
    some (upstreamUnavailable ("upstream error " ++ status.text ++ ": " ++ detail))
  | .admitted false, .permit | .granted none, .slot =>
    if s.streaming then some (upstreamUnavailable "proxy timed out waiting for an upstream slot") else none
  | .heartbeat, .permit | .heartbeat, .slot =>
    if s.hasRoom then none else some (upstreamUnavailable "proxy timed out waiting for an upstream slot")
  | .responded (some status) true, .upstream =>
    if s.streaming && retryable status.code then some (upstreamUnavailable "upstream unavailable, retries exhausted")
    else none
  | _, _ => none

/-- What the client has of the error in which its stream ended, `after` which events. -/
inductive Told (s : State) (after : List Event) (error : String × String) : Prop where
  /-- The frame waits for room in the channel. -/
  | waits (phase : s.phase = .fail error.1 error.2)
  | reads (phase : s.phase = .done (some error)) (readable : Readable error.1 error.2 s.sent.flatten)
  /-- The client was gone when the frame was due. -/
  | left (phase : s.phase = .done none) (closed : s.closed = true)
  /-- The deadline came before there was room. -/
  | overtaken (deadline : .deadline ∈ after)

/-- Wherever the run ends the stream in an error, the client is told. -/
def Reported (t : Timers) (s₀ : State) (events : List Event) : Prop :=
  ∀ before event after s₁ s₂ s error, events = before ++ event :: after → exec (step t) s₀ before = some s₁ →
    failure s₁ event = some error → step t s₁ event = some s₂ → exec (step t) s₂ after = some s → Told s after error

/-- The step puts an error frame into the channel. -/
def framing (s : State) (event : Event) : Bool :=
  match event, s.phase with
  | .deadline, _ => s.streaming && s.hasRoom
  | .pushed, .fail .. => s.hasRoom
  | _, _ => false

/-- What went out before an error frame is aligned. -/
def BetweenEvents (s : State) (event : Event) : Prop := framing s event = true → Aligned s.sent.flatten

instance (s : State) (event : Event) : Decidable (BetweenEvents s event) := inferInstanceAs (Decidable (_ → _))

/-- An error frame that went out reads as one. -/
def Framed (s : State) : Prop := ∀ error, s.phase = .done (some error) → Readable error.1 error.2 s.sent.flatten

variable {t : Timers} {s s' : State} {event : Event} {code message : String}

/-- The state does not end in an error frame. -/
def NoError (s : State) : Prop := ∀ error, s.phase ≠ .done (some error)

theorem noError_finish (s : State) : NoError (s.finish none) := nofun

theorem noError_failWith (s : State) (status message : String) : NoError (s.failWith status message) := nofun

theorem noError_giveUp (s : State) : NoError s.giveUp := by
  unfold State.giveUp
  split
  · exact noError_failWith s _ _
  · exact noError_finish _

theorem noError_respond (s : State) (status : Status) (expired : Bool) :
    NoError (if s.streaming then s.respondStreaming status expired else s.respondBuffered status expired) := by
  split
  · unfold State.respondStreaming
    split
    · exact nofun
    split
    · split
      · exact noError_failWith s _ _
      · exact nofun
    split <;> exact nofun
  · unfold State.respondBuffered
    split <;> exact nofun

theorem noError_send {frame : List UInt8} {sent failed : State → State} (hsent : NoError (sent (s.push frame)))
    (hfailed : NoError (failed s)) (h : s.send frame sent failed = some s') : NoError s' := by
  unfold State.send at h
  split at h
  · obtain rfl := Option.some.inj h
    exact hfailed
  · split at h
    · obtain rfl := Option.some.inj h
      exact hsent
    · cases h

theorem noError_heartbeat (h : NoError s) (frame : List UInt8) :
    NoError (if s.hasRoom then s.push frame else s.giveUp) := by
  split
  · exact h
  · exact noError_giveUp s

/-- Only a pending error frame goes out as one. -/
theorem resume_error (h : s.resume t event = some s') :
    NoError s' ∨ ∃ code message, event = .pushed ∧ s.phase = .fail code message ∧
      s.hasRoom = true ∧ s'.phase = .done (some (code, message)) ∧
      s'.sent = s.sent ++ [sseErrorWithCode code message] := by
  unfold State.resume at h
  split at h <;> rename_i hphase
  · -- catalog
    obtain rfl := Option.some.inj h
    exact .inl (noError_finish _)
  · -- connect
    refine .inl (noError_send ?_ ?_ h)
    · exact fun _ h => by cases h
    · exact noError_finish _
  · -- permit
    obtain rfl := Option.some.inj h
    split
    · exact .inl fun _ h => by cases h
    · exact .inl (noError_giveUp s)
  · -- heartbeat at the permit
    split at h
    · obtain rfl := Option.some.inj h
      exact .inl (noError_heartbeat (fun _ h => by rw [hphase] at h; cases h) _)
    · cases h
  · -- heartbeat at the slot
    split at h
    · obtain rfl := Option.some.inj h
      exact .inl (noError_heartbeat (fun _ h => by rw [hphase] at h; cases h) _)
    · cases h
  · -- no slot
    obtain rfl := Option.some.inj h
    exact .inl (noError_giveUp s)
  · -- slot
    obtain rfl := Option.some.inj h
    exact .inl fun _ h => by cases h
  · -- connection error
    obtain rfl := Option.some.inj h
    exact .inl fun _ h => by cases h
  · -- response
    obtain rfl := Option.some.inj h
    exact .inl (noError_respond s _ _)
  · -- body of a response that is retried
    obtain rfl := Option.some.inj h
    refine .inl fun _ h => ?_
    dsimp only at h
    split at h <;> cases h
  · -- retrying
    refine .inl (noError_send ?_ ?_ h)
    · exact fun _ h => by cases h
    · exact noError_finish _
  · -- body of a rejected request
    obtain rfl := Option.some.inj h
    exact .inl (noError_failWith s _ _)
  · -- the buffered response was read
    obtain rfl := Option.some.inj h
    exact .inl (noError_finish s)
  · -- chunk
    obtain rfl := Option.some.inj h
    exact .inl fun _ h => by cases h
  · -- end of the stream
    obtain rfl := Option.some.inj h
    exact .inl (noError_finish _)
  · -- broken
    obtain rfl := Option.some.inj h
    exact .inl (noError_failWith _ _ _)
  · -- stalled
    split at h
    · obtain rfl := Option.some.inj h
      exact .inl (noError_failWith _ _ _)
    · cases h
  · -- the client went away
    split at h
    · obtain rfl := Option.some.inj h
      exact .inl (noError_finish _)
    · cases h
  · -- a chunk on its way
    refine .inl (noError_send ?_ ?_ h)
    · exact fun _ h => by cases h
    · exact noError_finish _
  · -- an error frame on its way
    unfold State.send at h
    split at h
    · obtain rfl := Option.some.inj h
      exact .inl (noError_finish _)
    · rename_i hclosed
      split at h
      · rename_i hqueued
        obtain rfl := Option.some.inj h
        have hroom : s.hasRoom = true := by simp [State.hasRoom, hclosed, hqueued]
        exact .inr ⟨_, _, rfl, hphase, hroom, rfl, rfl⟩
      · cases h
  · cases h

@[simp] theorem finalize_sent (s : State) (outcome : StreamOutcome) :
    (s.finalizeSseObserver outcome).sent = s.sent := by
  unfold State.finalizeSseObserver
  split <;> rfl

@[simp] theorem finalize_streaming (s : State) (outcome : StreamOutcome) :
    (s.finalizeSseObserver outcome).streaming = s.streaming := by
  unfold State.finalizeSseObserver
  split <;> rfl

@[simp] theorem finalize_hasRoom (s : State) (outcome : StreamOutcome) :
    (s.finalizeSseObserver outcome).hasRoom = s.hasRoom := by
  unfold State.finalizeSseObserver
  split <;> rfl

theorem expire_eq (s : State) :
    s.expire = if s.streaming && s.hasRoom then
        (((s.finalizeSseObserver .deadline).recordRequest "deadline").push
          (sseErrorWithCode "deadline_exceeded" "proxy request deadline exceeded")).finish
          (some ("deadline_exceeded", "proxy request deadline exceeded"))
      else ((s.finalizeSseObserver .deadline).recordRequest "deadline").finish none := by
  have hstreaming : ((s.finalizeSseObserver .deadline).recordRequest "deadline").streaming = s.streaming :=
    finalize_streaming s .deadline
  have hroom : ((s.finalizeSseObserver .deadline).recordRequest "deadline").hasRoom = s.hasRoom :=
    finalize_hasRoom s .deadline
  rw [State.expire]
  simp only [hstreaming, hroom]

theorem expire_error (h : s.expire.phase = .done (some (code, message))) :
    s.expire.sent = s.sent ++ [sseErrorWithCode code message] ∧ (s.streaming && s.hasRoom) = true := by
  rw [expire_eq] at h ⊢
  split at h
  · rename_i hcond
    cases h
    rw [if_pos hcond]
    exact ⟨congrArg (· ++ [_]) (finalize_sent s _), hcond⟩
  · cases h

/-- An error frame goes out when it is due and finds room, or at the deadline. -/
theorem step_error (h : step t s event = some s') (herror : s'.phase = .done (some (code, message))) :
    (s.phase = s'.phase ∧ s'.sent = s.sent) ∨
      s'.sent = s.sent ++ [sseErrorWithCode code message] ∧ framing s event = true := by
  unfold step at h
  split at h
  · split at h
    · cases h
    · obtain rfl := Option.some.inj h
      exact .inl ⟨rfl, rfl⟩
  · split at h
    · obtain rfl := Option.some.inj h
      exact .inl ⟨rfl, rfl⟩
    · cases h
  · split at h
    · obtain rfl := Option.some.inj h
      obtain ⟨hsent, hroom⟩ := expire_error herror
      exact .inr ⟨hsent, hroom⟩
    · cases h
  · rcases resume_error h with hno | ⟨code', message', rfl, hphase, hroom, hphase', hsent⟩
    · exact absurd herror (hno _)
    · rw [hphase'] at herror
      cases herror
      refine .inr ⟨hsent, ?_⟩
      simp only [framing, hphase]
      exact hroom

theorem step_framed (hs : Framed s) (haligned : BetweenEvents s event) (h : step t s event = some s') :
    Framed s' := by
  rintro ⟨code, message⟩ hphase
  rcases step_error h hphase with ⟨hsame, hsent⟩ | ⟨hsent, hframing⟩
  · rw [hsent]
    exact hs _ (hsame.trans hphase)
  · rw [hsent, List.flatten_append, List.flatten_singleton, Readable, clientEvents_frame (haligned hframing)]
    exact (List.suffix_append _ _).isInfix

theorem giveUp_phase (hstreaming : s.streaming = true) :
    s.giveUp.phase = .fail "upstream_unavailable" "proxy timed out waiting for an upstream slot" := by
  rw [State.giveUp, if_pos hstreaming]
  rfl

/-- Neither a permit nor a slot in time. -/
theorem giveUp_failure {error : String × String}
    (hfailure : (if s.streaming then some (upstreamUnavailable "proxy timed out waiting for an upstream slot")
      else none) = some error) : s.giveUp.phase = .fail error.1 error.2 := by
  split at hfailure
  · rename_i hstreaming
    cases hfailure
    exact giveUp_phase hstreaming
  · cases hfailure

/-- No room for a heartbeat while waiting for either. -/
theorem heartbeat_failure {error : String × String} {frame : List UInt8}
    (hfailure : (if s.hasRoom then none
      else some (upstreamUnavailable "proxy timed out waiting for an upstream slot")) = some error)
    (h : (if s.streaming then some (if s.hasRoom then s.push frame else s.giveUp) else none) = some s') :
    s'.phase = .fail error.1 error.2 := by
  split at hfailure
  · cases hfailure
  · rename_i hroom
    cases hfailure
    split at h
    · rename_i hstreaming
      obtain rfl := Option.some.inj h
      exact giveUp_phase hstreaming
    · cases h

/-- A step that ends the stream in an error leaves its frame to be sent; the deadline sends it at once. -/
theorem step_failure {error : String × String} (hfailure : failure s event = some error)
    (h : step t s event = some s') : s'.phase = .fail error.1 error.2 ∨ s'.phase = .done (some error) := by
  unfold failure at hfailure
  split at hfailure
  · -- the deadline
    split at hfailure
    · rename_i hroom
      cases hfailure
      rw [step] at h
      split at h
      · obtain rfl := Option.some.inj h
        rw [expire_eq, if_pos hroom]
        exact .inr rfl
      · cases h
    · cases hfailure
  · -- broken
    rename_i hphase
    simp only [step, State.resume, hphase, Option.some.injEq] at h
    cases hfailure
    cases h
    exact .inl rfl
  · -- stalled
    rename_i hphase
    simp only [step, State.resume, hphase] at h
    split at h
    · cases hfailure
      cases h
      exact .inl rfl
    · cases h
  · -- rejected
    rename_i hphase
    simp only [step, State.resume, hphase, Option.some.injEq] at h
    cases hfailure
    cases h
    exact .inl rfl
  · -- no permit
    rename_i hphase
    simp only [step, State.resume, hphase, Bool.false_eq_true, if_false, Option.some.injEq] at h
    subst h
    exact .inl (giveUp_failure hfailure)
  · -- no slot
    rename_i hphase
    simp only [step, State.resume, hphase, Option.some.injEq] at h
    subst h
    exact .inl (giveUp_failure hfailure)
  · -- no room for a heartbeat at the permit
    rename_i hphase
    simp only [step, State.resume, hphase] at h
    exact .inl (heartbeat_failure hfailure h)
  · -- no room for a heartbeat at the slot
    rename_i hphase
    simp only [step, State.resume, hphase] at h
    exact .inl (heartbeat_failure hfailure h)
  · -- no retry
    rename_i status hphase
    simp only [step, State.resume, hphase, Option.some.injEq] at h
    split at hfailure
    · rename_i hretry
      rw [Bool.and_eq_true] at hretry
      have hne : ¬(status.code = 400 ∧ s.fallback = true) := by
        rintro ⟨hcode, -⟩
        rw [hcode] at hretry
        exact absurd hretry.2 (by decide)
      cases hfailure
      rw [if_pos hretry.1, State.respondStreaming, if_neg hne, if_pos hretry.2, if_pos rfl] at h
      cases h
      exact .inl rfl
    · cases hfailure
  · cases hfailure

/-- The frame of the error is still to be sent, went out, or the client was gone. -/
def Owed (error : String × String) (s : State) : Prop :=
  s.phase = .fail error.1 error.2 ∨ s.phase = .done (some error) ∨ s.phase = .done none ∧ s.closed = true

theorem resume_owed {error : String × String} (hs : Owed error s) (h : s.resume t event = some s') : Owed error s' := by
  rcases hs with hphase | hphase | ⟨hphase, -⟩
  · cases event with
    | pushed =>
      simp only [State.resume, hphase, State.send] at h
      split at h
      · rename_i hclosed
        obtain rfl := Option.some.inj h
        exact .inr (.inr ⟨rfl, hclosed⟩)
      · split at h
        · obtain rfl := Option.some.inj h
          exact .inr (.inl rfl)
        · cases h
    | _ => simp only [State.resume, hphase, reduceCtorEq] at h
  · simp only [State.resume, hphase, reduceCtorEq] at h
  · simp only [State.resume, hphase, reduceCtorEq] at h

/-- Only the deadline keeps a frame that is owed from its turn. -/
theorem step_owed {error : String × String} (hs : Owed error s) (hevent : event ≠ .deadline)
    (h : step t s event = some s') : Owed error s' := by
  unfold step at h
  split at h
  · split at h
    · cases h
    · obtain rfl := Option.some.inj h
      exact hs
  · split at h
    · obtain rfl := Option.some.inj h
      exact hs.imp_right (Or.imp_right fun ⟨hphase, _⟩ => ⟨hphase, rfl⟩)
    · cases h
  · exact absurd rfl hevent
  · exact resume_owed hs h

/-- A streamed chat request. -/
def streamingArrival : Arrival := { bufferedArrival with requestDeadline := some none, wantsStream := true }

/-- The upstream sends a chunk and stalls. -/
def stalledRun (chunk : List UInt8) : List Event :=
  [.pushed, .admitted true, .granted (some true), .responded (some ⟨200, "200 OK"⟩) false, .chunk chunk, .pushed,
    .stalled, .pushed]

end OpenProxy.Frames
