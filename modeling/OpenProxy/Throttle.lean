import OpenProxy.Auth

/-!
# The login throttle (`note_failure`, `is_throttled`, `admit_pre_auth_attempt`, `login_submit` of `auth.rs`)

A window of sixty seconds counts failures, and is opened anew by the first attempt that is counted after its end.
The setup handlers count an attempt and admit it under one lock. `login_submit` looks at the counter, verifies the
password outside of all locks and counts the failure afterwards; `identify` verifies a password without looking or
counting. The model keeps which windows there have been, when a verification that fails was started, and what a login
missed when it looked.

The counter is unbounded here, and each step reads the clock where the source does. The fields of the form are
decoded already, and the delay before an answer is left out.
-/

namespace OpenProxy

def throttleWindowSecs : Nat := 60
def throttleMaxFailures : Nat := 10

structure Throttle where
  windowStart : Nat
  failures : Nat
  deriving DecidableEq, Repr

namespace Throttle

/-- `reset_throttle_window`. -/
def reset (t : Throttle) (now : Nat) : Throttle :=
  if throttleWindowSecs ≤ now - t.windowStart then ⟨now, 0⟩ else t

def noteFailure (t : Throttle) (now : Nat) : Throttle × Bool :=
  let t := t.reset now
  ({ t with failures := t.failures + 1 }, decide (throttleMaxFailures < t.failures + 1))

def isThrottled (t : Throttle) (now : Nat) : Bool :=
  decide (now - t.windowStart < throttleWindowSecs) && decide (throttleMaxFailures < t.failures)

def admitPreAuthAttempt (t : Throttle) (now : Nat) : Throttle × Bool :=
  let t := t.reset now
  if throttleMaxFailures < t.failures then (t, false) else ({ t with failures := t.failures + 1 }, true)

/-- The failures counted in the window that `now` is in, and when that window was opened or would be. -/
def counted (t : Throttle) (now : Nat) : Nat := (t.reset now).failures

def opened (t : Throttle) (now : Nat) : Nat := (t.reset now).windowStart

/-- Whoever is let in finds at most ten failures counted. -/
theorem counted_le_of_isThrottled {t : Throttle} {now : Nat} (h : t.isThrottled now = false) :
    t.counted now ≤ throttleMaxFailures := by
  rw [counted, reset]
  split
  · exact Nat.zero_le _
  · rename_i hgoing
    rw [isThrottled, decide_eq_true (Nat.lt_of_not_le hgoing), Bool.true_and, decide_eq_false_iff_not] at h
    exact Nat.le_of_not_lt h

/-- The window at `now`: the one of the throttle, or one that is opened now. -/
theorem reset_cases (t : Throttle) (now : Nat) :
    now < t.windowStart + throttleWindowSecs ∧ t.reset now = t ∨
      t.windowStart + throttleWindowSecs ≤ now ∧ t.reset now = ⟨now, 0⟩ := by
  by_cases hover : throttleWindowSecs ≤ now - t.windowStart
  · refine .inr ⟨?_, if_pos hover⟩
    unfold throttleWindowSecs at *
    omega
  · refine .inl ⟨?_, if_neg hover⟩
    unfold throttleWindowSecs at *
    omega

theorem reset_failures (t : Throttle) (now failures : Nat) :
    reset { t.reset now with failures := failures } now = { t.reset now with failures := failures } := by
  rcases t.reset_cases now with ⟨hgoing, hreset⟩ | ⟨-, hreset⟩
  · refine if_neg ?_
    rw [hreset]
    unfold throttleWindowSecs at *
    show ¬60 ≤ now - t.windowStart
    omega
  · refine if_neg ?_
    rw [hreset, Nat.sub_self]
    decide

end Throttle

namespace Login

open Transition

/-- The hash that is verified for a user who does not exist. -/
def burnerHash : String :=
  "pbkdf2-sha256$600000$" ++ String.ofList (List.replicate 32 '0') ++ "$" ++ String.ofList (List.replicate 64 '0')

inductive Answer where
  | redirectSetup
  | tooMany
  | seeOther
  | invalidCredentials
  deriving DecidableEq, Repr

/-- Where a request stands in `login_submit`. -/
inductive Pc where
  | isThrottled
  | readHash
  /-- `known` says whether the hash is one of a user. -/
  | verify (hash : String) (known : Bool)
  | noteFailure
  | done (answer : Answer)
  deriving DecidableEq, Repr

structure Attempt where
  username : String
  password : String
  pc : Pc
  /-- Of the verifications that fail, those it missed when it looked at the throttle, and all that had been started. -/
  missed : Nat := 0
  started : Nat := 0
  deriving DecidableEq, Repr

structure State (Tag : Type) where
  store : StoredConfig
  setupRequired : Bool
  throttle : Throttle
  scraperMemo : Option (Tag × String)
  logins : List Attempt
  /-- The requests with credentials in the header. -/
  requests : List Auth.Request
  /-- The last reading of the clock. -/
  clock : Nat
  /-- When the windows so far were opened, and when the verifications that fail were started; those of credentials in
  a header are in `headers` too. -/
  windows : List Nat
  starts : List Nat
  headers : List Nat

inductive Op where
  | login (username password : String)
  | loginStep (n now : Nat)
  /-- A request with this Authorization header and no session cookie. -/
  | request (authorization : String)
  | requestStep (r now : Nat)
  /-- `POST /setup` or `POST /setup/validate-key`, until setup is complete. -/
  | preAuth (now : Nat)
  /-- What the other handlers do to the store, and to the memo. -/
  | commit (store : StoredConfig) (setupRequired : Bool)
  | clearMemo

def start (Tag : Type) (sc : StoredConfig) (now : Nat) : State Tag where
  store := sc
  setupRequired := sc.superuser.isNone
  throttle := ⟨now, 0⟩
  scraperMemo := none
  logins := []
  requests := []
  clock := now
  windows := [now]
  starts := []
  headers := []

section
variable {Tag : Type}

def State.setThrottle (s : State Tag) (t : Throttle) : State Tag :=
  { s with
    throttle := t
    windows := if t.windowStart = s.throttle.windowStart then s.windows else t.windowStart :: s.windows }

variable [DecidableEq Tag] (mac : String → Tag) (verifyPassword : String → String → Bool)

/-- The verification of this password against this hash ends in failure. -/
def Attempt.fails (l : Attempt) (hash : String) (known : Bool) : Bool := !(verifyPassword l.password hash && known)

/-- A verification is under way, or over, whose failure is still to be counted. -/
def Attempt.failing (l : Attempt) : Bool :=
  match l.pc with
  | .verify hash known => l.fails verifyPassword hash known
  | .noteFailure => true
  | _ => false

/-- The verifications that fail and are still to be counted. -/
def State.inFlight (s : State Tag) : Nat := s.logins.countP (Attempt.failing verifyPassword)

/-- How many of the times are not before `m`. -/
def since (times : List Nat) (m : Nat) : Nat := times.countP fun t => decide (m ≤ t)

/-- The verifications that a look at the throttle at `now` misses: those still to be counted, and those of
credentials in a header in the window. -/
def State.missed (s : State Tag) (now : Nat) : Nat :=
  s.inFlight verifyPassword + since s.headers (s.throttle.opened now)

/-- One step of `login_submit` at `now`. -/
def loginStep (s : State Tag) (n now : Nat) (l : Attempt) : Option (State Tag) :=
  let goto (pc : Pc) : State Tag := { s with logins := s.logins.set n { l with pc := pc } }
  match l.pc with
  | .isThrottled =>
    some (if s.throttle.isThrottled now then goto (.done .tooMany)
      else
        let look := { l with pc := .readHash, missed := s.missed verifyPassword now, started := s.starts.length }
        { s with logins := s.logins.set n look })
  | .readHash =>
    let stored := (s.store.user l.username).map (·.passwordHash)
    let hash := stored.getD burnerHash
    some { goto (.verify hash stored.isSome) with
      starts := if l.fails verifyPassword hash stored.isSome then now :: s.starts else s.starts }
  | .verify hash known =>
    some (if l.fails verifyPassword hash known then goto .noteFailure else goto (.done .seeOther))
  | .noteFailure => some ((goto (.done .invalidCredentials)).setThrottle (s.throttle.noteFailure now).1)
  | .done _ => none

/-- The verification that a step of `identify` comes to start ends in failure. -/
def failingPc : Auth.Pc → Bool
  | .verify _ password hash => !verifyPassword password hash
  | _ => false

def step (s : State Tag) : Op → Option (State Tag)
  | .login username password =>
    some { s with logins := s.logins ++
      [{ username, password, pc := if s.setupRequired then .done .redirectSetup else .isThrottled }] }
  | .loginStep n now => do
    let l ← s.logins[n]?
    let s' ← loginStep verifyPassword s n now l
    return { s' with clock := now }
  | .request authorization =>
    match credential authorization with
    | some cred => some (if s.setupRequired then s else { s with requests := s.requests ++ [⟨cred, .memoHit⟩] })
    | none => some s
  | .requestStep r now => do
    let req ← s.requests[r]?
    let (memo, pc) ← Auth.identify mac verifyPassword s.store s.scraperMemo req
    return { s with
      scraperMemo := memo
      requests := s.requests.set r { req with pc := pc }
      clock := now
      starts := if failingPc verifyPassword pc then now :: s.starts else s.starts
      headers := if failingPc verifyPassword pc then now :: s.headers else s.headers }
  | .preAuth now =>
    if s.setupRequired then some { s.setThrottle (s.throttle.admitPreAuthAttempt now).1 with clock := now } else some s
  | .commit store setupRequired => some { s with store := store, setupRequired := setupRequired }
  | .clearMemo => some { s with scraperMemo := none }

/-- The verifications started within the window opened at `w`. -/
def State.startedIn (s : State Tag) (w : Nat) : Nat :=
  s.starts.countP fun t => decide (w ≤ t) && decide (t < w + throttleWindowSecs)

/-! ### The condition -/

/-- Its look at the throttle missed no verification that fails, and none has been started since. -/
def Attempt.Alone (l : Attempt) (s : State Tag) : Prop := l.missed = 0 ∧ l.started = s.starts.length

instance (l : Attempt) (s : State Tag) : Decidable (l.Alone s) := inferInstanceAs (Decidable (_ ∧ _))

/-- At most ten verifications that fail have been started in the window. -/
def State.Few (s : State Tag) (now : Nat) : Prop := since s.starts (s.throttle.opened now) ≤ throttleMaxFailures

instance (s : State Tag) (now : Nat) : Decidable (s.Few now) := inferInstanceAs (Decidable (_ ≤ _))

/-- The clock is not set back. The logins that fail look at the throttle, verify and are counted one after the other;
only in a window in which credentials in a header have failed it is their number that is limited. -/
def Spaced (s : State Tag) : Op → Prop
  | .loginStep n now => s.clock ≤ now ∧ ∀ l ∈ s.logins[n]?, l.pc = .readHash →
    l.fails verifyPassword (((s.store.user l.username).map (·.passwordHash)).getD burnerHash)
      ((s.store.user l.username).map (·.passwordHash)).isSome = true →
    l.Alone s ∨ 0 < since s.headers (s.throttle.opened now) ∧ s.Few now
  | .requestStep r now => s.clock ≤ now ∧ ∀ req ∈ s.requests[r]?,
    ∀ memo ∈ Auth.identify mac verifyPassword s.store s.scraperMemo req, failingPc verifyPassword memo.2 = true →
    s.Few now
  | .preAuth now => s.clock ≤ now
  | .login _ _ | .request _ | .commit _ _ | .clearMemo => True

instance (s : State Tag) : DecidablePred (Spaced mac verifyPassword s)
  | .loginStep n now => inferInstanceAs (Decidable (s.clock ≤ now ∧ ∀ l ∈ s.logins[n]?, l.pc = .readHash →
    l.fails verifyPassword (((s.store.user l.username).map (·.passwordHash)).getD burnerHash)
      ((s.store.user l.username).map (·.passwordHash)).isSome = true →
    l.Alone s ∨ 0 < since s.headers (s.throttle.opened now) ∧ s.Few now))
  | .requestStep r now => inferInstanceAs (Decidable (s.clock ≤ now ∧ ∀ req ∈ s.requests[r]?,
    ∀ memo ∈ Auth.identify mac verifyPassword s.store s.scraperMemo req, failingPc verifyPassword memo.2 = true →
    s.Few now))
  | .preAuth now => inferInstanceAs (Decidable (s.clock ≤ now))
  | .login _ _ | .request _ | .commit _ _ | .clearMemo => isTrue trivial

end

/-! ### The counts alone -/

/-- What the bound is about: the throttle and its windows, when a verification that fails was started, and how many of
these are still to be counted. -/
structure Counts where
  throttle : Throttle
  windows : List Nat
  starts : List Nat
  headers : List Nat
  clock : Nat
  inFlight : Nat

theorem since_eq_zero {times : List Nat} {m : Nat} (h : ∀ t ∈ times, t < m) : since times m = 0 :=
  List.countP_eq_zero.2 fun t ht => by simpa using h t ht

theorem since_cons {m t : Nat} (h : m ≤ t) (times : List Nat) : since (t :: times) m = since times m + 1 := by
  exact List.countP_cons_of_pos (decide_eq_true h)

namespace Counts

/-- The verifications started in the window that the clock is in. -/
def recent (c : Counts) : Nat := since c.starts (c.throttle.opened c.clock)

def startedIn (c : Counts) (w : Nat) : Nat :=
  c.starts.countP fun t => decide (w ≤ t) && decide (t < w + throttleWindowSecs)

def tick (c : Counts) (now : Nat) : Counts := { c with clock := now }

/-- The throttle is looked at under its lock, at the time of the clock. -/
def reset (c : Counts) : Counts where
  throttle := c.throttle.reset c.clock
  windows := if c.throttle.opened c.clock = c.throttle.windowStart then c.windows
    else c.throttle.opened c.clock :: c.windows
  starts := c.starts
  headers := c.headers
  clock := c.clock
  inFlight := c.inFlight

/-- What a step does at the time of the clock. -/
inductive Act (c : Counts) : Counts → Prop where
  | keeps : Act c c
  | begins (hroom : c.recent ≤ throttleMaxFailures) :
      Act c { c with starts := c.clock :: c.starts, inFlight := c.inFlight + 1 }
  | tries (hroom : c.recent ≤ throttleMaxFailures) :
      Act c { c with starts := c.clock :: c.starts, headers := c.clock :: c.headers }
  | refuses : Act c c.reset
  | counts : Act c { c.reset with throttle.failures := c.reset.throttle.failures + 1 }
  | notes (n : Nat) (hinFlight : c.inFlight = n + 1) :
      Act c { c.reset with throttle.failures := c.reset.throttle.failures + 1, inFlight := n }

/-- What was started in the window was counted, is still to be, or came in a header. -/
structure Inv (c : Counts) : Prop where
  started : ∀ t ∈ c.starts, t ≤ c.clock
  opened : c.throttle.windowStart ≤ c.clock
  windows : ∀ w ∈ c.windows, w = c.throttle.windowStart ∨ w + throttleWindowSecs ≤ c.throttle.windowStart
  accounted : c.recent ≤ c.throttle.counted c.clock + c.inFlight + since c.headers (c.throttle.opened c.clock)
  recent : c.recent ≤ throttleMaxFailures + 1
  bounded : ∀ w ∈ c.windows, c.startedIn w ≤ throttleMaxFailures + 1

variable {c c' : Counts} {now : Nat}

theorem startedIn_le (c : Counts) (w : Nat) : c.startedIn w ≤ since c.starts w :=
  List.countP_mono_left fun _ _ h => (Bool.and_eq_true_iff.1 h).1

theorem startedIn_cons (w : Nat) : startedIn { c with starts := now :: c.starts } w =
    c.startedIn w + if w ≤ now ∧ now < w + throttleWindowSecs then 1 else 0 := by
  simp only [startedIn, List.countP_cons, Bool.and_eq_true, decide_eq_true_eq]

theorem recent_reset (c : Counts) (failures inFlight : Nat) :
    recent { c.reset with throttle.failures := failures, inFlight := inFlight } = c.recent := by
  simp only [recent, reset, Throttle.opened, Throttle.reset_failures]

namespace Inv

theorem opened_le (h : c.Inv) : c.throttle.opened c.clock ≤ c.clock := by
  rw [Throttle.opened]
  rcases c.throttle.reset_cases c.clock with ⟨-, hreset⟩ | ⟨-, hreset⟩ <;> rw [hreset]
  exact h.opened

/-- Time passes: the window stays, or nothing has been started in the one to come. -/
theorem tick (h : c.Inv) (hclock : c.clock ≤ now) : (c.tick now).Inv ∧ (c.tick now).recent ≤ c.recent := by
  rcases hclock.eq_or_lt with rfl | hlt
  · exact ⟨h, le_rfl⟩
  have hstarted : ∀ t ∈ c.starts, t ≤ now := fun t ht => (h.started t ht).trans hclock
  rcases c.throttle.reset_cases now with ⟨hgoing, hreset⟩ | ⟨-, hreset⟩
  · have hreset' : c.throttle.reset c.clock = c.throttle := by
      rcases c.throttle.reset_cases c.clock with ⟨-, h'⟩ | ⟨hover, -⟩
      · exact h'
      · omega
    have hrecent : (c.tick now).recent = c.recent := by
      simp only [Counts.recent, Counts.tick, Throttle.opened, hreset, hreset']
    have hsame : c.throttle.reset now = c.throttle.reset c.clock := hreset.trans hreset'.symm
    refine ⟨⟨hstarted, h.opened.trans hclock, h.windows, ?_, hrecent.trans_le h.recent, h.bounded⟩, hrecent.le⟩
    rw [hrecent]
    simp only [Counts.tick, Throttle.counted, Throttle.opened, hsame]
    exact h.accounted
  · have hzero : (c.tick now).recent = 0 := by
      simp only [Counts.recent, Counts.tick, Throttle.opened, hreset]
      exact since_eq_zero fun t ht => (h.started t ht).trans_lt hlt
    refine ⟨⟨hstarted, h.opened.trans hclock, h.windows, ?_, ?_, h.bounded⟩, ?_⟩
    all_goals rw [hzero]; exact Nat.zero_le _

/-- One verification more is within the bound of every window. -/
theorem bounded_cons (h : c.Inv) (hroom : c.recent ≤ throttleMaxFailures) {w : Nat} (hw : w ∈ c.windows) :
    startedIn { c with starts := c.clock :: c.starts } w ≤ throttleMaxFailures + 1 := by
  rw [startedIn_cons]
  split
  · rename_i hnow
    rcases h.windows w hw with rfl | hw
    · -- the window goes on, and what was started in it is what is recent
      have hreset : c.throttle.reset c.clock = c.throttle := by
        rcases c.throttle.reset_cases c.clock with ⟨-, hreset⟩ | ⟨hover, -⟩
        · exact hreset
        · omega
      have hle := c.startedIn_le c.throttle.windowStart
      rw [Counts.recent, Throttle.opened, hreset] at hroom
      omega
    · have := h.opened
      omega
  · exact h.bounded w hw

theorem begins (h : c.Inv) (hroom : c.recent ≤ throttleMaxFailures) :
    Inv { c with starts := c.clock :: c.starts, inFlight := c.inFlight + 1 } := by
  have hrecent : Counts.recent { c with starts := c.clock :: c.starts, inFlight := c.inFlight + 1 } = c.recent + 1 :=
    since_cons h.opened_le c.starts
  refine ⟨List.forall_mem_cons.2 ⟨le_rfl, h.started⟩, h.opened, h.windows, ?_, ?_, fun w => h.bounded_cons hroom⟩
  · have := h.accounted
    rw [hrecent]
    dsimp only
    omega
  · rw [hrecent]
    omega

theorem tries (h : c.Inv) (hroom : c.recent ≤ throttleMaxFailures) :
    Inv { c with starts := c.clock :: c.starts, headers := c.clock :: c.headers } := by
  have hrecent : Counts.recent { c with starts := c.clock :: c.starts, headers := c.clock :: c.headers } =
      c.recent + 1 :=
    since_cons h.opened_le c.starts
  refine ⟨List.forall_mem_cons.2 ⟨le_rfl, h.started⟩, h.opened, h.windows, ?_, ?_, fun w => h.bounded_cons hroom⟩
  · have := h.accounted
    rw [hrecent, since_cons h.opened_le]
    dsimp only
    omega
  · rw [hrecent]
    omega

/-- A window that is opened takes over what is recent; the counter may say anything that accounts for it. -/
theorem reset (h : c.Inv) {failures inFlight : Nat}
    (haccounted : c.recent ≤ failures + inFlight + since c.headers (c.throttle.opened c.clock)) :
    Inv { c.reset with throttle.failures := failures, inFlight := inFlight } := by
  have hrecent := c.recent_reset failures inFlight
  refine ⟨h.started, h.opened_le, fun w hw => ?_, ?_, hrecent.trans_le h.recent, fun w hw => ?_⟩
  · show w = c.throttle.opened c.clock ∨ w + throttleWindowSecs ≤ c.throttle.opened c.clock
    simp only [Counts.reset] at hw
    split at hw
    · rename_i hsame
      rw [hsame]
      exact h.windows w hw
    · rename_i hne
      rcases List.mem_cons.1 hw with rfl | hw
      · exact .inl rfl
      · rcases c.throttle.reset_cases c.clock with ⟨-, hreset⟩ | ⟨hover, hreset⟩
        · exact absurd (congrArg Throttle.windowStart hreset) hne
        · have hopened : c.throttle.opened c.clock = c.clock := congrArg Throttle.windowStart hreset
          rw [hopened]
          rcases h.windows w hw with rfl | hw
          · exact .inr hover
          · exact .inr (by omega)
  · rw [hrecent]
    simp only [Counts.reset, Throttle.counted, Throttle.opened, Throttle.reset_failures]
    exact haccounted
  · show c.startedIn w ≤ throttleMaxFailures + 1
    simp only [Counts.reset] at hw
    split at hw
    · exact h.bounded w hw
    · rcases List.mem_cons.1 hw with rfl | hw
      · exact (c.startedIn_le _).trans h.recent
      · exact h.bounded w hw

theorem act (h : c.Inv) (hs : Act c c') : c'.Inv := by
  have haccounted : c.recent ≤ c.reset.throttle.failures + c.inFlight +
    since c.headers (c.throttle.opened c.clock) := h.accounted
  cases hs with
  | keeps => exact h
  | begins hroom => exact h.begins hroom
  | tries hroom => exact h.tries hroom
  | refuses => exact h.reset haccounted
  | counts =>
    have hcounted : c.recent ≤ c.reset.throttle.failures + 1 + c.inFlight +
      since c.headers (c.throttle.opened c.clock) := by omega
    exact h.reset hcounted
  | notes n hinFlight =>
    have hnoted : c.recent ≤ c.reset.throttle.failures + 1 + n +
      since c.headers (c.throttle.opened c.clock) := by omega
    exact h.reset hnoted

end Inv

theorem Act.clock (hs : Act c c') : c'.clock = c.clock := by
  cases hs <;> rfl

/-- What is recent stays so, unless a verification is started. -/
theorem Act.recent (hs : Act c c') : c'.starts = c.starts ∧ c'.recent = c.recent ∨ c'.starts = c.clock :: c.starts := by
  cases hs with
  | keeps => exact .inl ⟨rfl, rfl⟩
  | begins hroom => exact .inr rfl
  | tries hroom => exact .inr rfl
  | refuses => exact .inl ⟨rfl, c.recent_reset _ _⟩
  | counts => exact .inl ⟨rfl, c.recent_reset _ _⟩
  | notes => exact .inl ⟨rfl, c.recent_reset _ _⟩

end Counts

/-! ### What a step does to the counts -/

section
variable {Tag : Type} [DecidableEq Tag] {mac : String → Tag} {verifyPassword : String → String → Bool}
  {s s' : State Tag} {op : Op}

def State.counts (verifyPassword : String → String → Bool) (s : State Tag) : Counts where
  throttle := s.throttle
  windows := s.windows
  starts := s.starts
  headers := s.headers
  clock := s.clock
  inFlight := s.inFlight verifyPassword

/-- A login that has looked, and still has the throttle's word, finds at most ten verifications started. -/
structure Inv (verifyPassword : String → String → Bool) (s : State Tag) : Prop where
  counts : (s.counts verifyPassword).Inv
  looks : ∀ l ∈ s.logins, l.pc = .readHash →
    l.started ≤ s.starts.length ∧ (l.Alone s → (s.counts verifyPassword).recent ≤ throttleMaxFailures)

theorem countP_set {p : Attempt → Bool} {l : List Attempt} {n : Nat} {a b : Attempt} (h : l[n]? = some a) :
    (l.set n b).countP p + (p a).toNat = l.countP p + (p b).toNat := by
  obtain ⟨hn, rfl⟩ := List.getElem?_eq_some_iff.1 h
  rw [List.countP_set hn]
  have hle : (if p l[n] = true then 1 else 0) ≤ l.countP p := by
    split
    · rename_i hp
      exact List.countP_pos_iff.2 ⟨_, List.getElem_mem hn, hp⟩
    · exact Nat.zero_le _
  cases hp : p l[n] <;> cases p b <;> simp only [hp, if_true, if_false, Bool.false_eq_true, Bool.toNat_true,
    Bool.toNat_false] at hle ⊢ <;> omega

theorem loginStep_acts {n now : Nat} {l : Attempt} (hi : Inv verifyPassword s) (hl : s.logins[n]? = some l)
    (hC : Spaced mac verifyPassword s (.loginStep n now)) (h : loginStep verifyPassword s n now l = some s') :
    Counts.Act ((s.counts verifyPassword).tick now) (State.counts verifyPassword { s' with clock := now }) := by
  obtain ⟨hclock, hC⟩ := hC
  have hset (l' : Attempt) := countP_set (p := Attempt.failing verifyPassword) (b := l') hl
  have hmoves (l' : Attempt) (hl' : l'.failing verifyPassword = l.failing verifyPassword) :
      Counts.Act ((s.counts verifyPassword).tick now)
        (State.counts verifyPassword { s with logins := s.logins.set n l', clock := now }) := by
    have hcount := hset l'
    rw [hl', Nat.add_right_cancel_iff] at hcount
    simp only [State.counts, State.inFlight, hcount]
    exact .keeps
  unfold loginStep at h
  split at h
  · -- the look at the throttle
    rename_i hpc
    have hl : l.failing verifyPassword = false := by rw [Attempt.failing, hpc]
    split at h <;> cases h <;> exact hmoves _ hl.symm
  · -- the verification starts
    rename_i hpc
    have hroom := hC l hl hpc
    have hlook := (hi.looks l (List.mem_of_getElem? hl) hpc).2
    generalize (s.store.user l.username).map (·.passwordHash) = stored at h hroom
    cases h
    have hold : l.failing verifyPassword = false := by rw [Attempt.failing, hpc]
    have hnew : Attempt.failing verifyPassword { l with pc := .verify (stored.getD burnerHash) stored.isSome } =
        l.fails verifyPassword (stored.getD burnerHash) stored.isSome := rfl
    split
    · rename_i hfails
      have hrecent : ((s.counts verifyPassword).tick now).recent ≤ throttleMaxFailures := by
        rcases hroom hfails with halone | ⟨-, hfew⟩
        · exact (hi.counts.tick hclock).2.trans (hlook halone)
        · exact hfew
      have hcount := hset { l with pc := .verify (stored.getD burnerHash) stored.isSome }
      rw [hold, hnew, hfails] at hcount
      simp only [Bool.toNat_false, Nat.add_zero, Bool.toNat_true] at hcount
      simp only [State.counts, State.inFlight, hcount]
      exact .begins hrecent
    · rename_i hfails
      exact hmoves _ (hnew.trans ((Bool.eq_false_iff.2 hfails).trans hold.symm))
  · -- the verification ends
    rename_i hpc
    cases h
    split
    · rename_i hfails
      refine hmoves _ ?_
      rw [Attempt.failing, Attempt.failing, hpc]
      exact hfails.symm
    · rename_i hfails
      refine hmoves _ ?_
      rw [Attempt.failing, Attempt.failing, hpc]
      exact (Bool.eq_false_iff.2 hfails).symm
  · -- the failure is counted
    rename_i hpc
    cases h
    have hcount := hset { l with pc := .done .invalidCredentials }
    have hl : l.failing verifyPassword = true := by rw [Attempt.failing, hpc]
    rw [hl] at hcount
    exact .notes _ hcount.symm
  · cases h

/-- A step that meets the condition is one of the counts, at a time that the clock may read. -/
theorem step_acts (hi : Inv verifyPassword s) (hC : Spaced mac verifyPassword s op)
    (h : step mac verifyPassword s op = some s') :
    ∃ now, s.clock ≤ now ∧ Counts.Act ((s.counts verifyPassword).tick now) (s'.counts verifyPassword) := by
  cases op with
  | login username password =>
    obtain rfl := Option.some.inj h
    refine ⟨s.clock, le_rfl, ?_⟩
    have hcount : ∀ l : Attempt, (l.pc = .done .redirectSetup ∨ l.pc = .isThrottled) →
        (s.logins ++ [l]).countP (Attempt.failing verifyPassword) =
          s.logins.countP (Attempt.failing verifyPassword) := by
      rintro l (hpc | hpc) <;> simp [Attempt.failing, hpc]
    simp only [State.counts, State.inFlight]
    rw [hcount]
    · exact .keeps
    · dsimp only
      split
      · exact .inl rfl
      · exact .inr rfl
  | loginStep n now =>
    obtain ⟨l, hl, h⟩ := Option.bind_eq_some_iff.1 h
    obtain ⟨s₁, hs₁, h⟩ := Option.bind_eq_some_iff.1 h
    obtain rfl := Option.some.inj h
    exact ⟨now, hC.1, loginStep_acts hi hl hC hs₁⟩
  | request authorization =>
    refine ⟨s.clock, le_rfl, ?_⟩
    simp only [step] at h
    split at h
    · obtain rfl := Option.some.inj h
      split <;> exact .keeps
    · obtain rfl := Option.some.inj h
      exact .keeps
  | requestStep r now =>
    obtain ⟨hclock, hC⟩ := hC
    refine ⟨now, hclock, ?_⟩
    obtain ⟨req, hreq, h⟩ := Option.bind_eq_some_iff.1 h
    obtain ⟨⟨memo, pc⟩, hpc, h⟩ := Option.bind_eq_some_iff.1 h
    obtain rfl := Option.some.inj h
    simp only [State.counts]
    split
    · rename_i hfails
      exact .tries (hC req hreq _ hpc hfails)
    · exact .keeps
  | preAuth now =>
    simp only [step] at h
    split at h
    · refine ⟨now, hC, ?_⟩
      obtain rfl := Option.some.inj h
      simp only [Throttle.admitPreAuthAttempt]
      split
      · exact .refuses
      · exact .counts
    · obtain rfl := Option.some.inj h
      exact ⟨s.clock, le_rfl, .keeps⟩
  | commit store setupRequired =>
    obtain rfl := Option.some.inj h
    exact ⟨s.clock, le_rfl, .keeps⟩
  | clearMemo =>
    obtain rfl := Option.some.inj h
    exact ⟨s.clock, le_rfl, .keeps⟩

/-- The step is a login's look at the throttle, which lets it in. -/
structure Looks (verifyPassword : String → String → Bool) (s s' : State Tag) (l : Attempt) : Prop where
  admitted : s.throttle.isThrottled s'.clock = false
  missed : l.missed = s.missed verifyPassword s'.clock
  started : l.started = s.starts.length
  throttle : s'.throttle = s.throttle
  headers : s'.headers = s.headers
  starts : s'.starts = s.starts

/-- A login that has looked did so before, or does in this step. -/
theorem step_looks (h : step mac verifyPassword s op = some s') {l : Attempt} (hl : l ∈ s'.logins)
    (hpc : l.pc = .readHash) : l ∈ s.logins ∨ Looks verifyPassword s s' l := by
  cases op with
  | login username password =>
    obtain rfl := Option.some.inj h
    rcases List.mem_append.1 hl with hl | hl
    · exact .inl hl
    · rw [List.mem_singleton.1 hl] at hpc
      dsimp only at hpc
      split at hpc <;> cases hpc
  | loginStep n now =>
    obtain ⟨l₀, hl₀, h⟩ := Option.bind_eq_some_iff.1 h
    obtain ⟨s₁, hs₁, h⟩ := Option.bind_eq_some_iff.1 h
    obtain rfl := Option.some.inj h
    have hkept {l' : Attempt} (hne : l'.pc ≠ .readHash) (hl : l ∈ s.logins.set n l') : l ∈ s.logins := by
      rcases List.mem_or_eq_of_mem_set hl with hl | rfl
      · exact hl
      · exact absurd hpc hne
    unfold loginStep at hs₁
    split at hs₁
    · split at hs₁
      · cases hs₁
        exact .inl (hkept (by simp) hl)
      · rename_i hthrottled
        cases hs₁
        rcases List.mem_or_eq_of_mem_set hl with hl | rfl
        · exact .inl hl
        · exact .inr ⟨Bool.eq_false_iff.2 hthrottled, rfl, rfl, rfl, rfl, rfl⟩
    · cases hs₁
      exact .inl (hkept (by simp) hl)
    · cases hs₁
      split at hl
      · exact .inl (hkept (by simp) hl)
      · exact .inl (hkept (by simp) hl)
    · cases hs₁
      exact .inl (hkept (by simp) hl)
    · cases hs₁
  | request authorization =>
    simp only [step] at h
    split at h
    · obtain rfl := Option.some.inj h
      refine .inl ?_
      split at hl <;> exact hl
    · obtain rfl := Option.some.inj h
      exact .inl hl
  | requestStep r now =>
    obtain ⟨req, hreq, h⟩ := Option.bind_eq_some_iff.1 h
    obtain ⟨⟨memo, pc⟩, -, h⟩ := Option.bind_eq_some_iff.1 h
    obtain rfl := Option.some.inj h
    exact .inl hl
  | preAuth now =>
    simp only [step] at h
    split at h <;> obtain rfl := Option.some.inj h <;> exact .inl hl
  | commit store setupRequired =>
    obtain rfl := Option.some.inj h
    exact .inl hl
  | clearMemo =>
    obtain rfl := Option.some.inj h
    exact .inl hl

omit [DecidableEq Tag] in
/-- A login let in when nothing is uncounted finds what the counter says, and that is at most ten. -/
theorem Looks.recent {l : Attempt} (hlooks : Looks verifyPassword s s' l)
    (hi : ((s.counts verifyPassword).tick s'.clock).Inv) (hmissed : l.missed = 0) :
    (s'.counts verifyPassword).recent ≤ throttleMaxFailures := by
  have hcounted := Throttle.counted_le_of_isThrottled hlooks.admitted
  have haccounted := hi.accounted
  rw [hlooks.missed, State.missed] at hmissed
  have hrecent : (s'.counts verifyPassword).recent = ((s.counts verifyPassword).tick s'.clock).recent := by
    simp only [Counts.recent, State.counts, Counts.tick, hlooks.starts, hlooks.throttle]
  rw [hrecent]
  simp only [State.counts, Counts.tick] at haccounted ⊢
  omega

theorem Inv.step (hi : Inv verifyPassword s) (hC : Spaced mac verifyPassword s op)
    (h : step mac verifyPassword s op = some s') : Inv verifyPassword s' := by
  obtain ⟨now, hclock, hact⟩ := step_acts hi hC h
  obtain ⟨hticked, hle⟩ := hi.counts.tick hclock
  refine ⟨hticked.act hact, fun l hl hpc => ?_⟩
  rcases step_looks h hl hpc with hold | hlooks
  · obtain ⟨hstarted, hlook⟩ := hi.looks l hold hpc
    rcases hact.recent with ⟨hstarts, hrecent⟩ | hstarts
    · have hstarts : s'.starts = s.starts := hstarts
      rw [Attempt.Alone, hstarts, hrecent]
      exact ⟨hstarted, fun halone => hle.trans (hlook halone)⟩
    · have hlength : s'.starts.length = s.starts.length + 1 := congrArg List.length hstarts
      refine ⟨by omega, fun halone => ?_⟩
      have := halone.2
      omega
  · have hnow : s'.clock = now := hact.clock
    refine ⟨?_, fun halone => hlooks.recent ?_ halone.1⟩
    · rw [hlooks.started, hlooks.starts]
    · rw [hnow]
      exact hticked

omit [DecidableEq Tag] in
theorem inv_start (sc : StoredConfig) (now : Nat) : Inv verifyPassword (start Tag sc now) where
  counts :=
    { started := fun _ ht => absurd ht List.not_mem_nil
      opened := le_rfl
      windows := fun _ hw => .inl (List.mem_singleton.1 hw)
      accounted := Nat.zero_le _
      recent := Nat.zero_le _
      bounded := fun _ _ => Nat.zero_le _ }
  looks := fun _ hl => absurd hl List.not_mem_nil

end

/-- One user. -/
def root : StoredConfig where
  users := [⟨"root", "right", .superuser, none⟩]

abbrev plainStep : State String → Op → Option (State String) := step id fun password hash => password == hash

/-- A wrong password and an unknown user, one after the other; a wrong password in a header, and one more login; and
one in the next minute. -/
def wrongPasswords : List Op :=
  [.login "root" "wrong", .loginStep 0 5, .loginStep 0 6, .loginStep 0 7, .loginStep 0 8,
    .login "nobody" "right", .loginStep 1 9, .loginStep 1 10, .loginStep 1 11, .loginStep 1 12,
    .request "Bearer root:wrong", .requestStep 0 20, .requestStep 0 21,
    .login "root" "wrong", .loginStep 2 30, .loginStep 2 31, .loginStep 2 32, .loginStep 2 33,
    .login "root" "wrong", .loginStep 3 70, .loginStep 3 71, .loginStep 3 72, .loginStep 3 73]

/-- Twelve logins pass the check before the first failure is counted. -/
def atOnce : List Op :=
  List.replicate 12 (Op.login "root" "wrong") ++ (List.range 12).map (Op.loginStep · 5) ++
    (List.range 12).map (Op.loginStep · 6)

end Login

end OpenProxy
