import OpenProxy.Lib.Transition
import OpenProxy.Credentials
import OpenProxy.Settings

/-!
# Header credentials and their memo (`identify` of `auth.rs`)

A request without a session cookie may carry `user:password` in its Authorization header. Verifying it
costs a slow hash, done outside all locks; a success is memoized under a keyed tag of the credential, and
later requests with the same credential are answered from the memo without looking at the store. The
handlers that change users commit to the store and clear the memo after it.

Each lock acquisition is a step. The hash and the tag are parameters.
-/

namespace OpenProxy

open Text

/-! ### The credential of a request -/

/-- The credential in an Authorization header. -/
def credential (authorization : String) : Option String :=
  match stripPrefix authorization "Bearer " with
  | some bearer => some (trim bearer)
  | none => do
    let basic ← stripPrefix authorization "Basic "
    String.fromUTF8? ⟨(← Credentials.base64Decode (trim basic)).toArray⟩

/-- The user name and the password of a credential. -/
def splitCredential (cred : String) : Option (String × String) :=
  (splitOnce ':' cred.toList).map fun (username, password) => (.ofList username, .ofList password)

namespace Auth

open Transition Settings

/-- Where a request stands in `identify`. -/
inductive Pc where
  | memoHit
  | readHash
  | verify (username password hash : String)
  | memoize (username password hash : String)
  | done (user : Option String)
  deriving DecidableEq, Repr

structure Request where
  cred : String
  pc : Pc
  deriving DecidableEq, Repr

/-- What a handler changes. The hash is the one of the new password. -/
inductive Change where
  | users (caller : String) (req : UsersReq) (newHash : String)
  | password (username current newHash : String)
  deriving DecidableEq, Repr

inductive HandlerPc where
  | start
  /-- `account`: the current password is checked against `hash`. -/
  | verify (hash : String)
  /-- Ready to commit; `account` with the hash it verified. -/
  | commit (verified : String)
  | clear
  | returned (ok : Bool)
  deriving DecidableEq, Repr

structure Handler where
  change : Change
  pc : HandlerPc
  deriving DecidableEq, Repr

structure State (Tag : Type) where
  store : StoredConfig
  scraperMemo : Option (Tag × String)
  requests : List Request
  handlers : List Handler

inductive Op where
  /-- A request with this Authorization header and no session cookie. -/
  | request (authorization : String)
  | handle (change : Change)
  | requestStep (r : Nat)
  /-- `saved` says whether a commit can write the store's file. -/
  | handlerStep (h : Nat) (saved : Bool)

def start (Tag : Type) (sc : StoredConfig) : State Tag := ⟨sc, none, [], []⟩

section
variable {Tag : Type} [DecidableEq Tag] (mac : String → Tag) (verifyPassword : String → String → Bool)

/-- One step of `identify`: the memo afterwards and the request's next place. -/
def identify (store : StoredConfig) (memo : Option (Tag × String)) (req : Request) :
    Option (Option (Tag × String) × Pc) :=
  match req.pc with
  | .memoHit =>
    match memo with
    | some (tag, user) => some (memo, if mac req.cred = tag then .done (some user) else .readHash)
    | none => some (memo, .readHash)
  | .readHash =>
    match splitCredential req.cred with
    | none => some (memo, .done none)
    | some (username, password) =>
      match store.user username with
      | none => some (memo, .done none)
      | some user => some (memo, .verify username password user.passwordHash)
  | .verify username password hash =>
    some (memo, if verifyPassword password hash then .memoize username password hash else .done none)
  | .memoize username _ _ => some (some (mac req.cred, username), .done (some username))
  | .done _ => none

/-- The store a commit leaves behind, if it goes through. -/
def commit (store : StoredConfig) (change : Change) (verified : String) : Option StoredConfig :=
  let cand :=
    match change with
    | .users caller req newHash => (users store caller req newHash).toOption
    | .password username _ newHash => (applyPasswordChange store username verified newHash).toOption
  cand.filter fun cand => cand.validate.toOption.isSome

/-- One step of a handler. -/
def handlerStep (s : State Tag) (h : Nat) (hd : Handler) (saved : Bool) : Option (State Tag) :=
  let goto (pc : HandlerPc) : State Tag := { s with handlers := s.handlers.set h { hd with pc := pc } }
  match hd.pc with
  | .start =>
    match hd.change with
    | .users caller _ _ =>
      match requireAdmin s.store caller "user management requires an admin" with
      | .ok _ => some (goto (.commit ""))
      | .error _ => some (goto (.returned false))
    | .password username _ _ =>
      match s.store.user username with
      | some user => some (goto (.verify user.passwordHash))
      | none => some (goto (.returned false))
  | .verify hash =>
    match hd.change with
    | .password _ current _ =>
      some (goto (if verifyPassword current hash then .commit hash else .returned false))
    | .users _ _ _ => none
  | .commit verified =>
    match commit s.store hd.change verified with
    | some cand => if saved then some { goto .clear with store := cand } else some (goto (.returned false))
    | none => some (goto (.returned false))
  | .clear => some { goto (.returned true) with scraperMemo := none }
  | .returned _ => none

def step (s : State Tag) : Op → Option (State Tag)
  | .request authorization =>
    match credential authorization with
    | some cred => some { s with requests := s.requests ++ [⟨cred, .memoHit⟩] }
    | none => some s
  | .handle change => some { s with handlers := s.handlers ++ [⟨change, .start⟩] }
  | .requestStep r => do
    let req ← s.requests[r]?
    let (memo, pc) ← identify mac verifyPassword s.store s.scraperMemo req
    return { s with scraperMemo := memo, requests := s.requests.set r { req with pc := pc } }
  | .handlerStep h saved => do
    let hd ← s.handlers[h]?
    handlerStep verifyPassword s h hd saved

/-- The store would accept the credential: its user exists and the password verifies. -/
def accepts (store : StoredConfig) (cred : String) : Bool :=
  (splitCredential cred).any fun (username, password) =>
    (store.user username).any fun user => verifyPassword password user.passwordHash

end

/-- The user whose password a change replaces, or whom it deletes. -/
def Change.revokes : Change → Option String
  | .users _ req _ => req.remove.orElse fun _ => req.resetPassword
  | .password username _ _ => some username

def Change.newHash : Change → String
  | .users _ _ newHash => newHash
  | .password _ _ newHash => newHash

/-! ### What a commit revokes -/

theorem user_setPassword (store : StoredConfig) (username newHash : String) :
    (({ store with users := editUser store.users username ({ · with passwordHash := newHash }) } : StoredConfig).user
      username).all (fun user => user.passwordHash == newHash) = true := by
  simp only [StoredConfig.user, find?_editUser (f := ({ · with passwordHash := newHash })) (fun _ => rfl)]
  cases store.users.find? (·.username == username) <;> simp

/-- After a commit that revokes a user, the store has no such user or the new hash. -/
theorem commit_user {store cand : StoredConfig} {change : Change} {verified username : String}
    (h : commit store change verified = some cand) (hr : change.revokes = some username) :
    (cand.user username).all (fun user => user.passwordHash == change.newHash) = true := by
  obtain ⟨hcand, -⟩ := Option.filter_eq_some_iff.1 h
  cases change with
  | users caller req newHash =>
    obtain ⟨-, hedit⟩ := users_cases (toOption_eq_some hcand)
    simp only [Change.revokes] at hr
    cases hedit with
    | adds name text role hadd hrem hreset =>
      rw [hrem, hreset] at hr
      cases hr
    | removes target user hadd hrem hreset hset huser hrole hcand =>
      rw [hrem] at hr
      obtain rfl : target = username := Option.some.inj hr
      subst hcand
      rw [Option.all_eq_true]
      intro user hu
      obtain ⟨-, hmem⟩ := List.mem_filter.1 (List.mem_of_find?_eq_some hu)
      have hname := List.find?_some hu
      simp only [beq_iff_eq, bne_iff_ne] at hname hmem
      exact absurd hname hmem
    | resets target user hadd hrem hreset hset huser hrole hcand =>
      rw [hrem, hreset] at hr
      obtain rfl : target = username := Option.some.inj hr
      subst hcand
      exact user_setPassword store target newHash
    | setsRole target text role user hadd hrem hreset =>
      rw [hrem, hreset] at hr
      cases hr
  | password target current newHash =>
    have hcand := toOption_eq_some hcand
    obtain rfl : target = username := Option.some.inj hr
    simp only [applyPasswordChange] at hcand
    split at hcand
    · cases hcand
    · split at hcand
      · cases hcand
      · cases hcand
        exact user_setPassword store target newHash

section
variable {Tag : Type} [DecidableEq Tag] {mac : String → Tag} {verifyPassword : String → String → Bool}

theorem commit_revokes {store cand : StoredConfig} {change : Change}
    {verified username password cred : String} (h : commit store change verified = some cand)
    (hr : change.revokes = some username) (hcred : splitCredential cred = some (username, password))
    (hnew : verifyPassword password change.newHash = false) :
    accepts verifyPassword cand cred = false := by
  have hu := commit_user h hr
  simp only [accepts, hcred, Option.any_some]
  cases huser : cand.user username with
  | none => rfl
  | some user =>
    rw [huser, Option.all_some, beq_iff_eq] at hu
    rw [Option.any_some, hu, hnew]

/-! ### Inversion of the steps -/

theorem requestStep_eq {s s' : State Tag} {r : Nat} (h : step mac verifyPassword s (.requestStep r) = some s') :
    ∃ req memo pc, s.requests[r]? = some req ∧
      identify mac verifyPassword s.store s.scraperMemo req = some (memo, pc) ∧
      s' = { s with scraperMemo := memo, requests := s.requests.set r { req with pc := pc } } := by
  obtain ⟨req, hr, h⟩ := Option.bind_eq_some_iff.1 h
  obtain ⟨⟨memo, pc⟩, hi, h⟩ := Option.bind_eq_some_iff.1 h
  cases h
  exact ⟨req, memo, pc, hr, hi, rfl⟩

/-- A handler touches no request, and the memo only to clear it. -/
theorem handlerStep_frame {s s' : State Tag} {h : Nat} {saved : Bool}
    (hs : step mac verifyPassword s (.handlerStep h saved) = some s') :
    s'.requests = s.requests ∧ (s'.scraperMemo = s.scraperMemo ∨ s'.scraperMemo = none) := by
  obtain ⟨hd, -, hs⟩ := Option.bind_eq_some_iff.1 hs
  simp only [handlerStep] at hs
  split at hs
  · split at hs
    · split at hs <;> cases hs <;> exact ⟨rfl, .inl rfl⟩
    · split at hs <;> cases hs <;> exact ⟨rfl, .inl rfl⟩
  · split at hs <;> cases hs
    exact ⟨rfl, .inl rfl⟩
  · split at hs
    · split at hs <;> cases hs <;> exact ⟨rfl, .inl rfl⟩
    · cases hs; exact ⟨rfl, .inl rfl⟩
  · cases hs; exact ⟨rfl, .inr rfl⟩
  · cases hs

end

/-! ### The condition -/

section
variable {Tag : Type} [DecidableEq Tag] (mac : String → Tag) (verifyPassword : String → String → Bool)
  (cred : String)

/-- A request memoizes `cred` only while the hash it verified is still its user's. -/
def State.fresh (s : State Tag) : Op → Bool
  | .requestStep r =>
    match s.requests[r]? with
    | some ⟨c, .memoize username _ hash⟩ => c != cred || (s.store.user username).any (·.passwordHash == hash)
    | _ => true
  | _ => true

def Fresh (s : State Tag) (op : Op) : Prop := s.fresh cred op = true

instance (s : State Tag) (op : Op) : Decidable (Fresh cred s op) :=
  inferInstanceAs (Decidable (s.fresh cred op = true))

/-- No handler gives a revoked credential back. -/
def State.lasting (s : State Tag) (op : Op) : Bool :=
  accepts verifyPassword s.store cred ||
    (step mac verifyPassword s op).all fun s' => !accepts verifyPassword s'.store cred

def Lasting (s : State Tag) (op : Op) : Prop := s.lasting mac verifyPassword cred op = true

instance (s : State Tag) (op : Op) : Decidable (Lasting mac verifyPassword cred s op) :=
  inferInstanceAs (Decidable (s.lasting mac verifyPassword cred op = true))

end

/-! ### Invariants -/

section
variable {Tag : Type} [DecidableEq Tag] {mac : String → Tag} {verifyPassword : String → String → Bool}
  {cred : String}

/-- What a request carries along is its own credential, and verified once it is to be memoized. -/
def Checked (verifyPassword : String → String → Bool) (req : Request) : Prop :=
  match req.pc with
  | .verify username password _ => splitCredential req.cred = some (username, password)
  | .memoize username password hash =>
    splitCredential req.cred = some (username, password) ∧ verifyPassword password hash = true
  | _ => True

/-- The request is on its way to be refused. -/
def Refused (verifyPassword : String → String → Bool) (req : Request) : Prop :=
  match req.pc with
  | .memoHit | .readHash | .done none => True
  | .verify _ password hash => verifyPassword password hash = false
  | .memoize _ _ _ | .done (some _) => False

theorem identify_checked {store : StoredConfig} {memo memo' : Option (Tag × String)} {req : Request}
    {pc : Pc} (h : Checked verifyPassword req)
    (hs : identify mac verifyPassword store memo req = some (memo', pc)) :
    Checked verifyPassword { req with pc := pc } := by
  unfold identify at hs
  split at hs
  · split at hs
    · rename_i tag user
      by_cases ht : mac req.cred = tag
      · rw [if_pos ht] at hs; cases hs; trivial
      · rw [if_neg ht] at hs; cases hs; trivial
    · cases hs; trivial
  · split at hs
    · cases hs; trivial
    · rename_i username password hsplit
      split at hs
      · cases hs; trivial
      · cases hs; exact hsplit
  · rename_i username password hash hpc
    simp only [Checked, hpc] at h
    by_cases hv : verifyPassword password hash = true
    · rw [if_pos hv] at hs
      cases hs
      exact ⟨h, hv⟩
    · rw [if_neg hv] at hs
      cases hs
      trivial
  · cases hs; trivial
  · cases hs

theorem step_checked {s s' : State Tag} {op : Op}
    (h : ∀ req ∈ s.requests, Checked verifyPassword req) (hs : step mac verifyPassword s op = some s') :
    ∀ req ∈ s'.requests, Checked verifyPassword req := by
  cases op with
  | request authorization =>
    simp only [step] at hs
    split at hs
    · cases hs
      intro req hreq
      rcases List.mem_append.1 hreq with hreq | hreq
      · exact h req hreq
      · rw [List.mem_singleton.1 hreq]; trivial
    · cases hs; exact h
  | handle change => cases hs; exact h
  | requestStep r =>
    obtain ⟨req, memo, pc, hr, hi, rfl⟩ := requestStep_eq hs
    intro req' hreq'
    rcases List.mem_or_eq_of_mem_set hreq' with hreq' | rfl
    · exact h req' hreq'
    · exact identify_checked (h req (List.mem_of_getElem? hr)) hi
  | handlerStep n saved => rw [(handlerStep_frame hs).1]; exact h

/-- From the clear on: the store refuses `cred`, the memo does not hold it, and the requests that start
with it (those from number `n` on) are on their way to be refused. -/
structure Out (mac : String → Tag) (verifyPassword : String → String → Bool) (cred : String) (n : Nat)
    (s : State Tag) : Prop where
  checked : ∀ req ∈ s.requests, Checked verifyPassword req
  refuses : accepts verifyPassword s.store cred = false
  memo : ∀ {tag : Tag} {user : String}, s.scraperMemo = some (tag, user) → tag ≠ mac cred
  refused : ∀ {r : Nat} {req : Request}, n ≤ r → s.requests[r]? = some req → req.cred = cred →
    Refused verifyPassword req
  le : n ≤ s.requests.length

/-- A store that refuses the credential has no hash of its user that the password verifies against. -/
theorem refuses_hash {store : StoredConfig} {username password : String} {user : User}
    (h : accepts verifyPassword store cred = false) (hs : splitCredential cred = some (username, password))
    (hu : store.user username = some user) : verifyPassword password user.passwordHash = false := by
  simpa [accepts, hs, hu] using h

theorem Out.identify {n : Nat} {s : State Tag} (h : Out mac verifyPassword cred n s) {req : Request}
    {memo : Option (Tag × String)} {pc : Pc} (hcred : req.cred = cred) (href : Refused verifyPassword req)
    (hi : identify mac verifyPassword s.store s.scraperMemo req = some (memo, pc)) :
    Refused verifyPassword { req with pc := pc } := by
  unfold Auth.identify at hi
  split at hi
  · split at hi
    · rename_i tag user hmemo
      have hne : mac req.cred ≠ tag := by rw [hcred]; exact (h.memo hmemo).symm
      rw [if_neg hne] at hi
      cases hi
      trivial
    · cases hi; trivial
  · split at hi
    · cases hi; trivial
    · rename_i username password hsplit
      split at hi
      · cases hi; trivial
      · rename_i user huser
        cases hi
        exact refuses_hash h.refuses (hcred ▸ hsplit) huser
  · rename_i username password hash hpc
    simp only [Refused, hpc] at href
    rw [href] at hi
    cases hi
    trivial
  · rename_i hpc
    simp only [Refused, hpc] at href
  · cases hi

/-- Only the memoizing step writes the memo. -/
theorem identify_memo {store : StoredConfig} {memo memo' : Option (Tag × String)} {req : Request} {pc : Pc}
    (hpc : ∀ username password hash, req.pc ≠ .memoize username password hash)
    (hi : identify mac verifyPassword store memo req = some (memo', pc)) : memo' = memo := by
  unfold Auth.identify at hi
  split at hi
  · split at hi <;> cases hi <;> rfl
  · split at hi
    · cases hi; rfl
    · split at hi <;> cases hi <;> rfl
  · cases hi; rfl
  · rename_i hm; exact absurd hm (hpc _ _ _)
  · cases hi

theorem step_out {n : Nat} {s s' : State Tag} {op : Op} (hmac : Function.Injective mac)
    (h : Out mac verifyPassword cred n s) (hl : Lasting mac verifyPassword cred s op)
    (hf : Fresh cred s op) (hs : step mac verifyPassword s op = some s') :
    Out mac verifyPassword cred n s' := by
  have hrefuses : accepts verifyPassword s'.store cred = false := by
    simpa [Lasting, State.lasting, h.refuses, hs] using hl
  have hchecked := step_checked h.checked hs
  cases op with
  | request authorization =>
    simp only [step] at hs
    split at hs
    · cases hs
      refine ⟨hchecked, hrefuses, h.memo, fun {r req} hn hr hcred => ?_, ?_⟩
      · rcases Nat.lt_or_ge r s.requests.length with hlt | hge
        · rw [List.getElem?_append_left hlt] at hr
          exact h.refused hn hr hcred
        · rw [List.getElem?_append_right hge] at hr
          have hreq := List.mem_singleton.1 (List.mem_of_getElem? hr)
          rw [hreq]; trivial
      · rw [List.length_append]; exact Nat.le_add_right_of_le h.le
    · cases hs; exact h
  | handle change => cases hs; exact ⟨hchecked, hrefuses, h.memo, h.refused, h.le⟩
  | handlerStep k saved =>
    obtain ⟨hreq, hmemo⟩ := handlerStep_frame hs
    refine ⟨hchecked, hrefuses, fun hm => ?_, by rw [hreq]; exact h.refused, by rw [hreq]; exact h.le⟩
    rcases hmemo with he | he <;> rw [he] at hm
    · exact h.memo hm
    · cases hm
  | requestStep r =>
    obtain ⟨req, memo, pc, hr, hi, rfl⟩ := requestStep_eq hs
    have hlen : n ≤ (s.requests.set r { req with pc := pc }).length := by rw [List.length_set]; exact h.le
    by_cases hpc : ∃ username password hash, req.pc = .memoize username password hash
    · obtain ⟨username, password, hash, hpc⟩ := hpc
      have hck := h.checked req (List.mem_of_getElem? hr)
      simp only [Checked, hpc] at hck
      -- the stored hash is the verified one, which the store refuses for `cred`
      have hne : req.cred ≠ cred := by
        intro hcred
        obtain ⟨c, pc'⟩ := req
        subst hcred
        subst hpc
        simp only [Fresh, State.fresh, hr, bne_self_eq_false, Bool.false_or, Option.any_eq_true, beq_iff_eq] at hf
        obtain ⟨user, huser, rfl⟩ := hf
        rw [refuses_hash h.refuses hck.1 huser] at hck
        cases hck.2
      simp only [Auth.identify, hpc, Option.some.injEq, Prod.mk.injEq] at hi
      obtain ⟨rfl, rfl⟩ := hi
      refine ⟨hchecked, hrefuses, fun hm => ?_, fun {r' req'} hn hr' hcred => ?_, hlen⟩
      · cases hm
        exact fun he => hne (hmac he)
      · by_cases hrr : r = r'
        · subst hrr
          rw [List.getElem?_set_self (List.getElem?_eq_some_iff.1 hr).1] at hr'
          cases hr'
          exact absurd hcred hne
        · rw [List.getElem?_set_ne hrr] at hr'
          exact h.refused hn hr' hcred
    · have hmemo := identify_memo (fun u p h he => hpc ⟨u, p, h, he⟩) hi
      refine ⟨hchecked, hrefuses, fun hm => h.memo (hmemo ▸ hm), fun {r' req'} hn hr' hcred => ?_, hlen⟩
      by_cases hrr : r = r'
      · subst hrr
        rw [List.getElem?_set_self (List.getElem?_eq_some_iff.1 hr).1] at hr'
        cases hr'
        have hcred : req.cred = cred := hcred
        exact h.identify hcred (h.refused hn hr hcred) hi
      · rw [List.getElem?_set_ne hrr] at hr'
        exact h.refused hn hr' hcred

end

/-! ### Revocation -/

section
variable {Tag : Type} [DecidableEq Tag] (mac : String → Tag) (verifyPassword : String → String → Bool)
  (cred : String)

/-- The change deletes the user of `cred`, or gives it a hash that its password does not verify against. -/
def Change.Revokes (change : Change) : Prop :=
  ∃ username password, change.revokes = some username ∧ splitCredential cred = some (username, password) ∧
    verifyPassword password change.newHash = false

/-- Handler `n` commits a change that revokes `cred`. -/
def Commits (n : Nat) (s s' : State Tag) : Prop :=
  ∃ hd verified, s.handlers[n]? = some hd ∧ hd.pc = .commit verified ∧ hd.change.Revokes verifyPassword cred ∧
    step mac verifyPassword s (.handlerStep n true) = some s' ∧ (s'.handlers[n]?).map (·.pc) = some .clear

/-- Handler `n` clears the memo and returns. -/
def Clears (n : Nat) (s s' : State Tag) : Prop :=
  (s.handlers[n]?).map (·.pc) = some .clear ∧ step mac verifyPassword s (.handlerStep n true) = some s'

/-- No request from number `n` on is identified by `cred`. -/
def StaysOut (n : Nat) (s : State Tag) : Prop :=
  ∀ r req, n ≤ r → s.requests[r]? = some req → req.cred = cred → ∀ user, req.pc ≠ .done (some user)

end

section
variable {Tag : Type} [DecidableEq Tag] {mac : String → Tag} {verifyPassword : String → String → Bool}
  {cred : String}

theorem Commits.refuses {n : Nat} {s s' : State Tag} (h : Commits mac verifyPassword cred n s s') :
    accepts verifyPassword s'.store cred = false := by
  obtain ⟨⟨change, pc⟩, verified, hn, hpc, ⟨username, password, hrev, hcred, hnew⟩, hs, hdone⟩ := h
  obtain rfl : pc = .commit verified := hpc
  obtain ⟨hd, hn', hs⟩ := Option.bind_eq_some_iff.1 hs
  obtain rfl := Option.some.inj (hn.symm.trans hn')
  simp only [handlerStep, ↓reduceIte] at hs
  split at hs
  · rename_i cand hcommit
    cases hs
    exact commit_revokes hcommit hrev hcred hnew
  · cases hs
    simp [List.getElem?_set_self (List.getElem?_eq_some_iff.1 hn).1] at hdone

theorem Clears.memo {n : Nat} {s s' : State Tag} (h : Clears mac verifyPassword n s s') :
    s'.scraperMemo = none := by
  obtain ⟨hpc, hs⟩ := h
  obtain ⟨⟨change, pc⟩, hn, hpc⟩ := Option.map_eq_some_iff.1 hpc
  obtain rfl : pc = .clear := hpc
  obtain ⟨hd, hn', hs⟩ := Option.bind_eq_some_iff.1 hs
  obtain rfl := Option.some.inj (hn.symm.trans hn')
  cases hs
  rfl

/-- A handler commits a change that revokes `cred` (`s` to `s₁`) and clears the memo later (`s₂` to `s₃`). As
long as no handler gives the credential back, and from the clear on no request memoizes it against a hash
that was replaced, no request started after the clear is identified by it. -/
theorem revoked_staysOut (hmac : Function.Injective mac) {sc : StoredConfig} {before between after : List Op}
    {s s₁ s₂ s₃ s₄ : State Tag} {n : Nat}
    (hrun : exec (step mac verifyPassword) (start Tag sc) before = some s)
    (hcommit : Commits mac verifyPassword cred n s s₁)
    (hbetween : exec (step mac verifyPassword) s₁ between = some s₂)
    (hclear : Clears mac verifyPassword n s₂ s₃)
    (hafter : exec (step mac verifyPassword) s₃ after = some s₄)
    (hlasting : Meets (step mac verifyPassword) (Lasting mac verifyPassword cred) s₁
      (between ++ .handlerStep n true :: after))
    (hfresh : Meets (step mac verifyPassword) (Fresh cred) s₃ after) :
    StaysOut cred s₃.requests.length s₄ := by
  have hchecked : ∀ req ∈ s₃.requests, Checked verifyPassword req := by
    have hs : ∀ req ∈ s.requests, Checked verifyPassword req :=
      exec_invariant (fun _ _ _ h hs => step_checked h hs) (fun req hreq => by cases hreq) hrun
    obtain ⟨_, _, -, -, -, hstep, -⟩ := hcommit
    have hs₂ := exec_invariant (I := fun s => ∀ req ∈ s.requests, Checked verifyPassword req)
      (fun _ _ _ h hs => step_checked h hs) (step_checked hs hstep) hbetween
    exact step_checked hs₂ hclear.2
  have hrefuses₂ : accepts verifyPassword s₂.store cred = false := by
    refine exec_invariant_of_meets (I := fun s => accepts verifyPassword s.store cred = false)
      (fun s op s' h hl hs => ?_) hcommit.refuses hlasting.append_left hbetween
    simpa [Lasting, State.lasting, h, hs] using hl
  have hlast := hlasting.append_right hbetween
  have hrefuses₃ : accepts verifyPassword s₃.store cred = false := by
    simpa [Lasting, State.lasting, hrefuses₂, hclear.2] using hlast.1
  have hout : Out mac verifyPassword cred s₃.requests.length s₃ := by
    refine ⟨hchecked, hrefuses₃, fun hm => ?_, fun hn hr _ => ?_, Nat.le_refl _⟩
    · rw [hclear.memo] at hm; cases hm
    · exact absurd (List.getElem?_eq_some_iff.1 hr).1 (Nat.not_lt.2 hn)
  have hmeets : Meets (step mac verifyPassword)
      (fun s op => Lasting mac verifyPassword cred s op ∧ Fresh cred s op) s₃ after :=
    (hlast.2 s₃ hclear.2).and hfresh
  have hfinal := exec_invariant_of_meets (fun _ _ _ h hC hs => step_out hmac h hC.1 hC.2 hs) hout hmeets hafter
  intro r req hn hr hcred user hpc
  have href := hfinal.refused hn hr hcred
  simp only [Refused, hpc] at href

end

/-- A superuser and an administrator. -/
def twoUsers : StoredConfig where
  upstream := { nimKeys := [⟨"k0", "root", true, 40⟩] }
  users := [⟨"root", "secret", .superuser, none⟩, ⟨"bob", "old", .admin, none⟩]

/-- Steps in which a password is its own hash and a credential its own tag. -/
def plainStep : State String → Op → Option (State String) := step id fun password hash => password == hash

def resetBob : Change := .users "root" { resetPassword := some "bob" } "new"

theorem resetBob_revokes : resetBob.Revokes (fun password hash => password == hash) "bob:old" :=
  ⟨"bob", "old", rfl, by decide +kernel, by decide +kernel⟩

/-- A run in which handler 0 commits the reset after `before`, clears the memo at once, and `after` follows. -/
def resetRun (before after : List Op) : List Op :=
  before ++ .handlerStep 0 true :: .handlerStep 0 true :: after

/-- The states of such a run around the two steps of the handler. -/
theorem split_resetRun {before after : List Op}
    (hrun : (exec plainStep (start String twoUsers) (resetRun before after)).isSome = true)
    (hhd : (exec plainStep (start String twoUsers) before).bind (·.handlers[0]?) = some ⟨resetBob, .commit ""⟩)
    (hdone : (exec plainStep (start String twoUsers) (before ++ [.handlerStep 0 true])).bind
      (fun s => (s.handlers[0]?).map (·.pc)) = some .clear) :
    ∃ s s₁ s₃ s₄, exec plainStep (start String twoUsers) (resetRun before after) = some s₄ ∧
      exec plainStep (start String twoUsers) before = some s ∧
      Commits id (fun password hash => password == hash) "bob:old" 0 s s₁ ∧
      Clears id (fun password hash => password == hash) 0 s₁ s₃ ∧
      exec plainStep (start String twoUsers) (resetRun before []) = some s₃ ∧
      exec plainStep s₃ after = some s₄ ∧
      ∀ C, Meets plainStep C (start String twoUsers) (resetRun before after) →
        Meets plainStep C s₁ (.handlerStep 0 true :: after) ∧ Meets plainStep C s₃ after := by
  obtain ⟨s₄, hall⟩ := Option.isSome_iff_exists.1 hrun
  obtain ⟨s, hs, h₄⟩ := exec_append_eq_some.1 hall
  obtain ⟨s₁, h₁, h₄⟩ := exec_cons_eq_some.1 h₄
  obtain ⟨s₃, h₃, h₄⟩ := exec_cons_eq_some.1 h₄
  rw [exec_snoc_eq_some.2 ⟨s, hs, h₁⟩] at hdone
  rw [hs] at hhd
  refine ⟨s, s₁, s₃, s₄, hall, hs, ⟨_, _, hhd, rfl, resetBob_revokes, h₁, hdone⟩, ⟨hdone, h₃⟩,
    exec_append_eq_some.2 ⟨s, hs, exec_cons_eq_some.2 ⟨s₁, h₁, exec_cons_eq_some.2 ⟨s₃, h₃, rfl⟩⟩⟩, h₄, ?_⟩
  intro C hC
  have h₁ := (hC.append_right hs).2 s₁ h₁
  exact ⟨h₁, h₁.2 s₃ h₃⟩

/-- A request is identified and memoized before the reset. -/
def identified : List Op :=
  [.request "Bearer bob:old", .requestStep 0, .requestStep 0, .requestStep 0, .requestStep 0,
    .handle resetBob, .handlerStep 0 true]

/-- Another request with the old password. -/
def asksAgain : List Op :=
  [.request "Bearer bob:old", .requestStep 1, .requestStep 1, .requestStep 1]

theorem revoked_staysOut_identified :
    ∃ s₃ s₄, exec plainStep (start String twoUsers) (resetRun identified asksAgain) = some s₄ ∧
      exec plainStep s₃ asksAgain = some s₄ ∧ StaysOut "bob:old" s₃.requests.length s₄ := by
  obtain ⟨s, s₁, s₃, s₄, hall, hs, hcommit, hclear, -, h₄, hmeets⟩ :=
    split_resetRun (show (exec plainStep (start String twoUsers) (resetRun identified asksAgain)).isSome = true
      by decide +kernel) (by decide +kernel) (by decide +kernel)
  have hlasting : Meets plainStep (Lasting id (fun password hash => password == hash) "bob:old")
      (start String twoUsers) (resetRun identified asksAgain) := by decide +kernel
  have hfresh : Meets plainStep (Fresh "bob:old") (start String twoUsers) (resetRun identified asksAgain) := by
    decide +kernel
  exact ⟨s₃, s₄, hall, h₄, revoked_staysOut Function.injective_id hs hcommit exec_nil hclear h₄
    (hmeets _ hlasting).1 (hmeets _ hfresh).2⟩

/-- The same request, not memoized yet when the reset commits. -/
def verified : List Op :=
  [.request "Bearer bob:old", .requestStep 0, .requestStep 0, .requestStep 0,
    .handle resetBob, .handlerStep 0 true]

/-- It memoizes the old password after the clear, and another request is answered from the memo. -/
def memoizesLate : List Op := [.requestStep 0, .request "Bearer bob:old", .requestStep 1]

theorem not_staysOut_memoizesLate : ¬ ∀ (mac : String → String) (verifyPassword : String → String → Bool)
    (cred : String) (sc : StoredConfig) (before between after : List Op) (s s₁ s₂ s₃ s₄ : State String) (n : Nat),
    Function.Injective mac → exec (step mac verifyPassword) (start String sc) before = some s →
    Commits mac verifyPassword cred n s s₁ → exec (step mac verifyPassword) s₁ between = some s₂ →
    Clears mac verifyPassword n s₂ s₃ → exec (step mac verifyPassword) s₃ after = some s₄ →
    Meets (step mac verifyPassword) (Lasting mac verifyPassword cred) s₁
      (between ++ .handlerStep n true :: after) →
    StaysOut cred s₃.requests.length s₄ := by
  intro h
  obtain ⟨s, s₁, s₃, s₄, hall, hs, hcommit, hclear, h₃, h₄, hmeets⟩ :=
    split_resetRun (show (exec plainStep (start String twoUsers) (resetRun verified memoizesLate)).isSome = true
      by decide +kernel) (by decide +kernel) (by decide +kernel)
  have hlasting : Meets plainStep (Lasting id (fun password hash => password == hash) "bob:old")
      (start String twoUsers) (resetRun verified memoizesLate) := by decide +kernel
  have hend : (exec plainStep (start String twoUsers) (resetRun verified memoizesLate)).bind (·.requests[1]?) =
      some ⟨"bob:old", .done (some "bob")⟩ := by decide +kernel
  rw [hall] at hend
  have hlen : (exec plainStep (start String twoUsers) (resetRun verified [])).map (·.requests.length) =
      some 1 := by decide +kernel
  rw [h₃, Option.map_some, Option.some.injEq] at hlen
  exact h _ _ _ _ _ _ _ _ _ _ _ _ _ Function.injective_id hs hcommit exec_nil hclear h₄
    (hmeets _ hlasting).1 1 _ hlen.le hend rfl "bob" rfl

end Auth

end OpenProxy
