import OpenProxy.Authority
import OpenProxy.Credentials
import OpenProxy.Password

/-!
# Who is let in (`login_submit`, `mint_session_cookie`, `cookie`, `cookie_token`, `require_session` of `auth.rs`)

A session is handed out for the password hash that was read when the request that asked for it was checked. By then the
password may have been changed, by its owner or by an admin, or the user may be gone: the checks are made outside the
store lock, and all that the server keeps of a session is the key it was signed with. `AppState` is what the handlers do
to the store meanwhile.
-/

namespace OpenProxy.Access

open AppState Transition Settings Text Session

/-! ### Cookies -/

def cookieName : List Char := "nimproxy_session".toList

def sessionTtlSecs : UInt64 := 12 * 3600

structure Admin where
  signingKey : List UInt8
  trustProxy : Bool

/-- `Admin::cookie`, with the `x-forwarded-proto` header, if it is text. -/
def Admin.cookie (a : Admin) (forwardedProto : Option String) (token : String) (maxAge : Int) : String :=
  let secure := a.trustProxy && forwardedProto.any fun proto => toAsciiLowercase proto == "https"
  .ofList (cookieName ++ '=' :: (token.toList ++ ';' :: (" HttpOnly; SameSite=Strict; Path=/; Max-Age=".toList ++
    (toString maxAge).toList ++ if secure then "; Secure".toList else [])))

/-- The token in a `Cookie` header. -/
def cookieToken (cookies : String) : Option String :=
  (splitOn ';' cookies.toList).findSome? fun part => stripPrefix (trim (.ofList part)) (.ofList (cookieName ++ ['=']))

def wantsHtml (accept : Option String) : Bool := accept.any fun a => decide ("text/html".toList <:+: a.toList)

/-! ### The server -/

/-- A login that has read the stored hash, if there is one, when `since` commits had been made. -/
structure Login where
  username : String
  password : String
  stored : Option String
  since : Nat

/-- A request that gets a session, for the hash that was the stored one after `since` commits; with the password that
was verified against it, if the request did not set it. -/
structure Granted where
  username : String
  passwordHash : String
  since : Nat
  password : Option String

/-- A session that was handed out. -/
structure Minted where
  granted : Granted
  now : UInt64
  setCookie : String

def Minted.expiry (m : Minted) : UInt64 := m.now + sessionTtlSecs

structure State where
  app : AppState.State
  admin : Admin
  logins : List Login
  granted : List Granted
  sessions : List Minted

inductive Op where
  | app (op : AppState.Op)
  /-- `POST /login`; the throttle admits it or not. -/
  | login (body : String) (admitted : Bool)
  /-- The `n`-th login has verified its password. -/
  | verify (n : Nat)
  /-- The answer with the cookie goes out at `now`. -/
  | answer (n : Nat) (forwardedProto : Option String) (now : UInt64)

/-- The first superuser gets a session, and so does a user who changes their password. -/
def grants (since : Nat) : Save → List Granted
  | .setup req hash _ => [⟨req.username, hash, since, none⟩]
  | .password username _ _ newHash => [⟨username, newHash, since, none⟩]
  | .edit _ _ | .users _ _ _ | .accountLocale _ _ | .locale _ _ => []

/-- With this save the user themselves set the password that hashes so: at the setup, or as a change of their own. -/
def SetsOwn (username hash : String) : Save → Prop
  | .setup req hash' _ => req.username = username ∧ hash' = hash
  | .password username' _ _ newHash => username' = username ∧ newHash = hash
  | .edit _ _ | .users _ _ _ | .accountLocale _ _ | .locale _ _ => False

inductive Gate where
  | redirect (location : String)
  | setupRequired
  | unauthorized
  | next (username : String)
  deriving DecidableEq, Repr

section
variable (p : Primitives) (sha256Hex : String → String) (verifyPassword : String → String → Bool)

def start (sc : StoredConfig) (admin : Admin) (now : Nat) : State := ⟨boot sc now, admin, [], [], []⟩

def State.mint (s : State) (g : Granted) (forwardedProto : Option String) (now : UInt64) : Minted :=
  let expiry := now + sessionTtlSecs
  let token := signSession p s.admin.signingKey expiry g.username g.passwordHash
  ⟨g, now, s.admin.cookie forwardedProto token sessionTtlSecs.toNat⟩

def step (s : State) : Op → Option State
  | .app op => (AppState.step sha256Hex verifyPassword s.app op).map fun app =>
    { s with
      app := app
      granted := s.granted ++ (app.log.drop s.app.log.length).flatMap fun e => grants app.log.length e.save }
  | .login body admitted =>
    if s.app.setupRequired || !admitted then some s
    else
      let username := (Credentials.formField body "username").getD ""
      let password := (Credentials.formField body "password").getD ""
      some { s with logins := s.logins ++ [⟨username, password, s.app.store.hashOf username, s.app.log.length⟩] }
  | .verify n => (s.logins[n]?).map fun l =>
    let s := { s with logins := s.logins.eraseIdx n }
    let hash := l.stored.getD OpenProxy.Login.burnerHash
    if verifyPassword l.password hash && l.stored.isSome then
      { s with granted := s.granted ++ [⟨l.username, hash, l.since, some l.password⟩] }
    else s
  | .answer n forwardedProto now => (s.granted[n]?).map fun g =>
    { s with granted := s.granted.eraseIdx n, sessions := s.sessions ++ [s.mint p g forwardedProto now] }

/-- `require_session`, with the `Accept` and `Cookie` headers, and the user that `identify` finds in the `Authorization`
header. -/
def State.requireSession (s : State) (now : UInt64) (accept cookies authorized : Option String) : Gate :=
  if s.app.setupRequired then if wantsHtml accept then .redirect "/setup" else .setupRequired
  else
    let session := (cookies.bind cookieToken).bind fun token =>
      verifySession p s.admin.signingKey now token s.app.store
    match session.or authorized with
    | some username => .next username
    | none => if wantsHtml accept then .redirect "/login" else .unauthorized

end

/-- The hash that an operation generates is a new one. -/
def NewHash (verifyPassword : String → String → Bool) (s : State) : Op → Prop
  | .app op => Fresh verifyPassword s.app op
  | .login _ _ | .verify _ | .answer _ _ _ => True

instance decidableNewHash (verifyPassword : String → String → Bool) (s : State) :
    DecidablePred (NewHash verifyPassword s)
  | .app op => inferInstanceAs (Decidable (Fresh verifyPassword s.app op))
  | .login _ _ | .verify _ | .answer _ _ _ => isTrue trivial

/-! ### Cookies sent back -/

/-- The header that a browser sends for these cookies. -/
def sent (pairs : List (List Char)) : String := .ofList ([';', ' '].intercalate pairs)

theorem splitOn_sent {pair : List Char} {pairs : List (List Char)} (hpair : ';' ∉ pair) (hpairs : ∀ q ∈ pairs, ';' ∉ q) :
    splitOn ';' (sent (pair :: pairs)).toList = pair :: pairs.map (' ' :: ·) := by
  rw [sent, String.toList_ofList]
  induction pairs generalizing pair with
  | nil =>
    rw [List.intercalate_singleton]
    exact splitOn_of_notMem hpair
  | cons q pairs ih =>
    obtain ⟨hq, hpairs⟩ := List.forall_mem_cons.1 hpairs
    have hjoin : [';', ' '].intercalate (pair :: q :: pairs) = pair ++ ';' :: ' ' :: [';', ' '].intercalate (q :: pairs) := by
      rw [List.intercalate_cons_cons, List.append_assoc]
      rfl
    rw [hjoin, splitOn_append hpair, splitOn, if_neg (by decide), ih hq hpairs]
    rfl

theorem trim_space (cs : List Char) : trim (.ofList (' ' :: cs)) = trim (.ofList cs) := by
  rw [trim, trim, String.toList_ofList, String.toList_ofList, List.dropWhile_cons_of_pos (by decide)]

/-- The cookie of another name. -/
def Other (pair : List Char) : Prop :=
  ';' ∉ pair ∧ stripPrefix (trim (.ofList pair)) (.ofList (cookieName ++ ['='])) = none

/-- What may stand in a token. -/
def Plain (token : List Char) : Prop := ∀ c ∈ token, c ≠ ';' ∧ isWhitespace c = false

theorem plain_digitChar {d : Nat} (h : d < 16) : Nat.digitChar d ≠ ';' ∧ isWhitespace (Nat.digitChar d) = false := by
  interval_cases d <;> decide

theorem plain_hex (bytes : List UInt8) : Plain (hex bytes) := by
  intro c hc
  obtain ⟨b, -, hc⟩ := List.mem_flatMap.1 hc
  have hb := b.toNat_lt
  simp only [List.mem_cons, List.not_mem_nil, or_false] at hc
  rcases hc with rfl | rfl
  · exact plain_digitChar (by omega)
  · exact plain_digitChar (Nat.mod_lt _ (by omega))

theorem plain_signSession (p : Primitives) (signingKey : List UInt8) (expiry : UInt64) (username passwordHash : String) :
    Plain (signSession p signingKey expiry username passwordHash).toList := by
  have hdot : '.' ≠ ';' ∧ isWhitespace '.' = false := by decide
  intro c hc
  simp only [signSession, String.toList_ofList, List.mem_append, List.mem_cons] at hc
  rcases hc with hc | rfl | hc | rfl | hc | rfl | hc
  · obtain ⟨d, hd, rfl⟩ := exists_digitChar hc
    exact plain_digitChar hd
  · exact hdot
  · exact plain_hex _ c hc
  · exact hdot
  · exact plain_hex _ c (List.mem_of_mem_take hc)
  · exact hdot
  · exact plain_hex _ c hc

/-- The name and the value of a cookie, which are what a browser sends back. -/
def pair (setCookie : String) : List Char := (before setCookie ';').toList

theorem plain_cookieName : Plain (cookieName ++ ['=']) := by
  have hall : (cookieName ++ ['=']).all (fun c => c != ';' && !isWhitespace c) = true := by decide +kernel
  intro c hc
  simpa using List.all_eq_true.1 hall c hc

theorem plain_pair {token : String} (h : Plain token.toList) : Plain (cookieName ++ '=' :: token.toList) := by
  intro c hc
  have hsplit : cookieName ++ '=' :: token.toList = (cookieName ++ ['=']) ++ token.toList := by simp
  rw [hsplit, List.mem_append] at hc
  rcases hc with hc | hc
  · exact plain_cookieName c hc
  · exact h c hc

theorem pair_cookie {a : Admin} {forwardedProto : Option String} {token : String} {maxAge : Int}
    (h : Plain token.toList) : pair (a.cookie forwardedProto token maxAge) = cookieName ++ '=' :: token.toList := by
  have hsplit (rest : List Char) : cookieName ++ '=' :: (token.toList ++ ';' :: rest) =
      (cookieName ++ '=' :: token.toList) ++ ';' :: rest := by simp
  rw [pair, before, String.toList_ofList, Admin.cookie, String.toList_ofList, hsplit,
    List.takeWhile_append_of_pos fun c hc => by simpa using (plain_pair h c hc).1,
    List.takeWhile_cons_of_neg (by decide), List.append_nil]

/-- The token comes back among other cookies. -/
theorem cookieToken_sent {a : Admin} {forwardedProto : Option String} {token : String} {maxAge : Int}
    {front back : List (List Char)} (h : Plain token.toList) (hfront : ∀ q ∈ front, Other q)
    (hback : ∀ q ∈ back, ';' ∉ q) :
    cookieToken (sent (front ++ pair (a.cookie forwardedProto token maxAge) :: back)) = some token := by
  have hplain := plain_pair h
  have hhit : stripPrefix (trim (.ofList (cookieName ++ '=' :: token.toList))) (.ofList (cookieName ++ ['='])) =
      some token := by
    rw [trim_of_forall fun c hc => (hplain c (by simpa using hc)).2, stripPrefix]
    simp
  have hpair : ';' ∉ cookieName ++ '=' :: token.toList := fun hc => (hplain ';' hc).1 rfl
  rw [pair_cookie h, cookieToken]
  cases front with
  | nil => rw [List.nil_append, splitOn_sent hpair hback, List.findSome?_cons, hhit]
  | cons q front =>
    obtain ⟨hq, hfront⟩ := List.forall_mem_cons.1 hfront
    have hrest : ∀ q ∈ front ++ (cookieName ++ '=' :: token.toList) :: back, ';' ∉ q := by
      intro q' hq'
      rcases List.mem_append.1 hq' with hq' | hq'
      · exact (hfront q' hq').1
      · rcases List.mem_cons.1 hq' with rfl | hq'
        · exact hpair
        · exact hback q' hq'
    have hnone : (front.map (' ' :: ·)).findSome? (fun part =>
        stripPrefix (trim (.ofList part)) (.ofList (cookieName ++ ['=']))) = none := by
      rw [List.findSome?_eq_none_iff]
      intro part hpart
      obtain ⟨q', hq', rfl⟩ := List.mem_map.1 hpart
      rw [trim_space]
      exact (hfront q' hq').2
    rw [List.cons_append, splitOn_sent hq.1 hrest, List.findSome?_cons, hq.2, List.map_append, List.findSome?_append,
      hnone, Option.none_or, List.map_cons, List.findSome?_cons, trim_space, hhit]

/-! ### What a session rests on -/

section
variable {p : Primitives} {sha256Hex : String → String} {verifyPassword : String → String → Bool} {sc : StoredConfig}

theorem username_short {sc : StoredConfig} (hv : sc.validate = .ok ()) {username hash : String}
    (h : sc.hashOf username = some hash) : byteLen username ≤ 32 := by
  obtain ⟨u, hu, -⟩ := Option.map_eq_some_iff.1 h
  obtain ⟨-, -, -, husers, -⟩ := validate_iff.1 hv
  obtain ⟨names, hnames, -⟩ := bind_eq_ok.1 husers
  obtain ⟨_, _, hcheck⟩ := checkEach_mem hnames (List.mem_of_find?_eq_some hu)
  simp only [checkUser, bind_eq_ok, ensure_eq_ok] at hcheck
  obtain ⟨_, hlabel, -⟩ := hcheck
  rw [user_username hu, labelOk, Bool.and_eq_true, Bool.and_eq_true] at hlabel
  exact of_decide_eq_true hlabel.1.2

/-- The user had this hash when the request was checked, and has had it since if it is still theirs. -/
structure Rests (verifyPassword : String → String → Bool) (sc : StoredConfig) (app : AppState.State) (g : Granted) :
    Prop where
  relies : Relies sc app g.username g.passwordHash g.since
  short : byteLen g.username ≤ 32
  origin : (∃ password, g.password = some password ∧ verifyPassword password g.passwordHash = true) ∨
    ∃ e ∈ app.log, SetsOwn g.username g.passwordHash e.save

theorem relies_now {app : AppState.State} (h : AuthInv verifyPassword sc app) {username hash : String}
    (hnow : app.store.hashOf username = some hash) : Relies sc app username hash app.log.length := by
  refine ⟨le_rfl, h.hashes _ _ hnow, ?_, fun _ j e hj he => ?_⟩
  · rw [h.store]
    exact hnow
  · rw [List.getElem?_eq_none hj] at he
    cases he

theorem relies_step {app app' : AppState.State} {op : AppState.Op} {r : Answer} {username stored : String} {since : Nat}
    (hr : Relies sc app username stored since) (hfresh : Fresh verifyPassword app op)
    (hs : AppState.Step sha256Hex verifyPassword app op r app') : Relies sc app' username stored since := by
  cases hs with
  | refused _ => exact hr.frame rfl rfl fun _ => List.mem_append_left _
  | deferred _ _ | cleared _ _ _ | traffic _ _ => exact hr.frame rfl rfl fun _ hx => hx
  | commits horigin hcand hvalid _ _ =>
    refine hr.commit hcand hvalid ?_ rfl rfl fun _ => List.mem_append_left _
    rw [horigin.newHash]
    exact hfresh

theorem mem_log_step {app app' : AppState.State} {op : AppState.Op} {r : Answer} {e : AppState.Event}
    (he : e ∈ app.log) (hs : AppState.Step sha256Hex verifyPassword app op r app') : e ∈ app'.log := by
  cases hs with
  | commits _ _ _ _ _ => exact List.mem_append_left _ he
  | _ => exact he

/-- What a session rests on outlasts every operation of the handlers. -/
theorem Rests.step {app app' : AppState.State} {op : AppState.Op} {r : Answer} {g : Granted}
    (hr : Rests verifyPassword sc app g) (hfresh : Fresh verifyPassword app op)
    (hs : AppState.Step sha256Hex verifyPassword app op r app') : Rests verifyPassword sc app' g :=
  ⟨relies_step hr.relies hfresh hs, hr.short, hr.origin.imp_right fun ⟨e, he, hset⟩ => ⟨e, mem_log_step he hs, hset⟩⟩

/-- A request that sets a password leaves it the stored one. -/
theorem hashOf_grants {guard cand : StoredConfig} {save : Save} (h : save.candidate sha256Hex guard = .ok cand)
    {since : Nat} {g : Granted} (hg : g ∈ grants since save) :
    cand.hashOf g.username = some g.passwordHash ∧ g.since = since ∧ SetsOwn g.username g.passwordHash save := by
  cases save with
  | setup req hash secret =>
    obtain rfl := List.mem_singleton.1 hg
    obtain ⟨-, husers⟩ := setupSubmit_ok h
    exact ⟨by simp [StoredConfig.hashOf, StoredConfig.user, husers], rfl, rfl, rfl⟩
  | password username current verifiedHash newHash =>
    obtain rfl := List.mem_singleton.1 hg
    obtain ⟨user, huser, -, rfl⟩ := applyPasswordChange_ok (mapError_eq_ok.1 h)
    refine ⟨?_, rfl, rfl, rfl⟩
    simp only [StoredConfig.hashOf, StoredConfig.user]
    have hfind : guard.users.find? (·.username == username) = some user := huser
    rw [find?_editUser (f := ({ · with passwordHash := newHash })) fun _ => rfl, hfind]
    rfl
  | _ => cases hg

/-- The invariant of a run whose hashes are fresh. -/
structure Inv (p : Primitives) (verifyPassword : String → String → Bool) (sc : StoredConfig) (admin : Admin)
    (s : State) : Prop where
  auth : AuthInv verifyPassword sc s.app
  admin : s.admin = admin
  logins : ∀ l ∈ s.logins, ∀ hash, l.stored = some hash →
    Relies sc s.app l.username hash l.since ∧ byteLen l.username ≤ 32
  granted : ∀ g ∈ s.granted, Rests verifyPassword sc s.app g
  sessions : ∀ m ∈ s.sessions, Rests verifyPassword sc s.app m.granted ∧ ∃ forwardedProto,
    m = s.mint p m.granted forwardedProto m.now

theorem start_inv (hv : sc.validate = .ok ()) (admin : Admin) (now : Nat) :
    Inv p verifyPassword sc admin (start sc admin now) :=
  ⟨boot_authInv hv now, rfl, fun _ h => (by cases h), fun _ h => (by cases h), fun _ h => (by cases h)⟩

/-- The sessions that an operation grants are for the hash that it leaves behind. -/
theorem grants_step {app app' : AppState.State} {op : AppState.Op} {r : Answer}
    (hs : AppState.Step sha256Hex verifyPassword app op r app') {g : Granted}
    (hg : g ∈ (app'.log.drop app.log.length).flatMap fun e => grants app'.log.length e.save) :
    app'.store.hashOf g.username = some g.passwordHash ∧ g.since = app'.log.length ∧
      ∃ e ∈ app'.log, SetsOwn g.username g.passwordHash e.save := by
  obtain ⟨e, he, hg⟩ := List.mem_flatMap.1 hg
  cases hs with
  | refused _ | deferred _ _ | cleared _ _ _ | traffic _ _ => simp [AppState.State.withNewHash] at he
  | commits _ hcand _ _ _ =>
    obtain rfl := List.mem_singleton.1 (by simpa using he)
    obtain ⟨hhash, hsince, hset⟩ := hashOf_grants hcand hg
    exact ⟨hhash, hsince, _, List.mem_append_right _ (List.mem_singleton_self _), hset⟩

variable {admin : Admin} {s s' : State}

theorem Inv.app {app : AppState.State} {op : AppState.Op} (h : Inv p verifyPassword sc admin s)
    (hfresh : Fresh verifyPassword s.app op) (hs : AppState.step sha256Hex verifyPassword s.app op = some app) :
    Inv p verifyPassword sc admin { s with
      app := app
      granted := s.granted ++ (app.log.drop s.app.log.length).flatMap fun e => grants app.log.length e.save } := by
  obtain ⟨r, hs⟩ := step_cases hs
  have hauth := h.auth.step hfresh hs
  refine ⟨hauth, h.admin, fun l hl hash hstored => ?_, fun g hg => ?_, fun m hm => ?_⟩
  · obtain ⟨hrelies, hshort⟩ := h.logins l hl hash hstored
    exact ⟨relies_step hrelies hfresh hs, hshort⟩
  · rcases List.mem_append.1 hg with hg | hg
    · exact (h.granted g hg).step hfresh hs
    · obtain ⟨hhash, hsince, hset⟩ := grants_step hs hg
      exact ⟨hsince ▸ relies_now hauth hhash, username_short hauth.inv.valid hhash, .inr hset⟩
  · obtain ⟨hrests, hminted⟩ := h.sessions m hm
    exact ⟨hrests.step hfresh hs, hminted⟩

theorem Inv.step {op : Op} (h : Inv p verifyPassword sc admin s) (hfresh : NewHash verifyPassword s op)
    (hs : Access.step p sha256Hex verifyPassword s op = some s') : Inv p verifyPassword sc admin s' := by
  cases op with
  | app op =>
    obtain ⟨app, happ, rfl⟩ := Option.map_eq_some_iff.1 hs
    exact h.app hfresh happ
  | login body admitted =>
    simp only [Access.step] at hs
    split at hs
    · obtain rfl := Option.some.inj hs
      exact h
    · obtain rfl := Option.some.inj hs
      refine ⟨h.auth, h.admin, fun l hl hash hstored => ?_, h.granted, h.sessions⟩
      rcases List.mem_append.1 hl with hl | hl
      · exact h.logins l hl hash hstored
      · obtain rfl := List.mem_singleton.1 hl
        exact ⟨relies_now h.auth hstored, username_short h.auth.inv.valid hstored⟩
  | verify n =>
    obtain ⟨l, hl, hs⟩ := Option.map_eq_some_iff.1 hs
    have hlogins : ∀ l' ∈ s.logins.eraseIdx n, ∀ hash, l'.stored = some hash →
        Relies sc s.app l'.username hash l'.since ∧ byteLen l'.username ≤ 32 :=
      fun l' hl' => h.logins l' (List.mem_of_mem_eraseIdx hl')
    dsimp only at hs
    split at hs
    · rename_i hok
      subst hs
      rw [Bool.and_eq_true, Option.isSome_iff_exists] at hok
      obtain ⟨hverify, hash, hstored⟩ := hok
      rw [hstored, Option.getD_some] at hverify
      refine ⟨h.auth, h.admin, hlogins, fun g hg => ?_, h.sessions⟩
      rcases List.mem_append.1 hg with hg | hg
      · exact h.granted g hg
      · obtain rfl := List.mem_singleton.1 hg
        obtain ⟨hrelies, hshort⟩ := h.logins l (List.mem_of_getElem? hl) hash hstored
        simp only [hstored, Option.getD_some]
        exact ⟨hrelies, hshort, .inl ⟨_, rfl, hverify⟩⟩
    · subst hs
      exact ⟨h.auth, h.admin, hlogins, h.granted, h.sessions⟩
  | answer n forwardedProto now =>
    obtain ⟨g, hg, rfl⟩ := Option.map_eq_some_iff.1 hs
    refine ⟨h.auth, h.admin, h.logins, fun g' hg' => h.granted g' (List.mem_of_mem_eraseIdx hg'), fun m hm => ?_⟩
    rcases List.mem_append.1 hm with hm | hm
    · exact h.sessions m hm
    · obtain rfl := List.mem_singleton.1 hm
      exact ⟨h.granted g (List.mem_of_getElem? hg), forwardedProto, rfl⟩

/-! ### Tokens -/

theorem length_asBytes (s : String) : (asBytes s).length = byteLen s := by
  rw [← String.ofList_toList (s := s), Credentials.asBytes_ofList, byteLen, String.toList_ofList, List.length_flatMap]
  simp only [String.length_utf8EncodeChar]

theorem byteLen_pwFragment (passwordHash : String) : byteLen (.ofList (pwFragment p passwordHash)) ≤ 32 := by
  have hsum (cs : List Char) : (cs.map Char.utf8Size).sum ≤ 4 * cs.length := by
    induction cs with
    | nil => exact le_rfl
    | cons c cs ih =>
      have := c.utf8Size_le_four
      simp only [List.map_cons, List.sum_cons, List.length_cons]
      omega
  have hlength : (pwFragment p passwordHash).length ≤ 8 := List.length_take_le _ _
  have := hsum (pwFragment p passwordHash)
  rw [byteLen, String.toList_ofList]
  omega

/-- A token that was signed is accepted for the user it was signed for, until it expires, while the user's hash has
the fragment. -/
theorem verifySession_signSession {signingKey : List UInt8} {expiry now : UInt64} {username passwordHash : String}
    {store : StoredConfig} {username' : String} :
    verifySession p signingKey now (signSession p signingKey expiry username passwordHash) store = some username' ↔
      username' = username ∧ now ≤ expiry ∧
        ∃ hash, store.hashOf username = some hash ∧ pwFragment p passwordHash = pwFragment p hash := by
  rw [verifySession_iff, Binds, splitOn_signSession]
  constructor
  · rintro ⟨expHex, userHex, frag, tagHex, hparts, huserHex, ⟨user, huser, hfrag⟩, expiry', hexpiry, hnow, -⟩
    simp only [List.cons.injEq] at hparts
    obtain ⟨rfl, rfl, rfl, -⟩ := hparts
    rw [fromStrRadix_toDigits] at hexpiry
    obtain rfl := Option.some.inj hexpiry
    rw [unhex_hex] at huserHex
    have hname := fromUTF8_asBytes username
    rw [Option.some.inj huserHex, fromUTF8_asBytes] at hname
    obtain rfl := Option.some.inj hname
    exact ⟨rfl, hnow, user.passwordHash, by rw [StoredConfig.hashOf, huser]; rfl, hfrag⟩
  · rintro ⟨rfl, hnow, hash, hhash, hfrag⟩
    obtain ⟨user, huser, rfl⟩ := Option.map_eq_some_iff.1 hhash
    exact ⟨_, _, _, _, rfl, unhex_hex _, ⟨user, huser, hfrag⟩, expiry, fromStrRadix_toDigits expiry, hnow, rfl⟩

/-- The server has computed the keyed hash of this input: for a session, or for a credential in a header. -/
def State.Fed (p : Primitives) (s : State) (input : List UInt8) : Prop :=
  (∃ m ∈ s.sessions, input =
      Bytes.framed (macParts m.expiry m.granted.username (pwFragment p m.granted.passwordHash))) ∨
    ∃ cred : Str, input = macInput (memoParts cred)

/-- If the token's tag is the one of its session, then the server has computed that tag. -/
def State.Unforged (p : Primitives) (s : State) (token : String) : Prop :=
  ∀ expHex userHex frag tagHex expiry username, splitOn '.' token.toList = [expHex, userHex, frag, tagHex] →
    fromStrRadix expHex = some expiry → unhex userHex = some (asBytes username) →
      tagHex = hex (mac p s.admin.signingKey (macParts expiry username frag)) →
        s.Fed p (Bytes.framed (macParts expiry username frag))

/-- A token that was handed out is not forged. -/
theorem unforged_minted {m : Minted} (hm : m ∈ s.sessions) :
    s.Unforged p (signSession p s.admin.signingKey m.expiry m.granted.username m.granted.passwordHash) := by
  intro expHex userHex frag tagHex expiry username hparts hexpiry huserHex _
  rw [splitOn_signSession] at hparts
  simp only [List.cons.injEq] at hparts
  obtain ⟨rfl, rfl, rfl, -⟩ := hparts
  rw [fromStrRadix_toDigits] at hexpiry
  rw [unhex_hex] at huserHex
  refine .inl ⟨m, hm, ?_⟩
  rw [macParts, macParts, Option.some.inj hexpiry, Option.some.inj huserHex]

theorem length_macParts (expiry : UInt64) {username : String} (husername : byteLen username ≤ 32) (passwordHash : String) :
    ∀ part ∈ macParts expiry username (pwFragment p passwordHash), part.length < 2 ^ 64 := by
  have hfrag := byteLen_pwFragment (p := p) passwordHash
  intro part hpart
  simp only [macParts, List.mem_cons, List.not_mem_nil, or_false] at hpart
  rcases hpart with rfl | rfl | rfl
  · rw [Bytes.length_bigEndian]
    omega
  · rw [length_asBytes]
    omega
  · rw [length_asBytes]
    omega

/-- A token that is accepted and not forged is of a session that was handed out. -/
theorem Inv.minted (h : Inv p verifyPassword sc admin s) {now : UInt64} {token username : String}
    (hunforged : s.Unforged p token)
    (haccept : verifySession p s.admin.signingKey now token s.app.store = some username) :
    ∃ m ∈ s.sessions, m.granted.username = username ∧ now ≤ m.expiry ∧ ∃ hash, s.app.store.hashOf username = some hash ∧
      pwFragment p m.granted.passwordHash = pwFragment p hash := by
  obtain ⟨expHex, userHex, frag, tagHex, hparts, huserHex, ⟨user, huser, rfl⟩, expiry, hexpiry, hnow, htag⟩ :=
    (verifySession_iff ..).1 haccept
  have hhash : s.app.store.hashOf username = some user.passwordHash := by
    rw [StoredConfig.hashOf, huser]
    rfl
  have hshort := username_short h.auth.inv.valid hhash
  rcases hunforged _ _ _ _ _ _ hparts hexpiry huserHex htag with ⟨m, hm, hinput⟩ | ⟨cred, hinput⟩
  · obtain ⟨rfl, rfl, hfrag⟩ := macParts_inj (length_macParts expiry hshort _)
      (length_macParts m.expiry (h.sessions m hm).1.short _) hinput
    exact ⟨m, hm, rfl, hnow, _, hhash, hfrag.symm⟩
  · -- a credential is never tagged as a session
    let name : Str := ⟨username, by rw [length_asBytes]; omega⟩
    let fragment : Str := ⟨.ofList (pwFragment p user.passwordHash), by
      have := byteLen_pwFragment (p := p) user.passwordHash
      rw [length_asBytes]
      omega⟩
    have hsession := sessionParts_val expiry name fragment
    rw [String.toList_ofList] at hsession
    change Bytes.framed (macParts expiry name.val _) = _ at hinput
    rw [← hsession] at hinput
    have hparts := congrArg List.length (macInput_injective hinput)
    simp [memoParts, sessionParts] at hparts

theorem Inv.known (h : Inv p verifyPassword sc admin s)
    (hfrag : ∀ x ∈ s.app.hashes, ∀ y ∈ s.app.hashes, pwFragment p x = pwFragment p y → x = y) {m : Minted}
    (hm : m ∈ s.sessions) {username hash : String} (hhash : s.app.store.hashOf username = some hash)
    (he : pwFragment p m.granted.passwordHash = pwFragment p hash) : m.granted.passwordHash = hash :=
  hfrag _ (h.sessions m hm).1.relies.known _ (h.auth.hashes _ _ hhash) he

/-- The token of a session comes back among other cookies. -/
theorem Inv.cookieToken (h : Inv p verifyPassword sc admin s) {m : Minted} (hm : m ∈ s.sessions)
    {front back : List (List Char)} (hfront : ∀ q ∈ front, Other q) (hback : ∀ q ∈ back, ';' ∉ q) :
    cookieToken (sent (front ++ pair m.setCookie :: back)) =
      some (signSession p s.admin.signingKey m.expiry m.granted.username m.granted.passwordHash) := by
  obtain ⟨-, forwardedProto, hminted⟩ := h.sessions m hm
  have hcookie : m.setCookie = s.admin.cookie forwardedProto
      (signSession p s.admin.signingKey m.expiry m.granted.username m.granted.passwordHash) sessionTtlSecs.toNat :=
    congrArg Minted.setCookie hminted
  rw [hcookie]
  exact cookieToken_sent (plain_signSession p _ _ _ _) hfront hback

theorem exec_inv {now₀ : Nat} {ops : List Op} (hv : sc.validate = .ok ())
    (hfresh : Meets (step p sha256Hex verifyPassword) (NewHash verifyPassword) (start sc admin now₀) ops)
    (hrun : exec (step p sha256Hex verifyPassword) (start sc admin now₀) ops = some s) :
    Inv p verifyPassword sc admin s :=
  exec_invariant_of_meets (fun _ _ _ hi hC hs => hi.step hC hs) (start_inv hv admin now₀) hfresh hrun

theorem requireSession_next {now : UInt64} {accept cookies : Option String} {username : String} :
    s.requireSession p now accept cookies none = .next username ↔ s.app.setupRequired = false ∧
      ∃ token, cookies.bind cookieToken = some token ∧
        verifySession p s.admin.signingKey now token s.app.store = some username := by
  unfold State.requireSession
  cases hsetup : s.app.setupRequired with
  | true =>
    rw [if_pos rfl]
    split <;> simp
  | false =>
    rw [if_neg Bool.false_ne_true]
    dsimp only
    rw [Option.or_none]
    cases htoken : cookies.bind cookieToken with
    | none =>
      simp only [Option.bind_none]
      split <;> simp
    | some token =>
      rw [Option.bind_some]
      cases hverify : verifySession p s.admin.signingKey now token s.app.store with
      | none =>
        simp only
        split <;> simp [hverify]
      | some name => simp [hverify]

end

/-- In every interleaving whose new hashes are fresh and whose hashes have fragments of their own: a cookie lets in
the user it was handed out to for twelve hours, or until somebody changes the user's password or deletes the user. And
whoever is let in by a cookie that is not forged has one of these, for the password that the user has now: they logged
in with it, or set it themselves, and nobody has touched it since. -/
theorem session_access {p : Primitives} {sha256Hex : String → String} {verifyPassword : String → String → Bool}
    {sc : StoredConfig} {admin : Admin} {now₀ : Nat} {ops : List Op} {s : State} (hv : sc.validate = .ok ())
    (hrun : exec (step p sha256Hex verifyPassword) (start sc admin now₀) ops = some s)
    (hfresh : Meets (step p sha256Hex verifyPassword) (NewHash verifyPassword) (start sc admin now₀) ops)
    (hfrag : ∀ x ∈ s.app.hashes, ∀ y ∈ s.app.hashes, pwFragment p x = pwFragment p y → x = y) :
    (∀ m ∈ s.sessions, ∀ front back, (∀ q ∈ front, Other q) → (∀ q ∈ back, ';' ∉ q) → ∀ now accept username,
      s.requireSession p now accept (some (sent (front ++ pair m.setCookie :: back))) none = .next username ↔
        s.app.setupRequired = false ∧ username = m.granted.username ∧ now ≤ m.now + sessionTtlSecs ∧
          s.app.store.hashOf username = some m.granted.passwordHash) ∧
    ∀ cookies, (∀ token, cookieToken cookies = some token → s.Unforged p token) → ∀ now accept username,
      s.requireSession p now accept (some cookies) none = .next username → ∃ m ∈ s.sessions,
        username = m.granted.username ∧ now ≤ m.now + sessionTtlSecs ∧
        s.app.store.hashOf username = some m.granted.passwordHash ∧
        HeldSince sc s.app.log username m.granted.passwordHash m.granted.since ∧
        ((∃ password, m.granted.password = some password ∧ verifyPassword password m.granted.passwordHash = true) ∨
          ∃ e ∈ s.app.log, SetsOwn username m.granted.passwordHash e.save) := by
  have h := exec_inv hv hfresh hrun
  constructor
  · intro m hm front back hfront hback now accept username
    rw [requireSession_next, Option.bind_some, h.cookieToken hm hfront hback]
    simp only [Option.some.injEq, exists_eq_left', verifySession_signSession]
    refine and_congr_right fun hsetup => ⟨?_, ?_⟩
    · rintro ⟨rfl, hnow, hash, hhash, he⟩
      obtain rfl := h.known hfrag hm hhash he
      exact ⟨rfl, hnow, hhash⟩
    · rintro ⟨rfl, hnow, hhash⟩
      exact ⟨rfl, hnow, _, hhash, rfl⟩
  · intro cookies hunforged now accept username hnext
    obtain ⟨-, token, htoken, haccept⟩ := requireSession_next.1 hnext
    obtain ⟨m, hm, rfl, hnow, hash, hhash, he⟩ := h.minted (hunforged token htoken) haccept
    obtain rfl := h.known hfrag hm hhash he
    obtain ⟨hrelies, -, horigin⟩ := (h.sessions m hm).1
    exact ⟨m, hm, rfl, hnow, hhash, ⟨hrelies.read, hrelies.kept hhash⟩, horigin⟩

/-- A user logs in, an admin resets the user's password, and the user logs in with the new one. -/
def resetBetween : List Op :=
  [.login "username=bob&password=hash-bob" true, .verify 0, .answer 0 none 1000,
    .app (.request "ann" (.users { resetPassword := some "bob" } "from the admin") ⟨none, 1⟩),
    .app (.resume 0 "hash-reset" "" ⟨none, 2⟩),
    .login "username=bob&password=hash-reset" true, .verify 0, .answer 0 (some "HTTPS") 2000]

def toy : Primitives := ⟨fun key message => key ++ message, List.reverse⟩

abbrev toyStep : State → Op → Option State := step toy id fun password hash => password == hash

theorem session_access_resetBetween : ∃ s m m', exec toyStep (start household ⟨[7], true⟩ 0) resetBetween = some s ∧
    s.sessions = [m, m'] ∧
    s.requireSession toy 3000 none (some (sent [['a', '=', '1'], pair m.setCookie])) none ≠ .next "bob" ∧
    s.requireSession toy 3000 none (some (sent [['a', '=', '1'], pair m'.setCookie])) none = .next "bob" ∧
    ∃ since, HeldSince household s.app.log "bob" "hash-reset" since := by
  have hrun : ((exec toyStep (start household ⟨[7], true⟩ 0) resetBetween).any fun s =>
      s.sessions.map (fun m => (m.granted.username, m.granted.passwordHash, m.now)) ==
          [("bob", "hash-bob", 1000), ("bob", "hash-reset", 2000)] &&
        s.app.store.hashOf "bob" == some "hash-reset" && !s.app.setupRequired &&
        s.app.hashes == ["hash-root", "hash-ann", "hash-bob", "hash-reset"]) = true := by decide +kernel
  have hfresh : Meets toyStep (NewHash fun password hash => password == hash) (start household ⟨[7], true⟩ 0)
      resetBetween := by decide +kernel
  have hother : ∀ q ∈ [['a', '=', '1']], Other q := by
    unfold Other
    decide +kernel
  obtain ⟨s, hs, hok⟩ := (Option.any_eq_true ..).1 hrun
  simp only [Bool.and_eq_true, beq_iff_eq, Bool.not_eq_true'] at hok
  obtain ⟨⟨⟨hsessions, hhash⟩, hsetup⟩, hhashes⟩ := hok
  have hfrag : ∀ x ∈ s.app.hashes, ∀ y ∈ s.app.hashes, pwFragment toy x = pwFragment toy y → x = y := by
    rw [hhashes]
    decide +kernel
  obtain ⟨m, rest, hlist, hm, hrest⟩ := List.map_eq_cons_iff.1 hsessions
  obtain ⟨m', rest', rfl, hm', hrest'⟩ := List.map_eq_cons_iff.1 hrest
  obtain rfl := List.map_eq_nil_iff.1 hrest'
  simp only [Prod.mk.injEq] at hm hm'
  have hinv := exec_inv validate_household hfresh hs
  obtain ⟨hcookies, hwhoever⟩ := session_access validate_household hs hfresh hfrag
  have hnext : s.requireSession toy 3000 none (some (sent [['a', '=', '1'], pair m'.setCookie])) none = .next "bob" := by
    refine (hcookies m' (by simp [hlist]) [['a', '=', '1']] [] hother nofun 3000 none "bob").2
      ⟨hsetup, hm'.1.symm, ?_, by rw [hhash, hm'.2.1]⟩
    rw [hm'.2.2]
    decide
  have hunforged : ∀ token, cookieToken (sent [['a', '=', '1'], pair m'.setCookie]) = some token →
      s.Unforged toy token := by
    intro token htoken
    have hsame := @Inv.cookieToken _ _ _ _ _ hinv m' (by simp [hlist]) [['a', '=', '1']] [] hother nofun
    obtain rfl := Option.some.inj (hsame.symm.trans htoken)
    exact unforged_minted (by simp [hlist])
  refine ⟨s, m, m', hs, hlist, fun hnext => ?_, hnext, ?_⟩
  · obtain ⟨-, -, -, hkept⟩ := (hcookies m (by simp [hlist]) [['a', '=', '1']] [] hother nofun 3000 none "bob").1 hnext
    rw [hhash, hm.2.1] at hkept
    exact absurd hkept (by decide)
  · obtain ⟨g, -, -, -, hkept, hheld, -⟩ := hwhoever _ hunforged 3000 none "bob" hnext
    rw [hhash, Option.some.injEq] at hkept
    rw [← hkept] at hheld
    exact ⟨g.granted.since, hheld⟩

end OpenProxy.Access
