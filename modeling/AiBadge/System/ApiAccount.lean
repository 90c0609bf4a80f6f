import AiBadge.System.AccountStep
import AiBadge.System.Api
import AiBadge.System.WorkerStep

/-! # Accounts and tokens over a run of the API

Every account stems from an accepted registration and stays as it was made. A response hands
out a token to the client that registers an account or logs in to it.
-/

namespace AiBadge

open Lib Prog DbM

/-- The step is the accepted registration, with this password, that made the account. -/
def SignsUp (b : Backend) (s : Transition World ApiAction) (u : User) (password : String) : Prop :=
  ∃ salt ids body, s.act = .call (.register salt ids body) ∧
    s.pre.Accepts (.register (b.authEnv salt) ids body) ∧ body.password = password ∧
    b.hashpw salt password = .ok u.passwordHash ∧ u = ownUser ids body u.passwordHash

/-- The step is a login to the account with this password. -/
def LogsIn (b : Backend) (s : Transition World ApiAction) (u : User) (password : String) : Prop :=
  s.act = .call (.login ⟨u.email, password⟩) ∧ u ∈ s.pre.db.users ∧
    b.checkpw password u.passwordHash = .ok true

/-- The token that a call is answered with. -/
def World.token? (b : Backend) (w : World) : ApiAction → Option TokenResponse
  | .call c =>
    match (w.answer b c).1 with
    | .ok (.token r) => some r
    | _ => none
  | .system _ => none

/-- The response of the step hands out a token. -/
def Issues (b : Backend) (s : Transition World ApiAction) (r : TokenResponse) : Prop :=
  s.pre.token? b s.act = some r

/-- The token of an account that is handed out at a time. -/
def User.tokenAt (u : User) (b : Backend) (now : Timestamp) : TokenResponse :=
  tokenResponse b now u.id u.orgId u.role

namespace World

variable {b : Backend} {w w' : World} {now : Timestamp}
  {tr : List (Transition World ApiAction)}

theorem settled_of_apiRun (hr : ApiRun b now tr w) : w.Settled := by
  obtain ⟨_, hs, -⟩ := systemRun_of_apiRun hr
  exact settled_of_run hs

/-- A step of the API leaves the accounts alone, or it is a registration. -/
theorem accounts_of_apiStep {a : ApiAction} (hw : w.Settled) (h : w.apiStep b a = some w') :
    w'.db.accounts = w.db.accounts ∨ ∃ salt ids body hash, a = .call (.register salt ids body) ∧
      w.db.Registers (b.authEnv salt) ids body hash ∧
      w'.db = w.db.addAccount (ownOrganization (b.authEnv salt) ids body w.db)
        (ownUser ids body hash) (virtualMicrophone ids.device ids.user) := by
  have hs := apiStep_refines h
  cases ha : a.action? b w with
  | none =>
    rw [ha] at hs
    exact .inl (congrArg (fun w : World => w.db.accounts) hs)
  | some s =>
    rw [ha] at hs
    rcases accounts_of_step hw hs with hd | ⟨env, ids, body, hash, rfl, hr, hdb⟩
    · exact .inl hd
    right
    cases a with
    | system s =>
      obtain rfl := Option.some.inj ha
      cases h
    | call c =>
      obtain ⟨r, hc, hreq⟩ := Option.map_eq_some_iff.mp ha
      obtain rfl := Action.request.inj hreq
      cases c with
      | register salt ids' body' =>
        obtain ⟨rfl, rfl, rfl⟩ := Request.register.inj (Option.some.inj hc)
        exact ⟨salt, _, _, hash, rfl, hr, hdb⟩
      | login => cases hc
      | endpoint token e =>
        obtain ⟨u, -, he⟩ := Option.bind_eq_some_iff.mp hc
        cases e <;> cases he

theorem now_of_apiStep {a : ApiAction} (h : w.apiStep b a = some w') : w.now ≤ w'.now := by
  have hs := apiStep_refines h
  cases ha : a.action? b w with
  | none =>
    rw [ha] at hs
    exact Int.le_of_eq (congrArg World.now hs.symm)
  | some s =>
    rw [ha] at hs
    rw [now_of_step hs]
    exact Int.le_add_of_nonneg_right (Int.natCast_nonneg _)

/-- Accounts never change, and no two share an email address. -/
structure SignedUp (b : Backend) (tr : List (Transition World ApiAction)) (w : World) : Prop where
  emails : ∀ u ∈ w.db.users, ∀ v ∈ w.db.users, u.email = v.email → u = v
  kept : ∀ s ∈ tr, ∀ u ∈ s.post.db.users, u ∈ w.db.users
  times : ∀ s ∈ tr, s.pre.now ≤ w.now
  origin : ∀ u ∈ w.db.users, ∃ s ∈ tr, ∃ password, SignsUp b s u password ∧ u ∈ s.post.db.users

theorem users_of_apiStep {a : ApiAction} (hw : w.Settled) (h : w.apiStep b a = some w') :
    (∀ u, u ∈ w'.db.users ↔ u ∈ w.db.users) ∨ ∃ u password, SignsUp b ⟨w, a, w'⟩ u password ∧
      (∀ v ∈ w.db.users, v.email ≠ u.email) ∧ ∀ v, v ∈ w'.db.users ↔ v ∈ w.db.users ∨ v = u := by
  rcases accounts_of_apiStep hw h with hd | ⟨salt, ids, body, hash, rfl, hr, hdb⟩
  · obtain ⟨-, hu, -⟩ := Accounts.mk.inj hd
    exact .inl fun u => by rw [hu]
  · obtain ⟨-, hu, -⟩ := hr.mem
    rw [← hdb] at hu
    exact .inr ⟨ownUser ids body hash, body.password, ⟨salt, ids, body, rfl,
      accepts_register.mpr ⟨hash, hr⟩, rfl, hr.password, rfl⟩, hr.email, hu⟩

theorem SignedUp.step {a : ApiAction} (hw : w.Settled) (h : w.SignedUp b tr)
    (hs : w.apiStep b a = some w') : w'.SignedUp b (tr ++ [⟨w, a, w'⟩]) := by
  have hnow := now_of_apiStep hs
  have hmono : ∀ u ∈ w.db.users, u ∈ w'.db.users := by
    intro u hu
    rcases users_of_apiStep hw hs with hsame | ⟨_, _, -, -, hnew⟩
    · exact (hsame u).mpr hu
    · exact (hnew u).mpr (.inl hu)
  constructor
  · rcases users_of_apiStep hw hs with hsame | ⟨v, _, -, hfresh, hnew⟩
    · intro u hu x hx
      exact h.emails u ((hsame u).mp hu) x ((hsame x).mp hx)
    · intro u hu x hx he
      rcases (hnew u).mp hu with hu | rfl
      · rcases (hnew x).mp hx with hx | rfl
        · exact h.emails u hu x hx he
        · exact absurd he (hfresh u hu)
      · rcases (hnew x).mp hx with hx | rfl
        · exact absurd he.symm (hfresh x hx)
        · rfl
  · intro s hs u hu
    rcases List.mem_append.mp hs with hs | hs
    · exact hmono u (h.kept s hs u hu)
    · obtain rfl := List.mem_singleton.mp hs
      exact hu
  · intro s hs
    rcases List.mem_append.mp hs with hs | hs
    · exact Int.le_trans (h.times s hs) hnow
    · obtain rfl := List.mem_singleton.mp hs
      exact hnow
  · intro u hu
    have old (hu : u ∈ w.db.users) : ∃ s ∈ tr ++ [⟨w, a, w'⟩], ∃ password,
        SignsUp b s u password ∧ u ∈ s.post.db.users := by
      obtain ⟨s, hm, password, he, hp⟩ := h.origin u hu
      exact ⟨s, List.mem_append_left _ hm, password, he, hp⟩
    rcases users_of_apiStep hw hs with hsame | ⟨v, password, he, -, hnew⟩
    · exact old ((hsame u).mp hu)
    · rcases (hnew u).mp hu with hold | rfl
      · exact old hold
      · exact ⟨_, List.mem_append_right _ (List.mem_singleton.mpr rfl), password, he, hu⟩

theorem signedUp_of_run (hr : ApiRun b now tr w) : w.SignedUp b tr := by
  induction hr with
  | init =>
    constructor
    · exact fun u hu => (Table.not_mem_empty u hu).elim
    · exact fun s hs => (List.not_mem_nil hs).elim
    · exact fun s hs => (List.not_mem_nil hs).elim
    · exact fun u hu => (Table.not_mem_empty u hu).elim
  | snoc hr hs ih => exact ih.step (settled_of_apiRun hr) hs

/-- A registration is accepted exactly when it answers with a token of the new account. -/
theorem answer_register {salt : String} {ids : RegisterIds} {body : RegisterRequest}
    {reply : Reply} : (w.answer b (.register salt ids body)).1 = .ok reply ↔
      w.Accepts (.register (b.authEnv salt) ids body) ∧
        reply = .token (tokenResponse b w.now ids.user ids.org "owner") := by
  simp only [answer, transact_eq_ok, ApiCall.run, returns_map, registerEndpoint, returns_bind,
    returns_pure]
  constructor
  · rintro ⟨t, _, ⟨_, t', hr, rfl, -⟩, rfl⟩
    exact ⟨⟨t', hr⟩, rfl⟩
  · rintro ⟨⟨t, hr⟩, rfl⟩
    exact ⟨t, _, ⟨(), t, hr, rfl, rfl⟩, rfl⟩

theorem returns_login {body : LoginRequest} {r : TokenResponse} {t t₀ : Tx Db Files} :
    (login b now body).Returns t₀ r t ↔ (∃ u, t₀.view.users.find? (fun u => u.email = body.email) =
      some u ∧ b.checkpw body.password u.passwordHash = .ok true ∧ r = u.tokenAt b now) ∧
        t = t₀ := by
  have hmap (x : Except String Bool) (y : Bool) : x.mapError Exn.valueError = .ok y ↔ x = .ok y := by
    cases x <;> simp [Except.mapError]
  simp only [login, Backend.verifyPassword, returns_bind, returns_read, returns_require,
    returns_answer, returns_ensure, returns_pure, hmap]
  constructor
  · rintro ⟨_, _, ⟨rfl, rfl⟩, u, _, ⟨hu, rfl⟩, _, _, ⟨hc, rfl⟩, _, _, ⟨rfl, rfl⟩, rfl, rfl⟩
    exact ⟨⟨u, hu, hc, rfl⟩, rfl⟩
  · rintro ⟨⟨u, hu, hc, rfl⟩, rfl⟩
    exact ⟨_, _, ⟨rfl, rfl⟩, u, _, ⟨hu, rfl⟩, true, _, ⟨hc, rfl⟩, (), _, ⟨rfl, rfl⟩, rfl, rfl⟩

/-- A login is accepted exactly when the password checks against the hash of the account. -/
theorem answer_login {body : LoginRequest} {reply : Reply} (h : w.SignedUp b tr) :
    (w.answer b (.login body)).1 = .ok reply ↔ ∃ u ∈ w.db.users, u.email = body.email ∧
      b.checkpw body.password u.passwordHash = .ok true ∧ reply = .token (u.tokenAt b w.now) := by
  simp only [answer, transact_eq_ok, ApiCall.run, returns_map, returns_login]
  constructor
  · rintro ⟨_, _, ⟨⟨u, hu, hc, rfl⟩, -⟩, rfl⟩
    obtain ⟨hm, he⟩ := Table.find?_eq_some hu
    exact ⟨u, hm, by simpa using he, hc, rfl⟩
  · rintro ⟨u, hu, he, hc, rfl⟩
    have hfind : w.db.users.find? (fun u => u.email = body.email) = some u := by
      cases hf : w.db.users.find? (fun u => u.email = body.email) with
      | none => exact absurd he (by simpa using Table.find?_eq_none.mp hf u hu)
      | some v =>
        obtain ⟨hv, hm⟩ := Table.find?_eq_some hf
        rw [h.emails v hv u hu ((by simpa using hm : v.email = body.email).trans he.symm)]
    exact ⟨_, _, ⟨⟨u, hfind, hc, rfl⟩, rfl⟩, rfl⟩

theorem token?_eq_some {a : ApiAction} {r : TokenResponse} : w.token? b a = some r ↔
    ∃ c, a = .call c ∧ (w.answer b c).1 = .ok (.token r) := by
  unfold token?
  constructor
  · intro h
    split at h
    next c =>
      split at h
      next r' hreply =>
        obtain rfl := Option.some.inj h
        exact ⟨c, rfl, hreply⟩
      next => cases h
    next => cases h
  · rintro ⟨c, rfl, hreply⟩
    simp only [hreply]

/-- The account of an accepted registration is there after it. -/
theorem mem_of_signsUp {s : Transition World ApiAction} {u : User} {password : String}
    (hstep : s.pre.apiStep b s.act = some s.post) (he : SignsUp b s u password) :
    u ∈ s.post.db.users := by
  obtain ⟨salt, ids, body, hact, hacc, rfl, hhash, hu⟩ := he
  have hsys : s.pre.step (.request (.register (b.authEnv salt) ids body)) = some s.post := by
    rw [hact] at hstep
    exact apiStep_refines hstep
  obtain ⟨hash, hreg, hdb⟩ := db_of_registration hsys hacc
  have he : hash = u.passwordHash := Except.ok.inj (hreg.password.symm.trans hhash)
  rw [hdb, hu, ← he]
  exact (hreg.mem.2.1 _).mpr (.inr rfl)

/-- A token is the current one of the account that the client registers or logs in to. -/
theorem account_of_issues {s : Transition World ApiAction} {r : TokenResponse}
    (hr : ApiRun b now tr w) (hs : s ∈ tr) (hi : Issues b s r) : ∃ u ∈ s.post.db.users,
      r = u.tokenAt b s.pre.now ∧ ∃ password, SignsUp b s u password ∨ LogsIn b s u password := by
  obtain ⟨tr₁, _, rfl, hpre, hstep⟩ := hr.of_mem hs
  have hw := settled_of_apiRun hpre
  obtain ⟨c, hact, hreply⟩ := token?_eq_some.mp hi
  have hkept : ∀ u ∈ s.pre.db.users, u ∈ s.post.db.users := by
    intro u hu
    rcases users_of_apiStep hw hstep with hsame | ⟨_, _, -, -, hnew⟩
    · exact (hsame u).mpr hu
    · exact (hnew u).mpr (.inl hu)
  cases c with
  | register salt ids body =>
    obtain ⟨hacc, hr⟩ := answer_register.mp hreply
    obtain ⟨hash, hreg⟩ := accepts_register.mp hacc
    have he : SignsUp b s (ownUser ids body hash) body.password :=
      ⟨salt, ids, body, hact, hacc, rfl, hreg.password, rfl⟩
    exact ⟨_, mem_of_signsUp hstep he, Reply.token.inj hr, body.password, .inl he⟩
  | login body =>
    obtain ⟨u, hu, he, hc, hr⟩ := (answer_login (signedUp_of_run hpre)).mp hreply
    refine ⟨u, hkept u hu, Reply.token.inj hr, body.password, .inr ⟨?_, hu, hc⟩⟩
    rw [hact, he]
  | endpoint token e =>
    obtain ⟨t, ht⟩ := transact_eq_ok.mp hreply
    obtain ⟨_, _, -, ht⟩ := returns_bind.mp ht
    exact absurd rfl (not_token_of_endpoint ht r)

end World

end AiBadge
