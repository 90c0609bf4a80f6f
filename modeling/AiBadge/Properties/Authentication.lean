import AiBadge.System.ApiAccount

/-! # Authentication

Who acts as a user has proved to know the password of its registration within the lifetime of
a token. The token of a registration or a login serves for that time in every later state, and
a login succeeds with the password of the account and no other.
-/

namespace AiBadge

open Lib Prog DbM

/-- The token that an action presents. -/
def ApiAction.presented? : ApiAction → Option String
  | call (.endpoint token _) => some token
  | _ => none

/-- Nobody else can sign: a token that the library accepts was handed out before. -/
def Unforged (b : Backend) (tr : List (Transition World ApiAction)) : Prop :=
  Throughout (fun past t => ∀ token ∈ t.act.presented?, (b.decode t.pre.now token).isSome →
    ∃ s ∈ past, ∃ r ∈ s.pre.token? b s.act, r.accessToken = token) tr

instance (b : Backend) (tr : List (Transition World ApiAction)) : Decidable (Unforged b tr) :=
  inferInstanceAs (Decidable (Throughout _ tr))

/-- In the step a client acts as the user, by the token it presents. -/
def ActsAs (b : Backend) (t : Transition World ApiAction) (u : User) (token : String) : Prop :=
  t.act.presented? = some token ∧ t.pre.caller? b token = some u

/-- The step is the registration of the account, or a login with a password that bcrypt cannot
tell from the one of the registration. -/
def ProvesAccount {κ : Type} (b : Backend) (covered : String → κ)
    (past : List (Transition World ApiAction)) (s : Transition World ApiAction) (u : User) : Prop :=
  ∃ password, (SignsUp b s u password ∨ LogsIn b s u password) ∧
    ∃ s₀ ∈ past, ∃ registered, SignsUp b s₀ u registered ∧ covered password = covered registered

section Tokens

variable {κ : Type} {b : Backend} {covered : String → κ} {w : World} {now : Timestamp}
  {tr : List (Transition World ApiAction)} {u v : User} {token : String}

theorem whole_add_minutes (t : Timestamp) (m : Int) :
    Timestamp.whole (t + seconds (60 * m)) = t.whole + 60 * m :=
  Int.add_mul_ediv_right t (60 * m) (by decide)

@[simp] theorem uuid?_str (u : Uuid) : b.uuid? u.str = some u := by
  rw [Backend.uuid?, Uuid.parse_str]
  rfl

/-- The library reads the token of an account for as long as the settings say. -/
theorem decode_tokenAt (hb : b.Sound covered) (t t' : Timestamp) :
    b.decode t' (u.tokenAt b t).accessToken =
      if t'.whole ≤ t.whole + 60 * b.accessTokenExpireMinutes then some ⟨some u.id.str⟩ else none := by
  rw [← whole_add_minutes]
  exact hb.decode_encode _ _

/-- A token acts as the account that it was handed out for, until it expires. -/
theorem caller_of_tokenAt (hb : b.Sound covered) {t : Timestamp} (hv : v ∈ w.db.users) :
    w.caller? b (v.tokenAt b t).accessToken =
      if w.now.whole ≤ t.whole + 60 * b.accessTokenExpireMinutes then some v else none := by
  apply Option.ext
  intro u
  rw [World.caller?_eq_some, decode_tokenAt hb]
  split
  · constructor
    · rintro ⟨_, _, ⟨⟩, ⟨⟩, hid, hu⟩
      rw [uuid?_str] at hid
      rw [Table.eq_of_key_eq hv hu (Option.some.inj hid)]
    · rintro ⟨⟩
      exact ⟨_, _, rfl, rfl, uuid?_str _, hv⟩
  · constructor
    · rintro ⟨_, _, ⟨⟩, -⟩
    · rintro ⟨⟩

/-- The hash of an account is checked against the password of its registration. -/
theorem SignsUp.checkpw_iff (hb : b.Sound covered) {s : Transition World ApiAction}
    {registered password : String} (h : SignsUp b s u registered) :
    b.checkpw password u.passwordHash = .ok true ↔ covered password = covered registered := by
  obtain ⟨salt, _, _, -, -, -, hhash, -⟩ := h
  exact hb.checkpw_hashpw salt registered _ hhash password

/-- The password of a login is the one of the registration, for all that bcrypt reads. -/
theorem provesAccount_of_logsIn (hb : b.Sound covered) (h : w.SignedUp b tr) (hu : u ∈ w.db.users)
    {s : Transition World ApiAction} {password : String} (hl : LogsIn b s u password) :
    ProvesAccount b covered tr s u := by
  obtain ⟨s₀, hs₀, registered, he, -⟩ := h.origin u hu
  exact ⟨password, .inr hl, s₀, hs₀, registered, he, (he.checkpw_iff hb).mp hl.2.2⟩

/-- Whoever acts as a user presents a token from a step that proved to know the password of the
account, at most the lifetime of a token ago. -/
theorem actsAs_provesAccount (hb : b.Sound covered) (hr : ApiRun b now tr w)
    (hu : Unforged b tr) : Throughout (fun past t => ∀ u token, ActsAs b t u token →
      ∃ s ∈ past, (∃ r, Issues b s r ∧ r.accessToken = token) ∧ ProvesAccount b covered past s u ∧
        t.pre.now.whole ≤ s.pre.now.whole + 60 * b.accessTokenExpireMinutes) tr := by
  induction hr with
  | init => exact throughout_nil
  | @snoc tr w w' a hr hstep ih =>
    obtain ⟨hpast, hlast⟩ := throughout_snoc.mp hu
    rw [throughout_snoc]
    refine ⟨ih hpast, ?_⟩
    rintro u token ⟨htoken, hcaller⟩
    obtain ⟨payload, _, hdecode, -, -, hmem⟩ := World.caller?_eq_some.mp hcaller
    obtain ⟨s, hs, r, hi, rfl⟩ := hlast token htoken (by rw [hdecode]; rfl)
    obtain ⟨v, hv, rfl, password, hproof⟩ := World.account_of_issues hr hs hi
    have hsigned := World.signedUp_of_run hr
    have hv' := hsigned.kept s hs v hv
    rw [caller_of_tokenAt hb hv'] at hcaller
    obtain ⟨hlife, he⟩ := Option.ite_none_right_eq_some.mp hcaller
    obtain rfl := Option.some.inj he
    refine ⟨s, hs, ⟨_, hi, rfl⟩, ?_, hlife⟩
    rcases hproof with he | hl
    · exact ⟨password, .inl he, s, hs, password, he, rfl⟩
    · exact provesAccount_of_logsIn hb hsigned hv' hl

theorem actsAs_provesAccount_visits : ∃ tr w, ApiRun Replay.backend 0 tr w ∧
    Unforged Replay.backend tr ∧ (∃ t ∈ tr, ∃ u token, ActsAs Replay.backend t u token) ∧
    Throughout (fun past t => ∀ u token, ActsAs Replay.backend t u token →
      ∃ s ∈ past, (∃ r, Issues Replay.backend s r ∧ r.accessToken = token) ∧
        ProvesAccount Replay.backend id past s u ∧
        t.pre.now.whole ≤ s.pre.now.whole + 60 * Replay.backend.accessTokenExpireMinutes) tr := by
  obtain ⟨tr, w, hr, hp⟩ := exists_run
    (fun tr _ => decide (Unforged Replay.backend tr) && tr.any fun t =>
      (t.act.presented?.bind (t.pre.caller? Replay.backend)).isSome)
    (by decide +kernel : (execute (World.apiStep Replay.backend) (World.init 0)
      Replay.visits).any _ = true)
  obtain ⟨hu, ha⟩ := Bool.and_eq_true_iff.mp hp
  replace hu := of_decide_eq_true hu
  refine ⟨tr, w, hr, hu, ?_, actsAs_provesAccount Replay.backend_sound hr hu⟩
  obtain ⟨t, ht, hs⟩ := List.any_eq_true.mp ha
  obtain ⟨u, hc⟩ := Option.isSome_iff_exists.mp hs
  obtain ⟨token, htoken, hcaller⟩ := Option.bind_eq_some_iff.mp hc
  exact ⟨t, ht, u, token, htoken, hcaller⟩

theorem answer_of_not_caller {e : Endpoint} (hd : b.decode w.now token = none) :
    w.answer b (.endpoint token e) = (.error (.http 401 "Invalid or expired token"), w) := by
  have hraise : (b.getCurrentUser w.now token).Raises (Tx.start w.db w.files)
      (.http 401 "Invalid or expired token") (Tx.start w.db w.files) := by
    rw [Backend.getCurrentUser, hd]
    rfl
  rw [World.answer, World.transact, ApiCall.run, bind_of_raises hraise]
  rfl

/-- The token of a registration or a login acts as its account, in every later state until it
expires; from then on it is refused, and nothing changes. -/
theorem token_lifetime (hb : b.Sound covered) (hr : ApiRun b now tr w)
    {s : Transition World ApiAction} (hs : s ∈ tr) {r : TokenResponse} (hi : Issues b s r) :
    ∃ u ∈ w.db.users, r.userId = u.id.str ∧
      if w.now.whole ≤ s.pre.now.whole + 60 * b.accessTokenExpireMinutes then
        w.caller? b r.accessToken = some u
      else ∀ e, w.answer b (.endpoint r.accessToken e) =
        (.error (.http 401 "Invalid or expired token"), w) := by
  obtain ⟨u, hu, rfl, -⟩ := World.account_of_issues hr hs hi
  have hu' := (World.signedUp_of_run hr).kept s hs u hu
  refine ⟨u, hu', rfl, ?_⟩
  split
  next hlife => rw [caller_of_tokenAt hb hu', if_pos hlife]
  next hlife =>
    intro e
    apply answer_of_not_caller
    rw [decode_tokenAt hb, if_neg hlife]

theorem token_lifetime_visits : ∃ tr w, ApiRun Replay.backend 0 tr w ∧ ∃ s ∈ tr, ∃ r,
    Issues Replay.backend s r ∧ ∃ u ∈ w.db.users, r.userId = u.id.str ∧
      if w.now.whole ≤ s.pre.now.whole + 60 * Replay.backend.accessTokenExpireMinutes then
        w.caller? Replay.backend r.accessToken = some u
      else ∀ e, w.answer Replay.backend (.endpoint r.accessToken e) =
        (.error (.http 401 "Invalid or expired token"), w) := by
  obtain ⟨tr, w, hr, hp⟩ := exists_run
    (fun tr _ => tr.any fun s => (s.pre.token? Replay.backend s.act).isSome)
    (by decide +kernel : (execute (World.apiStep Replay.backend) (World.init 0)
      Replay.visits).any _ = true)
  obtain ⟨s, hs, hi⟩ := List.any_eq_true.mp hp
  obtain ⟨r, hi⟩ := Option.isSome_iff_exists.mp hi
  exact ⟨tr, w, hr, s, hs, r, hi, token_lifetime Replay.backend_sound hr hs hi⟩

/-- A login succeeds exactly with the email address of an accepted registration and a password that
bcrypt cannot tell from its password; the token is one of that account. -/
theorem login_iff (hb : b.Sound covered) (hr : ApiRun b now tr w) (body : LoginRequest)
    (r : TokenResponse) : (w.answer b (.login body)).1 = .ok (.token r) ↔
      ∃ u password, (∃ s ∈ tr, SignsUp b s u password) ∧ u.email = body.email ∧
        covered body.password = covered password ∧ r = u.tokenAt b w.now := by
  have hsigned := World.signedUp_of_run hr
  rw [World.answer_login hsigned]
  constructor
  · rintro ⟨u, hu, he, hc, hr⟩
    obtain ⟨s, hs, password, hen, -⟩ := hsigned.origin u hu
    exact ⟨u, password, ⟨s, hs, hen⟩, he, (hen.checkpw_iff hb).mp hc, Reply.token.inj hr⟩
  · rintro ⟨u, password, ⟨s, hs, hen⟩, he, hc, rfl⟩
    obtain ⟨_, _, -, -, hstep⟩ := hr.of_mem hs
    have hu : u ∈ w.db.users := hsigned.kept s hs u (World.mem_of_signsUp hstep hen)
    exact ⟨u, hu, he, (hen.checkpw_iff hb).mpr hc, rfl⟩

theorem login_iff_visits : ∃ tr w, ApiRun Replay.backend 0 tr w ∧ ∃ r,
    (w.answer Replay.backend (.login ⟨"a@b", "pw"⟩)).1 = .ok (.token r) ∧
      ∃ u password, (∃ s ∈ tr, SignsUp Replay.backend s u password) ∧ u.email = "a@b" ∧
        id "pw" = id password ∧ r = u.tokenAt Replay.backend w.now := by
  obtain ⟨tr, w, hr, hp⟩ := exists_run
    (fun _ w => (w.token? Replay.backend (.call (.login ⟨"a@b", "pw"⟩))).isSome)
    (by decide +kernel : (execute (World.apiStep Replay.backend) (World.init 0)
      Replay.visits).any _ = true)
  obtain ⟨r, hi⟩ := Option.isSome_iff_exists.mp hp
  obtain ⟨_, ⟨⟩, hreply⟩ := World.token?_eq_some.mp hi
  exact ⟨tr, w, hr, r, hreply, (login_iff Replay.backend_sound hr _ r).mp hreply⟩

end Tokens

end AiBadge
