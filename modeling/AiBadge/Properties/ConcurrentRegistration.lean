import AiBadge.Concurrency.Registration

/-! # Concurrent registrations

Any number of registrations, interleaved statement by statement. Those that commit do what they
would do one after the other, so no email address gets two accounts, and none of them waits
forever.
-/

namespace AiBadge

open Lib Prog DbM AccountScript

/-- `new` is `old` with more accounts, whose unique values are among `locks`. -/
structure Enlarged (locks : List AccountLock) (old new : Db) : Prop where
  kept : ∀ o ∈ old.organizations, o ∈ new.organizations
  organizations : ∀ o ∈ new.organizations, o ∈ old.organizations ∨
    .organization o.id ∈ locks ∧ .organizationName o.name ∈ locks ∧ .organizationSlug o.slug ∈ locks
  users : ∀ u ∈ new.users, u ∈ old.users ∨ .user u.id ∈ locks ∧ .email u.email ∈ locks
  devices : ∀ d ∈ new.devices, d ∈ old.devices ∨ .device d.id ∈ locks ∧ .deviceKey d.deviceKey ∈ locks

section Enlarged

variable {L M : List AccountLock} {s t u : Db}

theorem Enlarged.refl : Enlarged L s s where
  kept _ h := h
  organizations _ h := .inl h
  users _ h := .inl h
  devices _ h := .inl h

theorem Enlarged.mono (h : Enlarged L s t) (hl : ∀ r ∈ L, r ∈ M) : Enlarged M s t where
  kept := h.kept
  organizations o ho := (h.organizations o ho).imp_right fun hn =>
    ⟨hl _ hn.1, hl _ hn.2.1, hl _ hn.2.2⟩
  users u hu := (h.users u hu).imp_right fun hn => ⟨hl _ hn.1, hl _ hn.2⟩
  devices d hd := (h.devices d hd).imp_right fun hn => ⟨hl _ hn.1, hl _ hn.2⟩

theorem Enlarged.trans (h : Enlarged L s t) (h' : Enlarged L t u) : Enlarged L s u where
  kept o ho := h'.kept o (h.kept o ho)
  organizations o ho := by
    rcases h'.organizations o ho with ho | hn
    · exact h.organizations o ho
    · exact .inr hn
  users v hv := by
    rcases h'.users v hv with hv | hn
    · exact h.users v hv
    · exact .inr hn
  devices d hd := by
    rcases h'.devices d hd with hd | hn
    · exact h.devices d hd
    · exact .inr hn

theorem growth_enlarged : Growth Enlarged where
  refl _ := .refl
  trans h h' := (h.mono fun _ => List.mem_append_left _).trans (h'.mono fun _ => List.mem_append_right _)

theorem Enlarged.addOrganization {o : Organization} (h : Enlarged L s t) :
    Enlarged (L ++ [.organization o.id, .organizationName o.name, .organizationSlug o.slug]) s
      (t.addOrganization o) := by
  have h' : Enlarged (L ++ [.organization o.id, .organizationName o.name, .organizationSlug o.slug])
      s t := h.mono fun _ => List.mem_append_left _
  refine { h' with kept := fun x hx => ?_, organizations := fun x hx => ?_ }
  · exact Table.mem_insert_of_mem (h.kept x hx)
  · rcases Table.mem_of_mem_insert hx with hx | rfl
    · exact h'.organizations x hx
    · exact .inr (by simp)

theorem Enlarged.addUser {v : User} (h : Enlarged L s t) :
    Enlarged (L ++ [.user v.id, .email v.email]) s (t.addUser v) := by
  have h' : Enlarged (L ++ [.user v.id, .email v.email]) s t := h.mono fun _ => List.mem_append_left _
  refine { h' with users := fun x hx => ?_ }
  rcases Table.mem_of_mem_insert hx with hx | rfl
  · exact h'.users x hx
  · exact .inr (by simp)

theorem Enlarged.addDevice {d : Device} (h : Enlarged L s t) :
    Enlarged (L ++ [.device d.id, .deviceKey d.deviceKey]) s (t.addDevice d) := by
  have h' : Enlarged (L ++ [.device d.id, .deviceKey d.deviceKey]) s t :=
    h.mono fun _ => List.mem_append_left _
  refine { h' with devices := fun x hx => ?_ }
  rcases Table.mem_of_mem_insert hx with hx | rfl
  · exact h'.devices x hx
  · exact .inr (by simp)

/-! ## A row that fits goes on fitting while its unique values are locked -/

theorem Enlarged.acceptsOrganization {o : Organization} (h : Enlarged M s t)
    (hl : ∀ r ∈ M, r ∉ [.organization o.id, .organizationName o.name, .organizationSlug o.slug])
    (ha : s.AcceptsOrganization o) : t.AcceptsOrganization o := by
  refine { ha with unique := fun x hx => ?_ }
  rcases h.organizations x hx with hx | ⟨hi, hn, hs⟩
  · exact ha.unique x hx
  · refine ⟨fun he => hl _ hi ?_, fun he => hl _ hn ?_, fun he => hl _ hs ?_⟩ <;> simp [he]

theorem Enlarged.acceptsUser {v : User} (h : Enlarged M s t)
    (hl : ∀ r ∈ M, r ∉ [.user v.id, .email v.email]) (ha : s.AcceptsUser v) : t.AcceptsUser v := by
  refine { ha with unique := fun x hx => ?_ }
  rcases h.users x hx with hx | ⟨hi, he⟩
  · exact ha.unique x hx
  · refine ⟨fun hv => hl _ hi ?_, fun hv => hl _ he ?_⟩ <;> simp [hv]

theorem Enlarged.acceptsDevice {d : Device} (h : Enlarged M s t)
    (hl : ∀ r ∈ M, r ∉ [.device d.id, .deviceKey d.deviceKey]) (ha : s.AcceptsDevice d) :
    t.AcceptsDevice d := by
  intro x hx
  rcases h.devices x hx with hx | ⟨hi, hk⟩
  · exact ha x hx
  · refine ⟨fun he => hl _ hi ?_, fun he => hl _ hk ?_⟩ <;> simp [he]

end Enlarged

section Script

variable {r : Registration} {existingOrg : Bool}

theorem tracked_inserts : Tracked Enlarged (r.inserts existingOrg) := by
  refine .flush (fun _ _ _ h => h.addOrganization) ?_
  cases (r.env.hashPassword r.body.password).mapError Exn.valueError with
  | error e => exact .raise
  | ok hash => exact .flush (fun _ _ _ h => h.addUser) (.flush (fun _ _ _ h => h.addDevice) .done)

theorem tracked_registration : Tracked Enlarged r.script :=
  .query fun _ => .ensure (.query fun _ => tracked_inserts)

theorem renewable_inserts : Renewable Enlarged [] [] (r.inserts existingOrg) := by
  refine .flush (fun M s t hE hl hc => ?_) ?_
  · rw [checkOrganization_eq_none] at hc ⊢
    exact hE.acceptsOrganization hl hc
  cases (r.env.hashPassword r.body.password).mapError Exn.valueError with
  | error e => exact .raise
  | ok hash =>
    refine .flush (fun M s t hE hl hc => ?_) (.flush (fun M s t hE hl hc => ?_) .done)
    · rw [checkUser_eq_none] at hc ⊢
      exact acceptsUser_addOrganization.mpr (hE.acceptsUser
        (fun x hx hm => hl x hx (List.mem_append_right _ hm)) (acceptsUser_addOrganization.mp hc))
    · rw [checkDevice_eq_none] at hc ⊢
      exact hE.acceptsDevice (fun x hx hm => hl x hx (List.mem_append_right _ hm)) hc

/-- Where the inserts succeed, the queries find nothing that stands in their way. -/
theorem renewable_registration : Renewable Enlarged [] [] r.script := by
  refine .query (fun M s t f hE _ hf => ?_) fun s => .ensure (.query ?_ fun _ => renewable_inserts)
  · obtain ⟨-, hf⟩ := finish_ensure.mp hf
    refine finish_ensure.mpr ⟨?_, hf⟩
    obtain ⟨hash, -, -, hu, -⟩ := Registration.finish_inserts.mp hf
    have hfree : ∀ u ∈ t.users, u.email ≠ r.body.email := fun u hm => (hu.unique u hm).2
    simpa using hfree
  · intro M s t f hE _ hf
    simp only [overlay_nil] at hf ⊢
    cases ht : t.organizations.any fun o => o.slug = slugify r.env r.body.orgName with
    | false =>
      -- the slug has been free before as well
      have hs : (s.organizations.any fun o => o.slug = slugify r.env r.body.orgName) = false := by
        rw [Table.any_eq_false] at ht ⊢
        exact fun o ho => ht o (hE.kept o ho)
      rwa [hs] at hf
    | true =>
      cases hs : s.organizations.any fun o => o.slug = slugify r.env r.body.orgName with
      | true => rwa [hs] at hf
      | false =>
        rw [hs] at hf
        obtain ⟨hash, -, ho, -⟩ := Registration.finish_inserts.mp hf
        obtain ⟨o, hm, he⟩ := Table.any_eq_true.mp ht
        exact absurd (of_decide_eq_true he) (ho.unique o hm).2.2

/-- The organization comes first, then the user, then the device. -/
def AccountLock.rank : AccountLock → Nat
  | organization _ => 0
  | organizationName _ => 0
  | organizationSlug _ => 0
  | user _ => 1
  | email _ => 1
  | device _ => 2
  | deviceKey _ => 2

theorem ascending_registration : Ascending AccountLock.rank [] r.script := by
  refine .query fun _ => .ensure (.query fun _ => .flush (by simp) ?_)
  cases (r.env.hashPassword r.body.password).mapError Exn.valueError with
  | error e => exact .raise
  | ok hash => exact .flush (by simp [AccountLock.rank]) (.flush (by simp [AccountLock.rank]) .done)

theorem within_registration : Within 6 r.script := by
  refine .query fun _ => .ensure (.query fun _ => .flush ?_)
  cases (r.env.hashPassword r.body.password).mapError Exn.valueError with
  | error e => exact .raise
  | ok hash => exact .flush (.flush .done)

end Script

section Serial

variable {K : Type} {regs : K → Registration} {db f : Db} {order : List K}

theorem serve?_eq_some {r : Registration} : r.serve? db = some f ↔
    ∃ hash, db.Registers r.env r.ids r.body hash ∧
      f = db.addAccount (ownOrganization r.env r.ids r.body db) (ownUser r.ids r.body hash)
        (virtualMicrophone r.ids.device r.ids.user) := by
  have hret : r.serve? db = some f ↔
      ∃ t, (register r.env r.ids r.body).Returns (Tx.start db ([] : Files)) () t ∧ t.view = f := by
    unfold Registration.serve? Prog.Returns
    rcases register r.env r.ids r.body (Tx.start db ([] : Files)) with ⟨_ | _, t⟩ <;> simp
  rw [hret]
  constructor
  · rintro ⟨t, ht, rfl⟩
    obtain ⟨hash, h, rfl⟩ := returns_register.mp ht
    exact ⟨hash, h, rfl⟩
  · rintro ⟨hash, h, rfl⟩
    exact ⟨_, returns_register.mpr ⟨hash, h, rfl⟩, rfl⟩

/-- None of the registrations that succeed in a row finds its email address in use. -/
theorem unregistered_of_serial (h : order.foldlM (fun db k => (regs k).serve? db) db = some f) :
    ∀ k ∈ order, ∀ u ∈ db.users, u.email ≠ (regs k).body.email := by
  induction order generalizing db with
  | nil => exact fun _ hk => absurd hk List.not_mem_nil
  | cons j order ih =>
    rw [List.foldlM_cons] at h
    obtain ⟨db', hj, hrest⟩ := Option.bind_eq_some_iff.mp h
    obtain ⟨hash, hreg, rfl⟩ := serve?_eq_some.mp hj
    intro k hk u hu
    rcases List.mem_cons.mp hk with rfl | hk
    · exact hreg.email u hu
    · exact ih hrest k hk u (Table.mem_insert_of_mem hu)

theorem emails_of_serial (h : order.foldlM (fun db k => (regs k).serve? db) db = some f) :
    order.Pairwise fun j k => (regs j).body.email ≠ (regs k).body.email := by
  induction order generalizing db with
  | nil => exact .nil
  | cons j order ih =>
    rw [List.foldlM_cons] at h
    obtain ⟨db', hj, hrest⟩ := Option.bind_eq_some_iff.mp h
    refine .cons (fun k hk => ?_) (ih hrest)
    obtain ⟨hash, hreg, rfl⟩ := serve?_eq_some.mp hj
    have hown := (hreg.mem.2.1 _).mpr (.inr rfl)
    exact unregistered_of_serial hrest k hk _ hown

end Serial

section Run

variable {K : Type} [Fintype K] [DecidableEq K] {regs : K → Registration} {db : Db}
  {tr : List (Transition (Shared K Db AccountLock Exn) K)} {sh : Shared K Db AccountLock Exn}

/-- However any number of registrations interleave, the ones that have committed have done what
they do one after the other in the order of their commits, and the others have done nothing. No
two of them have the same email address, and none has one that was registered before. Each takes
at most six steps, and when none can take one, all have ended. -/
theorem registrations_serializable
    (hr : Run Shared.step (Shared.start db fun k => (regs k).script) tr sh) :
    (commits tr).Nodup ∧ (∀ k, k ∈ commits tr ↔ sh.parties k = .committed) ∧
      (commits tr).foldlM (fun db k => (regs k).serve? db) db = some sh.store ∧
      (∀ j ∈ commits tr, ∀ k ∈ commits tr, (regs j).body.email = (regs k).body.email → j = k) ∧
      (∀ k ∈ commits tr, ∀ u ∈ db.users, u.email ≠ (regs k).body.email) ∧
      (∀ k, turns k tr ≤ 6) ∧ ((∀ k, sh.step k = none) → ∀ k, (sh.parties k).Finished) := by
  have h := inOrder_of_run hr growth_enlarged (fun _ => renewable_registration)
    fun _ => tracked_registration
  have hserial : (commits tr).foldlM (fun db k => (regs k).serve? db) db = some sh.store := by
    have hs := h.store
    simp only [Registration.finish_script] at hs
    exact hs
  refine ⟨h.nodup, h.committed, hserial, ?_, unregistered_of_serial hserial,
    turns_le hr fun _ => within_registration, finished_of_stuck hr fun _ => ascending_registration⟩
  intro j hj k hk he
  by_contra hne
  have hsymm : Std.Symm fun j k => (regs j).body.email ≠ (regs k).body.email := ⟨fun _ _ h => h.symm⟩
  exact (emails_of_serial hserial).forall hj hk hne he

end Run

/-- The same email address, registered twice at once for two organizations. -/
def registerTwice (b : Bool) : Registration :=
  open Replay in if b then ⟨env, ⟨uuid 1, uuid 2, uuid 3, uuid 4⟩, "a@b", "pw", "Ada", "Acme"⟩
  else ⟨env, ⟨uuid 5, uuid 6, uuid 7, uuid 8⟩, "a@b", "pw", "Bob", "Bell"⟩

/-- Both find the address free, and the second one is refused by the index in the end. -/
theorem registrations_serializable_twice : ∃ tr sh,
    Run Shared.step (Shared.start .empty fun b => (registerTwice b).script) tr sh ∧
      (∀ b, (sh.parties b).Finished) ∧ sh.parties true = .committed ∧
      sh.parties false ≠ .committed ∧ (registerTwice true).serve? .empty = some sh.store := by
  obtain ⟨tr, sh, hr, hp⟩ := exists_run
    (fun (_ : List (Transition (Shared Bool Db AccountLock Exn) Bool))
        (sh : Shared Bool Db AccountLock Exn) =>
      (sh.step true).isNone && (sh.step false).isNone && (sh.parties true).isCommitted)
    (show (execute Shared.step (Shared.start .empty fun b => (registerTwice b).script)
      [true, true, false, false, true, true, true, true, false, false, false]).any _ = true by
        decide +kernel)
  simp only [Bool.and_eq_true, Option.isNone_iff_eq_none, Party.isCommitted_iff] at hp
  obtain ⟨⟨ht, hf⟩, hc⟩ := hp
  obtain ⟨hn, hm, hserial, hemail, -, -, hfin⟩ := registrations_serializable hr
  generalize commits tr = order at hn hm hserial hemail
  have htrue : true ∈ order := (hm true).mpr hc
  have hfalse : false ∉ order := by
    intro hm'
    have he := hemail true htrue false hm' rfl
    cases he
  refine ⟨tr, sh, hr, hfin fun b => ?_, hc, fun h => hfalse ((hm false).mpr h), ?_⟩
  · cases b
    · exact hf
    · exact ht
  · -- one registration has committed, and it is the first one
    have hall : ∀ b ∈ order, b = true := by
      intro b hb
      cases b with
      | true => rfl
      | false => exact absurd hb hfalse
    have hrep : order = List.replicate order.length true := List.eq_replicate_of_mem hall
    have hpos : 0 < order.length := List.length_pos_of_mem htrue
    rw [hrep, List.nodup_replicate] at hn
    obtain rfl : order = [true] := by
      rw [hrep, show order.length = 1 by omega]
      rfl
    simpa using hserial

end AiBadge
