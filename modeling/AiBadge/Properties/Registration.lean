import AiBadge.Properties.Slugs
import AiBadge.System.AccountStep

/-! # Registration

A registration with a new email needs a new organization name as well, a slug character
in it, and a slug short enough for its column, with the suffix if there has to be one.
-/

namespace AiBadge

open Lib DbM

/-- What validation promises of a request. The address is valid and has at most 254 characters. -/
structure RegisterRequest.Valid (body : RegisterRequest) : Prop where
  email : fitsVarchar 254 body.email = true
  password : 8 ≤ body.password.length ∧ body.password.length ≤ 128
  displayName : 1 ≤ body.displayName.length ∧ body.displayName.length ≤ 128
  orgName : 1 ≤ body.orgName.length ∧ body.orgName.length ≤ 256

/-- A hash fits its column; bcrypt's have 60 characters. -/
def AuthEnv.HashFits (env : AuthEnv) : Prop :=
  ∀ password hash, env.hashPassword password = .ok hash → fitsVarchar 255 hash = true

/-- The condition on the name, the other texts and the organizations there are. -/
structure World.Registrable (w : World) (env : AuthEnv) (body : RegisterRequest) : Prop where
  name : ∀ o ∈ w.db.organizations, o.name ≠ body.orgName
  slugChar : ∃ c ∈ (env.lower body.orgName).toList, isSlugChar c = true
  slugLength : (slugify env body.orgName).length ≤ 128
  suffixLength : (∃ o ∈ w.db.organizations, o.slug = slugify env body.orgName) →
    (slugify env body.orgName).length ≤ 121
  text : Char.ofNat 0 ∉ body.orgName.toList ∧ Char.ofNat 0 ∉ body.displayName.toList
  password : ∃ hash, env.hashPassword body.password = .ok hash

/-- The registration is accepted, and the slug of its organization is proper and its own. -/
structure World.Enrols (w w' : World) (env : AuthEnv) (ids : RegisterIds) (body : RegisterRequest) :
    Prop where
  accepts : w.Accepts (.register env ids body)
  slug : ∃ o ∈ w'.db.organizations, o.id = ids.org ∧ o.name = body.orgName ∧ o.slug ≠ "" ∧
    UrlSafe o.slug ∧ ∀ r ∈ w'.db.organizations, r.slug = o.slug → r = o

section Slug

variable {env : AuthEnv} {ids : RegisterIds} {body : RegisterRequest} {slug : String} {db : Db}

theorem UrlSafe.ne_empty (h : UrlSafe slug) : slug ≠ "" := by
  rintro rfl
  exact h.ne_nil rfl

theorem UrlSafe.text (h : UrlSafe slug) : Char.ofNat 0 ∉ slug.toList := by
  intro hc
  rcases h.mem hc with hs | hs
  · exact absurd hs (by decide)
  · exact absurd hs (by decide)

theorem isSlugChar_hexDigit : ∀ i < 16, isSlugChar (Uuid.hexDigit i) = true := by decide

theorem toList_take_hex (u : Uuid) : (take u.hex 6).toList = u.hexChars.take 6 := by
  rw [take, String.toList_ofList, Uuid.hex, String.toList_ofList]

theorem length_take_hex (u : Uuid) : (take u.hex 6).length = 6 := by
  rw [← String.length_toList, toList_take_hex, List.length_take, Uuid.hexChars, List.length_map,
    List.length_range]
  rfl

theorem suffixedSlug_eq : suffixedSlug env ids body =
    slugify env body.orgName ++ "-" ++ take ids.suffix.hex 6 := rfl

theorem toList_suffixedSlug (env : AuthEnv) (ids : RegisterIds) (body : RegisterRequest) :
    (suffixedSlug env ids body).toList =
      (slugify env body.orgName).toList ++ '-' :: ids.suffix.hexChars.take 6 := by
  simp [suffixedSlug_eq, toList_take_hex]

theorem length_suffixedSlug :
    (suffixedSlug env ids body).length = (slugify env body.orgName).length + 7 := by
  rw [suffixedSlug_eq, String.length_append, String.length_append, length_take_hex, Nat.add_assoc]
  rfl

/-- The suffix is one more group. -/
theorem urlSafe_suffixedSlug (ids : RegisterIds) (h : UrlSafe (slugify env body.orgName)) :
    UrlSafe (suffixedSlug env ids body) := by
  have hhex : Separated isSlugChar '-' (ids.suffix.hexChars.take 6) := by
    refine separated_of_kept (fun hn => ?_) fun c hc => ?_
    · have hl := length_take_hex ids.suffix
      rw [← String.length_toList, toList_take_hex, hn] at hl
      cases hl
    · obtain ⟨i, -, rfl⟩ := List.mem_map.mp (List.mem_of_mem_take hc)
      exact isSlugChar_hexDigit _ (Nat.mod_lt _ (by decide))
  rw [UrlSafe, toList_suffixedSlug]
  exact h.append hhex

/-- Without a slug character the suffix comes right after the hyphen. -/
theorem not_urlSafe_suffixedSlug (h : slugify env body.orgName = "") :
    ¬ UrlSafe (suffixedSlug env ids body) := by
  intro hu
  have hl := toList_suffixedSlug env ids body
  rw [h] at hl
  have hk := hu.head?_keep (c := '-') (by rw [hl]; rfl)
  exact absurd hk (by decide)

theorem ownOrganization_slug : (ownOrganization env ids body db).slug =
    if ∃ o ∈ db.organizations, o.slug = slugify env body.orgName then suffixedSlug env ids body
    else slugify env body.orgName := by
  simp [ownOrganization]

end Slug

section Conditions

variable {env : AuthEnv} {ids : RegisterIds} {body : RegisterRequest} {w : World}

theorem virtualMicrophone_key {d e u v : Uuid}
    (h : (virtualMicrophone d u).deviceKey = (virtualMicrophone e v).deviceKey) : u = v := by
  apply Uuid.str_injective
  have hk : "virtual-" ++ u.str = "virtual-" ++ v.str := h
  exact String.append_right_inj _ |>.mp hk

/-- The slug that is stored, given the condition on the name. -/
theorem slug_of_registrable (ids : RegisterIds) (he : env.Lawful)
    (h : w.Registrable env body) :
    UrlSafe (ownOrganization env ids body w.db).slug ∧
      fitsVarchar 128 (ownOrganization env ids body w.db).slug = true := by
  have hne : slugify env body.orgName ≠ "" := by
    intro hn
    obtain ⟨c, hc, hs⟩ := h.slugChar
    exact absurd hs (by simp [(slugify_eq_empty he).mp hn c hc])
  have hsafe := urlSafe_slugify hne
  rw [ownOrganization_slug]
  split
  next ht =>
    have hlen := h.suffixLength ht
    have hsuf := urlSafe_suffixedSlug ids hsafe
    refine ⟨hsuf, fitsVarchar_iff.mpr ⟨?_, hsuf.text⟩⟩
    rw [length_suffixedSlug]
    omega
  next => exact ⟨hsafe, fitsVarchar_iff.mpr ⟨h.slugLength, hsafe.text⟩⟩

/-- No organization has the slug that is stored. -/
theorem slug_fresh (hsuffix : ∀ o ∈ w.db.organizations, o.slug ≠ suffixedSlug env ids body) :
    ∀ o ∈ w.db.organizations, o.slug ≠ (ownOrganization env ids body w.db).slug := by
  intro o ho
  rw [ownOrganization_slug]
  split
  · exact hsuffix o ho
  next ht => exact fun he => ht ⟨o, ho, he⟩

theorem registers_of_registrable (hw : w.Registered) (he : env.Lawful) (hh : env.HashFits)
    (hv : body.Valid) (hemail : ∀ u ∈ w.db.users, u.email ≠ body.email)
    (hsuffix : ∀ o ∈ w.db.organizations, o.slug ≠ suffixedSlug env ids body)
    (hfresh : w.Fresh (.request (.register env ids body))) (h : w.Registrable env body) :
    ∃ hash, w.db.Registers env ids body hash := by
  obtain ⟨hash, hp⟩ := h.password
  have fresh {u v : Uuid} (hu : u ∈ w.issued) (hv : v ∈ [ids.org, ids.user, ids.device, ids.suffix]) :
      u ≠ v := fun he => hfresh.2 v hv (he ▸ hu)
  refine ⟨hash, hemail, hp, ⟨fun o ho => ⟨?_, h.name o ho, slug_fresh hsuffix o ho⟩, ?_, ?_⟩,
    ⟨fun u hu => ⟨?_, hemail u hu⟩, ?_, hh _ _ hp, ?_⟩, fun d hd => ⟨?_, ?_⟩⟩
  · exact fresh (hw.organizations o ho) (by simp [ownOrganization])
  · exact fitsVarchar_iff.mpr ⟨hv.orgName.2, h.text.1⟩
  · exact (slug_of_registrable ids he h).2
  · exact fresh (hw.users u hu) (by simp [ownUser])
  · obtain ⟨hl, ht⟩ := fitsVarchar_iff.mp hv.email
    exact fitsVarchar_iff.mpr ⟨Nat.le_succ_of_le hl, ht⟩
  · exact fitsVarchar_iff.mpr ⟨hv.displayName.2, h.text.2⟩
  · exact fresh (hw.devices d hd).1 (by simp [virtualMicrophone])
  · intro hk
    rw [(hw.devices d hd).2.2] at hk
    exact fresh (hw.devices d hd).2.1 (v := ids.user) (by simp) (virtualMicrophone_key hk)

/-- What an accepted registration with a proper slug says of the request. -/
theorem registrable_of_registers {hash : String} (he : env.Lawful)
    (h : w.db.Registers env ids body hash)
    (hs : UrlSafe (ownOrganization env ids body w.db).slug) : w.Registrable env body := by
  have hfit := fitsVarchar_iff.mp h.organization.slug
  rw [ownOrganization_slug] at hs hfit
  constructor
  · exact fun o ho => (h.organization.unique o ho).2.1
  · by_contra hn
    push Not at hn
    have hempty : slugify env body.orgName = "" :=
      (slugify_eq_empty he).mpr fun c hc => by simpa using hn c hc
    split at hs
    · exact not_urlSafe_suffixedSlug hempty hs
    · exact hs.ne_empty hempty
  · split at hfit
    · have hl := hfit.1
      rw [length_suffixedSlug] at hl
      omega
    · exact hfit.1
  · intro ht
    rw [if_pos ht, length_suffixedSlug] at hfit
    omega
  · exact ⟨(fitsVarchar_iff.mp h.organization.name).2, (fitsVarchar_iff.mp h.user.displayName).2⟩
  · exact ⟨hash, h.password⟩

end Conditions

section Step

variable {w w' : World} {env : AuthEnv} {ids : RegisterIds} {body : RegisterRequest}

theorem registrable_of_enrols (he : env.Lawful)
    (hs : w.step (.request (.register env ids body)) = some w') (h : w.Enrols w' env ids body) :
    w.Registrable env body := by
  obtain ⟨hacc, o, ho, hid, -, -, hsafe, -⟩ := h
  obtain ⟨hash, hregs, hdb⟩ := World.db_of_registration hs hacc
  rw [hdb] at ho
  rcases (hregs.mem.1 o).mp ho with hold | rfl
  · exact absurd hid (hregs.organization.unique o hold).1
  · exact registrable_of_registers he hregs hsafe

theorem enrols_of_registers {hash : String} (he : env.Lawful)
    (hsuffix : ∀ o ∈ w.db.organizations, o.slug ≠ suffixedSlug env ids body)
    (hs : w.step (.request (.register env ids body)) = some w') (h : w.Registrable env body)
    (hregs : w.db.Registers env ids body hash) : w.Enrols w' env ids body := by
  have hacc := accepts_register.mpr ⟨hash, hregs⟩
  obtain ⟨hash, hregs, hdb⟩ := World.db_of_registration hs hacc
  have hslug := (slug_of_registrable ids he h).1
  refine ⟨hacc, ownOrganization env ids body w.db, ?_, rfl, rfl, hslug.ne_empty, hslug, ?_⟩
  · rw [hdb]
    exact (hregs.mem.1 _).mpr (.inr rfl)
  · intro r hm he
    rw [hdb] at hm
    rcases (hregs.mem.1 r).mp hm with hold | rfl
    · exact absurd he (slug_fresh hsuffix r hold)
    · rfl

end Step

/-- A registration with a new email enrols an organization exactly under the condition. -/
theorem enrols_iff_registrable {now : Timestamp} {tr : List (Transition World Action)}
    {w w' : World} {env : AuthEnv} {ids : RegisterIds} {body : RegisterRequest}
    (hr : SystemRun now tr w) (he : env.Lawful) (hh : env.HashFits) (hv : body.Valid)
    (hemail : ∀ u ∈ w.db.users, u.email ≠ body.email)
    (hsuffix : ∀ o ∈ w.db.organizations, o.slug ≠ suffixedSlug env ids body)
    (hs : w.step (.request (.register env ids body)) = some w') :
    w.Enrols w' env ids body ↔ w.Registrable env body := by
  constructor
  · exact registrable_of_enrols he hs
  · intro h
    obtain ⟨hash, hregs⟩ := registers_of_registrable (World.registered_of_run hr).2 he hh hv hemail
      hsuffix (World.fresh_of_step hs) h
    exact enrols_of_registers he hsuffix hs h hregs

/-- The ids of a first registration. -/
def firstIds : RegisterIds := ⟨Replay.uuid 1, Replay.uuid 2, Replay.uuid 3, Replay.uuid 4⟩

def registration (orgName : String) : RegisterRequest := ⟨"a@b.org", "password", "Ada", orgName⟩

theorem registration_valid {orgName : String} (h₁ : 1 ≤ orgName.length)
    (h₂ : orgName.length ≤ 256) : (registration orgName).Valid where
  email := show fitsVarchar 254 "a@b.org" = true by decide
  password := show 8 ≤ "password".length ∧ "password".length ≤ 128 by decide
  displayName := show 1 ≤ "Ada".length ∧ "Ada".length ≤ 128 by decide
  orgName := ⟨h₁, h₂⟩

theorem lowerCaseEnv_hashFits : lowerCaseEnv.HashFits := by
  intro password hash h
  obtain rfl := Except.ok.inj h
  decide

theorem first_registration (orgName : String) : ∃ w', (World.init 0).step
    (.request (.register lowerCaseEnv firstIds (registration orgName))) = some w' := by
  have hnodup : [firstIds.org, firstIds.user, firstIds.device, firstIds.suffix].Nodup := by decide
  exact ⟨_, World.step_eq_some.mpr ⟨⟨hnodup, fun _ _ => List.not_mem_nil⟩, _, rfl, rfl⟩⟩

theorem enrols_iff_registrable_first : ∃ w', (World.init 0).step
    (.request (.register lowerCaseEnv firstIds (registration "ada & co."))) = some w' ∧
      (World.init 0).Enrols w' lowerCaseEnv firstIds (registration "ada & co.") := by
  obtain ⟨w', hs⟩ := first_registration "ada & co."
  have hiff := enrols_iff_registrable .init lowerCaseEnv_lawful lowerCaseEnv_hashFits
    (registration_valid (by decide) (by decide)) (fun _ h => (Table.not_mem_empty _ h).elim)
    (fun _ h => (Table.not_mem_empty _ h).elim) hs
  refine ⟨w', hs, hiff.mpr ⟨fun _ h => (Table.not_mem_empty _ h).elim, ⟨'a', by decide, by decide⟩,
    by decide +kernel, ?_, by decide, ⟨_, rfl⟩⟩⟩
  rintro ⟨o, ho, -⟩
  exact (Table.not_mem_empty o ho).elim

/-- A name without letters or digits of the ASCII range leaves the slug empty. -/
theorem not_every_registration_enrols : ¬ ∀ (now : Timestamp) (tr : List (Transition World Action))
    (w w' : World) (env : AuthEnv) (ids : RegisterIds) (body : RegisterRequest),
    SystemRun now tr w → env.Lawful → env.HashFits → body.Valid →
      (∀ u ∈ w.db.users, u.email ≠ body.email) →
      (∀ o ∈ w.db.organizations, o.slug ≠ suffixedSlug env ids body) →
      w.step (.request (.register env ids body)) = some w' → w.Enrols w' env ids body := by
  intro h
  obtain ⟨w', hs⟩ := first_registration "東京"
  have he := h 0 [] (World.init 0) w' lowerCaseEnv firstIds (registration "東京") .init
    lowerCaseEnv_lawful lowerCaseEnv_hashFits (registration_valid (by decide) (by decide))
    (fun _ h => (Table.not_mem_empty _ h).elim) (fun _ h => (Table.not_mem_empty _ h).elim) hs
  obtain ⟨c, hc, hslug⟩ := (registrable_of_enrols lowerCaseEnv_lawful hs he).slugChar
  have hnone : ("東京".toList.all fun c => !isSlugChar c) = true := by decide
  have hn := List.all_eq_true.mp hnone c hc
  rw [hslug] at hn
  cases hn

end AiBadge
