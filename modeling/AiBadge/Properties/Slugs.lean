import AiBadge.Auth.Router
import AiBadge.Lib.Separated

/-! # Organization slugs

A slug is a normal form: groups of lower-case letters and digits with single hyphens
between them, which hold the slug characters of the lower-cased name in order.
-/

namespace AiBadge

open Lib

/-- What Python documents of `lower` and `strip`, as far as slugs depend on it. -/
structure AuthEnv.Lawful (env : AuthEnv) : Prop where
  lower : ∀ s : String, (∀ c ∈ s.toList, isSlugChar c = true ∨ c = '-') → env.lower s = s
  isSpace : ∀ c, isSlugChar c = true → env.isSpace c = false

/-- Non-empty groups of slug characters, a single hyphen between two groups. -/
def UrlSafe (slug : String) : Prop := Separated isSlugChar '-' slug.toList

/-- The slug is empty or made of groups, which together are the slug characters of the text. -/
structure SlugOf (text slug : String) : Prop where
  groups : ∃ groups : List (List Char), (∀ g ∈ groups, g ≠ [] ∧ ∀ c ∈ g, isSlugChar c = true) ∧
    slug.toList = ['-'].intercalate groups ∧ groups.flatten = text.toList.filter isSlugChar
  empty : slug = "" ↔ ∀ c ∈ text.toList, isSlugChar c = false

section Normalize

variable {env : AuthEnv} {s : String}

theorem isSlugChar_hyphen : isSlugChar '-' = false := by decide

theorem strip_eq_trim (p : Char → Bool) (l : List Char) : strip p l = trim p l := rfl

theorem subRuns_eq_collapse (inRun : Bool) (l : List Char) :
    subRuns inRun l = collapse isSlugChar '-' inRun l := by
  induction l generalizing inRun with
  | nil => rfl
  | cons c l ih => simp only [subRuns, collapse, ih]

theorem toList_slugify (env : AuthEnv) (s : String) : (slugify env s).toList =
    trim (· = '-') (collapse isSlugChar '-' false (trim env.isSpace (env.lower s).toList)) := by
  rw [slugify, String.toList_ofList, subRuns_eq_collapse, strip_eq_trim, strip_eq_trim]

theorem urlSafe_slugify (h : slugify env s ≠ "") : UrlSafe (slugify env s) := by
  have hne : (slugify env s).toList ≠ [] := fun hn => h (String.toList_eq_nil_iff.mp hn)
  rw [toList_slugify] at hne
  rw [UrlSafe, toList_slugify]
  exact separated_trim_collapse isSlugChar_hyphen hne

theorem isSpace_of_lawful (he : env.Lawful) (c : Char) (h : env.isSpace c = true) :
    isSlugChar c = false := by
  cases hc : isSlugChar c with
  | false => rfl
  | true => exact absurd h (by simp [he.isSpace c hc])

/-- Normalising drops and adds no slug character. -/
theorem filter_slugify (he : env.Lawful) (s : String) :
    (slugify env s).toList.filter isSlugChar = (env.lower s).toList.filter isSlugChar := by
  have hhyphen : ∀ c, decide (c = '-') = true → isSlugChar c = false := by
    intro c hc
    rw [of_decide_eq_true hc]
    exact isSlugChar_hyphen
  rw [toList_slugify, filter_trim hhyphen, filter_collapse isSlugChar_hyphen,
    filter_trim (isSpace_of_lawful he)]

theorem slugify_eq_empty (he : env.Lawful) :
    slugify env s = "" ↔ ∀ c ∈ (env.lower s).toList, isSlugChar c = false := by
  have hf : (env.lower s).toList.filter isSlugChar = [] ↔
      ∀ c ∈ (env.lower s).toList, isSlugChar c = false := by simp
  rw [← hf, ← filter_slugify he]
  constructor
  · intro h
    rw [h]
    rfl
  · intro h
    by_contra hne
    -- a non-empty slug starts with a slug character
    obtain ⟨c, l, hl⟩ := List.exists_cons_of_ne_nil (urlSafe_slugify hne).ne_nil
    have hc := (urlSafe_slugify hne).head?_keep (c := c) (by rw [hl]; rfl)
    rw [hl, List.filter_cons_of_pos hc] at h
    exact List.cons_ne_nil _ _ h

theorem slugOf_slugify (he : env.Lawful) (s : String) : SlugOf (env.lower s) (slugify env s) where
  groups := by
    by_cases hs : slugify env s = ""
    · refine ⟨[], fun g hg => (List.not_mem_nil hg).elim, by rw [hs]; rfl, ?_⟩
      rw [← filter_slugify he, hs]
      rfl
    · obtain ⟨groups, -, hg, hj⟩ := (urlSafe_slugify hs).exists_groups
      refine ⟨groups, hg, hj, ?_⟩
      rw [← filter_slugify he, hj]
      exact (filter_intercalate isSlugChar_hyphen fun g hm => (hg g hm).2).symm
  empty := slugify_eq_empty he

/-- A normal form is left alone by each of the three passes. -/
theorem slugify_of_urlSafe (he : env.Lawful) (h : UrlSafe s) : slugify env s = s := by
  have hlower : env.lower s = s := he.lower s fun c hc => h.mem hc
  have hspace : trim env.isSpace s.toList = s.toList :=
    trim_eq_self (fun c hc => he.isSpace c (h.head?_keep hc))
      fun c hc => he.isSpace c (h.getLast?_keep hc)
  have hne (c : Char) (hc : isSlugChar c = true) : decide (c = '-') = false := by
    apply decide_eq_false
    rintro rfl
    exact absurd hc (by decide)
  apply String.toList_inj.mp
  rw [toList_slugify, hlower, hspace, h.collapse_eq isSlugChar_hyphen]
  exact trim_eq_self (fun c hc => hne c (h.head?_keep hc)) fun c hc => hne c (h.getLast?_keep hc)

theorem slugify_slugify (he : env.Lawful) (s : String) :
    slugify env (slugify env s) = slugify env s := by
  by_cases hs : slugify env s = ""
  · rw [hs]
    have hlower : env.lower "" = "" := he.lower "" fun c hc => (List.not_mem_nil hc).elim
    rw [slugify_eq_empty he, hlower]
    exact fun c hc => (List.not_mem_nil hc).elim
  · exact slugify_of_urlSafe he (urlSafe_slugify hs)

end Normalize

/-- The slug of any text is its normal form, and normalising again changes nothing. -/
theorem slugify_normalForm (env : AuthEnv) (he : env.Lawful) (s : String) :
    SlugOf (env.lower s) (slugify env s) ∧ slugify env (slugify env s) = slugify env s :=
  ⟨slugOf_slugify he s, slugify_slugify he s⟩

/-- An environment for names that are in lower case already. -/
def lowerCaseEnv : AuthEnv where
  lower := id
  isSpace c := c = ' '
  hashPassword _ := .ok "$2b$12$abcdefghijklmnopqrstuuabcdefghijklmnopqrstuvwxyz01234"

theorem lowerCaseEnv_lawful : lowerCaseEnv.Lawful where
  lower _ _ := rfl
  isSpace c hc := by
    apply decide_eq_false
    rintro rfl
    exact absurd hc (by decide)

theorem slugify_normalForm_name :
    SlugOf " ada & co. " (slugify lowerCaseEnv " ada & co. ") ∧
      slugify lowerCaseEnv (slugify lowerCaseEnv " ada & co. ") =
        slugify lowerCaseEnv " ada & co. " :=
  slugify_normalForm lowerCaseEnv lowerCaseEnv_lawful " ada & co. "

example : slugify lowerCaseEnv " ada & co. " = "ada-co" := by decide +kernel

end AiBadge
