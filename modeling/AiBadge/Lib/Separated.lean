import Mathlib.Data.List.Chain
import Mathlib.Data.List.TakeWhile

/-! # Separated groups

Groups of kept elements with one separator between two groups. Replacing the runs of
other elements by a separator and trimming the ends leads to this form, which both leave
alone.
-/

namespace AiBadge.Lib

variable {α : Type}

/-- Groups of kept elements, one separator between two groups. -/
inductive Separated (keep : α → Bool) (sep : α) : List α → Prop where
  | last {c : α} : keep c = true → Separated keep sep [c]
  | inside {c : α} {l : List α} : keep c = true → Separated keep sep l →
      Separated keep sep (c :: l)
  | border {c : α} {l : List α} : keep c = true → Separated keep sep l →
      Separated keep sep (c :: sep :: l)

/-- Remove the elements that satisfy `p` from both ends. -/
def trim (p : α → Bool) (l : List α) : List α := ((l.dropWhile p).reverse.dropWhile p).reverse

/-- Replace each run of elements that are not kept by one separator; the flag says that the
current run is already replaced. -/
def collapse (keep : α → Bool) (sep : α) : Bool → List α → List α
  | _, [] => []
  | inRun, c :: cs =>
    if keep c then c :: collapse keep sep false cs
    else if inRun then collapse keep sep true cs
    else sep :: collapse keep sep true cs

/-- No two adjacent elements are separators. -/
def Single (sep : α) (l : List α) : Prop := l.IsChain fun a b => a = sep → b ≠ sep

section Separated

variable {keep : α → Bool} {sep : α} {l : List α}

theorem Separated.ne_nil (h : Separated keep sep l) : l ≠ [] := by
  cases h <;> exact List.cons_ne_nil _ _

theorem Separated.head?_keep (h : Separated keep sep l) {c : α} (hc : l.head? = some c) :
    keep c = true := by
  cases h <;> exact Option.some.inj hc ▸ ‹_›

theorem Separated.getLast?_keep (h : Separated keep sep l) {c : α} (hc : l.getLast? = some c) :
    keep c = true := by
  induction h with
  | last hk => exact Option.some.inj hc ▸ hk
  | inside _ hl ih =>
    obtain ⟨d, l, rfl⟩ := List.exists_cons_of_ne_nil hl.ne_nil
    rw [List.getLast?_cons_cons] at hc
    exact ih hc
  | border _ hl ih =>
    obtain ⟨d, l, rfl⟩ := List.exists_cons_of_ne_nil hl.ne_nil
    rw [List.getLast?_cons_cons, List.getLast?_cons_cons] at hc
    exact ih hc

theorem Separated.mem (h : Separated keep sep l) {c : α} (hc : c ∈ l) :
    keep c = true ∨ c = sep := by
  induction h with
  | last hk => exact .inl (List.mem_singleton.mp hc ▸ hk)
  | inside hk _ ih =>
    rcases List.mem_cons.mp hc with rfl | hc
    · exact .inl hk
    · exact ih hc
  | border hk _ ih =>
    rcases List.mem_cons.mp hc with rfl | hc
    · exact .inl hk
    rcases List.mem_cons.mp hc with rfl | hc
    · exact .inr rfl
    · exact ih hc

/-- A single group. -/
theorem separated_of_kept (hne : l ≠ []) (h : ∀ c ∈ l, keep c = true) : Separated keep sep l := by
  induction l with
  | nil => exact absurd rfl hne
  | cons c l ih =>
    obtain ⟨hc, hl⟩ := List.forall_mem_cons.mp h
    cases l with
    | nil => exact .last hc
    | cons d l => exact .inside hc (ih (List.cons_ne_nil d l) hl)

theorem Separated.append {m : List α} (h : Separated keep sep l) (hm : Separated keep sep m) :
    Separated keep sep (l ++ sep :: m) := by
  induction h with
  | last hk => exact .border hk hm
  | inside hk _ ih => exact .inside hk ih
  | border hk _ ih => exact .border hk ih

/-- The groups of a separated list. -/
theorem Separated.exists_groups (h : Separated keep sep l) : ∃ groups : List (List α),
    groups ≠ [] ∧ (∀ g ∈ groups, g ≠ [] ∧ ∀ c ∈ g, keep c = true) ∧
      l = [sep].intercalate groups := by
  induction h with
  | @last c hk =>
    refine ⟨[[c]], List.cons_ne_nil _ _, fun g hg => ?_, List.intercalate_singleton.symm⟩
    obtain rfl := List.mem_singleton.mp hg
    exact ⟨List.cons_ne_nil _ _, fun d hd => List.mem_singleton.mp hd ▸ hk⟩
  | @inside c l hk _ ih =>
    obtain ⟨groups, hne, hg, rfl⟩ := ih
    obtain ⟨g, groups, rfl⟩ := List.exists_cons_of_ne_nil hne
    obtain ⟨⟨-, hfirst⟩, hrest⟩ := List.forall_mem_cons.mp hg
    refine ⟨(c :: g) :: groups, List.cons_ne_nil _ _, ?_, ?_⟩
    · exact List.forall_mem_cons.mpr
        ⟨⟨List.cons_ne_nil _ _, List.forall_mem_cons.mpr ⟨hk, hfirst⟩⟩, hrest⟩
    · rw [List.intercalate_cons_cons_left]
  | @border c l hk _ ih =>
    obtain ⟨groups, hne, hg, rfl⟩ := ih
    refine ⟨[c] :: groups, List.cons_ne_nil _ _, ?_, ?_⟩
    · exact List.forall_mem_cons.mpr
        ⟨⟨List.cons_ne_nil _ _, fun d hd => List.mem_singleton.mp hd ▸ hk⟩, hg⟩
    · rw [List.intercalate_cons_of_ne_nil hne]
      rfl

/-- The kept elements of joined groups are those of the groups, in order. -/
theorem filter_intercalate (hsep : keep sep = false) {groups : List (List α)}
    (hg : ∀ g ∈ groups, ∀ c ∈ g, keep c = true) :
    ([sep].intercalate groups).filter keep = groups.flatten := by
  induction groups with
  | nil => rfl
  | cons g groups ih =>
    obtain ⟨hfirst, hrest⟩ := List.forall_mem_cons.mp hg
    rcases List.eq_nil_or_concat groups with rfl | ⟨init, x, hx⟩
    · rw [List.intercalate_singleton, List.filter_eq_self.mpr hfirst, List.flatten_singleton]
    · have hne : groups ≠ [] := by
        rw [hx, List.concat_eq_append]
        exact List.append_ne_nil_of_right_ne_nil init (List.cons_ne_nil x [])
      rw [List.intercalate_cons_of_ne_nil hne, List.filter_append, List.filter_append, ih hrest,
        List.filter_eq_self.mpr hfirst, List.flatten_cons]
      simp [hsep]

/-- A list of kept elements and lone separators that neither starts nor ends with one. -/
theorem separated_of_single : ∀ {l : List α}, l ≠ [] → (∀ c ∈ l, keep c = true ∨ c = sep) →
    Single sep l → l.head? ≠ some sep → l.getLast? ≠ some sep → Separated keep sep l
  | [], hne, _, _, _, _ => absurd rfl hne
  | [c], _, hm, _, hh, _ => .last ((hm c List.mem_cons_self).resolve_right fun h => hh (h ▸ rfl))
  | c :: d :: l, _, hm, hs, hh, hlast => by
    have hc : keep c = true := (hm c List.mem_cons_self).resolve_right fun h => hh (h ▸ rfl)
    obtain ⟨-, hs⟩ := List.isChain_cons_cons.mp hs
    have hm' : ∀ x ∈ d :: l, keep x = true ∨ x = sep :=
      fun x hx => hm x (List.mem_cons_of_mem c hx)
    rw [List.getLast?_cons_cons] at hlast
    by_cases hd : d = sep
    · obtain rfl : sep = d := hd.symm
      obtain ⟨e, l, rfl⟩ : ∃ e l', l = e :: l' := by
        apply List.exists_cons_of_ne_nil
        rintro rfl
        exact hlast rfl
      obtain ⟨he, hs⟩ := List.isChain_cons_cons.mp hs
      rw [List.getLast?_cons_cons] at hlast
      exact .border hc (separated_of_single (List.cons_ne_nil e l)
        (fun x hx => hm' x (List.mem_cons_of_mem _ hx)) hs
        (fun h => he rfl (Option.some.inj h)) hlast)
    · exact .inside hc (separated_of_single (List.cons_ne_nil d l) hm' hs
        (fun h => hd (Option.some.inj h)) hlast)

end Separated

section Trim

variable {p keep : α → Bool} {l : List α}

/-- What the second pass removes from the end. -/
theorem trim_append (p : α → Bool) (l : List α) : ∃ v, trim p l ++ v = l.dropWhile p := by
  obtain ⟨r, hr⟩ : (l.dropWhile p).reverse.dropWhile p <:+ (l.dropWhile p).reverse :=
    List.dropWhile_suffix p
  refine ⟨r.reverse, ?_⟩
  rw [trim, ← List.reverse_append, hr, List.reverse_reverse]

theorem append_trim_append (p : α → Bool) (l : List α) : ∃ u v, u ++ (trim p l ++ v) = l := by
  obtain ⟨v, hv⟩ := trim_append p l
  obtain ⟨u, hu⟩ : l.dropWhile p <:+ l := List.dropWhile_suffix p
  exact ⟨u, v, by rw [hv, hu]⟩

theorem mem_of_mem_trim {c : α} (h : c ∈ trim p l) : c ∈ l := by
  obtain ⟨u, v, hl⟩ := append_trim_append p l
  rw [← hl]
  exact List.mem_append_right u (List.mem_append_left v h)

theorem Single.trim {sep : α} (h : Single sep l) : Single sep (trim p l) := by
  obtain ⟨u, v, hl⟩ := append_trim_append p l
  rw [← hl] at h
  exact (List.IsChain.right_of_append h).left_of_append

theorem head?_trim {c : α} (h : (trim p l).head? = some c) : p c = false := by
  obtain ⟨r, hr⟩ := trim_append p l
  obtain ⟨l', ht⟩ := List.head?_eq_some_iff.mp h
  have hd : (l.dropWhile p).head? = some c := by
    rw [← hr, ht]
    rfl
  have hn := List.head?_dropWhile_not p l
  rw [hd] at hn
  simpa using hn

theorem getLast?_trim {c : α} (h : (trim p l).getLast? = some c) : p c = false := by
  unfold trim at h
  rw [List.getLast?_reverse] at h
  have hn := List.head?_dropWhile_not p (l.dropWhile p).reverse
  rw [h] at hn
  simpa using hn

theorem dropWhile_of_head? (h : ∀ c, l.head? = some c → p c = false) : l.dropWhile p = l := by
  cases l with
  | nil => rfl
  | cons c l => exact List.dropWhile_cons_of_neg (by simpa using h c rfl)

/-- Trimming leaves a list alone whose ends are not to be removed. -/
theorem trim_eq_self (hh : ∀ c, l.head? = some c → p c = false)
    (hl : ∀ c, l.getLast? = some c → p c = false) : trim p l = l := by
  have hr : l.reverse.dropWhile p = l.reverse := by
    apply dropWhile_of_head?
    intro c hc
    rw [List.head?_reverse] at hc
    exact hl c hc
  rw [trim, dropWhile_of_head? hh, hr, List.reverse_reverse]

/-- Trimming uncovers a list between ends that are to be removed. -/
theorem trim_of_ends {opening closing : List α} (hne : l ≠ [])
    (ho : ∀ c ∈ opening, p c = true) (hc : ∀ c ∈ closing, p c = true)
    (hl : ∀ c ∈ l, p c = false) : trim p (opening ++ l ++ closing) = l := by
  obtain ⟨a, m, rfl⟩ := List.exists_cons_of_ne_nil hne
  have hfront : (opening ++ (a :: m) ++ closing).dropWhile p = a :: m ++ closing := by
    rw [List.append_assoc, List.dropWhile_append_of_pos ho]
    exact dropWhile_of_head? fun c hh => Option.some.inj hh ▸ hl a List.mem_cons_self
  have hback : (a :: m ++ closing).reverse.dropWhile p = (a :: m).reverse := by
    rw [List.reverse_append,
      List.dropWhile_append_of_pos fun c hm => hc c (List.mem_reverse.mp hm)]
    exact dropWhile_of_head? fun c hh => hl c (List.mem_reverse.mp (List.mem_of_mem_head? hh))
  rw [trim, hfront, hback, List.reverse_reverse]

theorem filter_dropWhile (h : ∀ c, p c = true → keep c = false) :
    (l.dropWhile p).filter keep = l.filter keep := by
  induction l with
  | nil => rfl
  | cons c l ih =>
    cases hc : p c with
    | true => rw [List.dropWhile_cons_of_pos hc, ih, List.filter_cons_of_neg (by simp [h c hc])]
    | false => rw [List.dropWhile_cons_of_neg (by simp [hc])]

/-- Trimming keeps the elements that are to be kept. -/
theorem filter_trim (h : ∀ c, p c = true → keep c = false) :
    (trim p l).filter keep = l.filter keep := by
  rw [trim, List.filter_reverse, filter_dropWhile h, ← List.filter_reverse, List.reverse_reverse,
    filter_dropWhile h]

end Trim

section Collapse

variable {keep : α → Bool} {sep : α} {l : List α}

theorem mem_collapse {inRun : Bool} {c : α} (h : c ∈ collapse keep sep inRun l) :
    keep c = true ∨ c = sep := by
  induction l generalizing inRun with
  | nil => cases h
  | cons d l ih =>
    unfold collapse at h
    split at h
    next hk =>
      rcases List.mem_cons.mp h with rfl | h
      · exact .inl hk
      · exact ih h
    next hk =>
      split at h
      · exact ih h
      · rcases List.mem_cons.mp h with rfl | h
        · exact .inr rfl
        · exact ih h

/-- Inside a run nothing starts with a separator, and no two are adjacent. -/
theorem single_collapse (hsep : keep sep = false) (inRun : Bool) (l : List α) :
    Single sep (collapse keep sep inRun l) ∧
      (inRun = true → (collapse keep sep inRun l).head? ≠ some sep) := by
  induction l generalizing inRun with
  | nil => exact ⟨List.isChain_nil, fun _ => nofun⟩
  | cons d l ih =>
    unfold collapse
    split
    next hk =>
      have hd : d ≠ sep := by
        rintro rfl
        exact absurd hk (by simp [hsep])
      refine ⟨?_, fun _ h => hd (Option.some.inj h)⟩
      exact List.isChain_cons.mpr ⟨fun _ _ h => absurd h hd, (ih false).1⟩
    next hk =>
      split
      next hr => exact ⟨(ih true).1, fun _ => (ih true).2 rfl⟩
      next hr =>
        refine ⟨List.isChain_cons.mpr ⟨?_, (ih true).1⟩, fun h => absurd h hr⟩
        rintro y hy - rfl
        exact (ih true).2 rfl hy

theorem filter_collapse (hsep : keep sep = false) (inRun : Bool) (l : List α) :
    (collapse keep sep inRun l).filter keep = l.filter keep := by
  induction l generalizing inRun with
  | nil => rfl
  | cons d l ih =>
    unfold collapse
    split
    next hk => rw [List.filter_cons_of_pos hk, List.filter_cons_of_pos hk, ih]
    next hk =>
      rw [List.filter_cons_of_neg hk]
      split
      · exact ih true
      · rw [List.filter_cons_of_neg (by simp [hsep]), ih]

/-- A separated list has no run to replace. -/
theorem Separated.collapse_eq (hsep : keep sep = false) (h : Separated keep sep l) (inRun : Bool) :
    collapse keep sep inRun l = l := by
  induction h generalizing inRun with
  | last hk => simp [collapse, hk]
  | inside hk _ ih => simp [collapse, hk, ih]
  | border hk _ ih => simp [collapse, hk, hsep, ih]

/-- Replacing runs and trimming separators leads to separated groups, or to nothing. -/
theorem separated_trim_collapse [DecidableEq α] (hsep : keep sep = false)
    (hne : trim (· = sep) (collapse keep sep false l) ≠ []) :
    Separated keep sep (trim (· = sep) (collapse keep sep false l)) := by
  apply separated_of_single hne
  · intro c hc
    exact mem_collapse (mem_of_mem_trim hc)
  · exact (single_collapse hsep false l).1.trim
  · intro h
    simpa using head?_trim h
  · intro h
    simpa using getLast?_trim h

end Collapse

end AiBadge.Lib
