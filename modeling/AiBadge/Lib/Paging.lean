import Mathlib.Data.List.Pairwise
import Mathlib.Data.List.Perm.Basic

/-! # Reading a sorted list in pages

A query sorts by a key, ties in any order, and returns the rows behind an offset, up to a
limit. A reader that asks for one page after the other misses no row, even if rows are added
at the front meanwhile.
-/

namespace AiBadge.Lib

variable {α : Type}

/-- How a query may sort: by descending key, ties in any order. -/
structure Plan (key : α → Int) where
  sort : List α → List α
  perm : ∀ l, (sort l).Perm l
  sorted : ∀ l, (sort l).Pairwise fun a b => key b ≤ key a

/-- The rows behind the offset, up to the limit. -/
def page (limit offset : Nat) (l : List α) : List α := (l.drop offset).take limit

variable {key : α → Int} {l : List α} {limit offset i n : Nat} {x : α}

@[simp] theorem Plan.mem_sort {p : Plan key} : x ∈ p.sort l ↔ x ∈ l := (p.perm l).mem_iff

/-- Where no two keys are equal, a plan has no choice. -/
theorem Plan.sort_eq_reverse (p : Plan key) (h : l.Pairwise fun a b => key a < key b) :
    p.sort l = l.reverse := by
  have hrev : l.reverse.Pairwise fun a b => key b ≤ key a :=
    List.pairwise_reverse.mpr (h.imp fun hab => Int.le_of_lt hab)
  have hinj : ∀ a ∈ l, ∀ b ∈ l, key a = key b → a = b := by
    have hlt : l.Pairwise fun a b => key a = key b → a = b :=
      h.imp fun hab he => absurd he (Int.ne_of_lt hab)
    have hgt : l.Pairwise (flip fun a b => key a = key b → a = b) :=
      h.imp fun hab he => absurd he.symm (Int.ne_of_lt hab)
    exact fun a ha b hb => List.Pairwise.forall_of_forall_of_flip (fun _ _ _ => rfl) hlt hgt ha hb
  apply List.Perm.eq_of_pairwise _ (p.sorted l) hrev ((p.perm l).trans l.reverse_perm.symm)
  intro a b ha hb hba hab
  exact hinj a (mem_sort.mp ha) b (List.mem_reverse.mp hb) (Int.le_antisymm hab hba)

section Reader

variable {snap : Nat → List α}

theorem getElem?_page (h : i < limit) : (page limit offset l)[i]? = l[offset + i]? := by
  rw [page, List.getElem?_take_of_lt h, List.getElem?_drop]

theorem mem_page_of_getElem? {d : Nat} (h : l[d]? = some x) (hlow : offset ≤ d)
    (hhigh : d < offset + limit) : x ∈ page limit offset l := by
  apply List.mem_of_getElem? (i := d - offset)
  rw [getElem?_page (by omega), Nat.add_sub_cancel' hlow, h]

theorem mem_of_mem_page (h : x ∈ page limit offset l) : x ∈ l :=
  List.mem_of_mem_drop (List.mem_of_mem_take h)

/-- A row that the first `k` pages miss stands behind them, however much is added in front. -/
theorem exists_page_or_behind (hgrow : ∀ k, k + 1 < n → snap k <:+ snap (k + 1))
    (hx : x ∈ snap 0) : ∀ k < n, (∃ i < k, x ∈ page limit (i * limit) (snap i)) ∨
      ∃ d, k * limit ≤ d ∧ (snap k)[d]? = some x := by
  intro k
  induction k with
  | zero =>
    intro _
    obtain ⟨d, hd⟩ := List.mem_iff_getElem?.mp hx
    exact .inr ⟨d, by omega, hd⟩
  | succ k ih =>
    intro hk
    rcases ih (by omega) with ⟨i, hi, hp⟩ | ⟨d, hlow, hd⟩
    · exact .inl ⟨i, by omega, hp⟩
    by_cases hin : d < k * limit + limit
    · exact .inl ⟨k, by omega, mem_page_of_getElem? hd hlow hin⟩
    · obtain ⟨new, hnew⟩ := hgrow k hk
      refine .inr ⟨new.length + d, by rw [Nat.succ_mul]; omega, ?_⟩
      rw [← hnew, List.getElem?_append_right (by omega), Nat.add_sub_cancel_left, hd]

/-- A reader that goes on until its pages cover the list sees every row of its first snapshot. -/
theorem exists_page_of_growing (hgrow : ∀ k, k + 1 < n → snap k <:+ snap (k + 1))
    (hn : 0 < n) (hend : (snap (n - 1)).length ≤ n * limit) (hx : x ∈ snap 0) :
    ∃ k < n, x ∈ page limit (k * limit) (snap k) := by
  rcases exists_page_or_behind hgrow hx (n - 1) (by omega) with ⟨i, hi, hp⟩ | ⟨d, hlow, hd⟩
  · exact ⟨i, by omega, hp⟩
  · have hlt : d < (snap (n - 1)).length := (List.getElem?_eq_some_iff.mp hd).1
    have hspan : n * limit = (n - 1) * limit + limit := by
      rw [← Nat.succ_mul, Nat.succ_eq_add_one, Nat.sub_add_cancel hn]
    exact ⟨n - 1, by omega, mem_page_of_getElem? hd hlow (by omega)⟩

end Reader

end AiBadge.Lib
