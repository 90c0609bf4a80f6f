import Mathlib.Algebra.Group.Nat.Defs
import Mathlib.Data.List.Basic

/-! # Injective encodings

Fixed-width digits determine a number below the power of the base, and text framed
by a separator determines the parts around it.
-/

namespace AiBadge.Lib

/-- The `width` lowest digits of `n` in base `b`, the highest first. -/
def digitsOf (b width n : Nat) : List Nat :=
  (List.range width).map fun i => n / b ^ (width - 1 - i) % b

/-- The number whose digits in base `b` follow those of `value`, the highest first. -/
def ofDigits (b : Nat) (value : Nat) (ds : List Nat) : Nat := ds.foldl (fun v d => b * v + d) value

theorem digitsOf_succ (b width n : Nat) :
    digitsOf b (width + 1) n = n / b ^ width % b :: digitsOf b width n := by
  simp only [digitsOf, List.range_succ_eq_map, List.map_cons, List.map_map]
  congr 1
  apply List.map_congr_left
  intro i _
  simp only [Function.comp_apply]
  congr 3
  omega

theorem ofDigits_digitsOf (b width n value : Nat) :
    ofDigits b value (digitsOf b width n) = value * b ^ width + n % b ^ width := by
  induction width generalizing value with
  | zero => simp [ofDigits, digitsOf, Nat.mod_one]
  | succ w ih =>
    rw [digitsOf_succ]
    change ofDigits b (b * value + n / b ^ w % b) (digitsOf b w n) = _
    rw [ih, Nat.mod_pow_succ, Nat.add_mul, Nat.pow_succ, Nat.mul_comm b value, Nat.mul_assoc,
      Nat.mul_comm b (b ^ w), Nat.mul_comm (n / b ^ w % b), Nat.add_assoc,
      Nat.add_comm (b ^ w * _) (n % b ^ w)]

theorem mod_pow_eq_of_digits {b width n m : Nat}
    (h : ∀ i < width, n / b ^ i % b = m / b ^ i % b) : n % b ^ width = m % b ^ width := by
  induction width with
  | zero => rw [Nat.pow_zero, Nat.mod_one, Nat.mod_one]
  | succ w ih =>
    have hlow : n % b ^ w = m % b ^ w := ih fun i hi => h i (Nat.lt_succ_of_lt hi)
    rw [Nat.mod_pow_succ, Nat.mod_pow_succ, hlow, h w (Nat.lt_succ_self w)]

theorem digitsOf_inj {b width n m : Nat} (hn : n < b ^ width) (hm : m < b ^ width)
    (h : digitsOf b width n = digitsOf b width m) : n = m := by
  have hd : ∀ i < width, n / b ^ i % b = m / b ^ i % b := by
    intro i hi
    have he := List.map_inj_left.mp h (width - 1 - i) (List.mem_range.mpr (by omega))
    rwa [show width - 1 - (width - 1 - i) = i by omega] at he
  have hmod := mod_pow_eq_of_digits hd
  rwa [Nat.mod_eq_of_lt hn, Nat.mod_eq_of_lt hm] at hmod

section Framing

variable {α : Type} {sep : α} {x y u v : List α}

/-- The part before the first separator and the part after it are determined. -/
theorem framed_inj (hx : sep ∉ x) (hy : sep ∉ y) (h : x ++ sep :: u = y ++ sep :: v) :
    x = y ∧ u = v := by
  induction x generalizing y with
  | nil =>
    cases y with
    | nil => exact ⟨rfl, (List.cons.inj h).2⟩
    | cons b y =>
      obtain ⟨rfl, -⟩ := List.cons.inj h
      exact absurd List.mem_cons_self hy
  | cons a x ih =>
    cases y with
    | nil =>
      obtain ⟨rfl, -⟩ := List.cons.inj h
      exact absurd List.mem_cons_self hx
    | cons b y =>
      obtain ⟨rfl, ht⟩ := List.cons.inj h
      obtain ⟨rfl, huv⟩ := ih (fun hm => hx (List.mem_cons_of_mem _ hm))
        (fun hm => hy (List.mem_cons_of_mem _ hm)) ht
      exact ⟨rfl, huv⟩

/-- Framed text differs from text without the separator. -/
theorem framed_ne (hy : sep ∉ y) : x ++ sep :: u ≠ y := by
  rintro rfl
  exact hy (List.mem_append_right _ List.mem_cons_self)

end Framing

end AiBadge.Lib
