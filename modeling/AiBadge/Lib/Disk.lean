import Mathlib.Logic.Function.Basic
import Mathlib.Data.List.Basic

/-! # Files by path

`os.path.join` of POSIX, a disk as the contents of files by path, and the disks that hold exactly
the files of a list of keys, with everything else as before.
-/

namespace AiBadge.Lib

/-- The contents of the files, by path. -/
abbrev Disk (β : Type) := List Char → Option β

/-- `os.path.join(a, b)`. -/
def joinPath (a b : List Char) : List Char :=
  if b.head? = some '/' then b
  else if a = [] ∨ a.getLast? = some '/' then a ++ b
  else a ++ '/' :: b

/-- The text in front of the names in a directory. -/
def directory (a : List Char) : List Char :=
  if a = [] ∨ a.getLast? = some '/' then a else a ++ ['/']

/-- A text that names an entry of a directory. -/
structure IsFileName (b : List Char) : Prop where
  slash : '/' ∉ b
  nonempty : b ≠ []
  dot : b ≠ ['.']
  dots : b ≠ ['.', '.']

section Paths

variable {a b c : List Char}

theorem joinPath_eq (h : '/' ∉ b) : joinPath a b = directory a ++ b := by
  have hb : b.head? ≠ some '/' := fun hh => h (List.mem_of_mem_head? hh)
  rw [joinPath, if_neg hb, directory]
  split
  · rfl
  · rw [List.append_assoc, List.singleton_append]

theorem joinPath_inj (hb : '/' ∉ b) (hc : '/' ∉ c) (h : joinPath a b = joinPath a c) : b = c := by
  rw [joinPath_eq hb, joinPath_eq hc] at h
  exact List.append_cancel_left h

end Paths

variable {κ β : Type} [DecidableEq κ]

/-- Among the paths of valid keys, exactly those of `files` have a file, with its content; all other
paths are as on the disk `d₀`. -/
structure Mirrors (V : κ → Prop) (path : κ → List Char) (content : κ → β) (files : List κ)
    (d₀ d : Disk β) : Prop where
  file : ∀ k, V k → d (path k) = if k ∈ files then some (content k) else none
  frame : ∀ p, (∀ k, V k → path k ≠ p) → d p = d₀ p

namespace Mirrors

variable {V : κ → Prop} {path : κ → List Char} {content : κ → β} {files : List κ} {d₀ d : Disk β}
  {k : κ}

theorem start (h : ∀ k, V k → d₀ (path k) = none) : Mirrors V path content [] d₀ d₀ where
  file k hk := h k hk
  frame _ _ := rfl

variable (hinj : ∀ k k', V k → V k' → path k = path k' → k = k') (hk : V k)
include hinj hk

theorem write (h : Mirrors V path content files d₀ d) :
    Mirrors V path content (k :: files) d₀ (Function.update d (path k) (some (content k))) where
  file k' hk' := by
    by_cases he : k' = k
    · subst he
      rw [Function.update_self, if_pos List.mem_cons_self]
    · have hp : path k' ≠ path k := fun hp => he (hinj k' k hk' hk hp)
      rw [Function.update_of_ne hp, h.file k' hk']
      simp only [List.mem_cons, he, false_or]
  frame p hp := by
    rw [Function.update_of_ne (hp k hk).symm]
    exact h.frame p hp

theorem remove (h : Mirrors V path content files d₀ d) :
    Mirrors V path content (files.filter (· ≠ k)) d₀ (Function.update d (path k) none) where
  file k' hk' := by
    by_cases he : k' = k
    · subst he
      rw [Function.update_self, if_neg]
      simp
    · have hp : path k' ≠ path k := fun hp => he (hinj k' k hk' hk hp)
      rw [Function.update_of_ne hp, h.file k' hk']
      simp only [List.mem_filter, ne_eq, he, not_false_eq_true, decide_true, and_true]
  frame p hp := by
    rw [Function.update_of_ne (hp k hk).symm]
    exact h.frame p hp

end Mirrors

end AiBadge.Lib
