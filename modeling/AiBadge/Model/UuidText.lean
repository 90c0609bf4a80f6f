import AiBadge.Lib.Encoding
import AiBadge.Lib.PyUuid
import AiBadge.Model.Values

/-! # The texts of an id

`str(u)` and `u.hex` determine the id, and `uuid.UUID` reads every spelling back.
-/

namespace AiBadge

open Lib

namespace Uuid

theorem hexDigit_inj : ∀ i < 16, ∀ j < 16, hexDigit i = hexDigit j → i = j := by decide

theorem hexDigit_ne : ∀ i < 16, hexDigit i ≠ '-' ∧ hexDigit i ≠ ':' := by decide

theorem mem_hexChars {u : Uuid} {c : Char} (h : c ∈ u.hexChars) : c ≠ '-' ∧ c ≠ ':' := by
  obtain ⟨i, -, rfl⟩ := List.mem_map.mp h
  exact hexDigit_ne _ (Nat.mod_lt _ (by decide))

theorem hexChars_injective : Function.Injective hexChars := by
  intro u v h
  have hd : digitsOf 16 32 u.bits.toNat = digitsOf 16 32 v.bits.toNat := by
    apply List.map_inj_left.mpr
    intro i hi
    have he := List.map_inj_left.mp h i hi
    exact hexDigit_inj _ (Nat.mod_lt _ (by decide)) _ (Nat.mod_lt _ (by decide)) he
  have lt (u : Uuid) : u.bits.toNat < 16 ^ 32 := Nat.lt_of_lt_of_eq u.bits.isLt (by decide)
  have hn := digitsOf_inj (lt u) (lt v) hd
  cases u
  cases v
  exact congrArg mk (BitVec.eq_of_toNat_eq hn)

theorem toList_str (u : Uuid) : u.str.toList =
    u.hexChars.take 8 ++ '-' :: (u.hexChars.drop 8).take 4 ++ '-' :: (u.hexChars.drop 12).take 4 ++
      '-' :: (u.hexChars.drop 16).take 4 ++ '-' :: u.hexChars.drop 20 := String.toList_ofList

/-- The hyphens of the canonical text carry no information. -/
theorem filter_str (u : Uuid) : u.str.toList.filter (· ≠ '-') = u.hexChars := by
  have part {l : List Char} (h : l.Sublist u.hexChars) : l.filter (· ≠ '-') = l :=
    List.filter_eq_self.mpr fun c hc => by simpa using (mem_hexChars (h.subset hc)).1
  have cut (n m : Nat) : ((u.hexChars.drop n).take m).filter (· ≠ '-') = (u.hexChars.drop n).take m :=
    part ((List.take_sublist _ _).trans (List.drop_sublist _ _))
  have join (n m : Nat) : (u.hexChars.drop n).take m ++ u.hexChars.drop (n + m) =
      u.hexChars.drop n := by
    rw [← List.drop_drop, List.take_append_drop]
  simp only [toList_str, List.filter_append, List.filter_cons, List.append_assoc, cut,
    part (List.take_sublist _ _), part (List.drop_sublist _ _)]
  calc u.hexChars.take 8 ++ ((u.hexChars.drop 8).take 4 ++ ((u.hexChars.drop 12).take 4 ++
        ((u.hexChars.drop 16).take 4 ++ u.hexChars.drop 20)))
      = u.hexChars.take 8 ++ u.hexChars.drop 8 := by rw [join, join, join]
    _ = u.hexChars := List.take_append_drop 8 _

theorem str_injective : Function.Injective str := by
  intro u v h
  apply hexChars_injective
  rw [← filter_str, ← filter_str, h]

theorem colon_notMem_str (u : Uuid) : ':' ∉ u.str.toList := by
  intro h
  have hf : ':' ∈ u.str.toList.filter (· ≠ '-') := List.mem_filter.mpr ⟨h, by decide⟩
  rw [filter_str] at hf
  exact (mem_hexChars hf).2 rfl

/-- `uuid.UUID(text)`. -/
def parse (tables : Unicode) (text : String) : Except PyUuid.UuidError Uuid :=
  (PyUuid.read tables text.toList).map fun n => ⟨BitVec.ofNat 128 n⟩

theorem hexDigit?_hexDigit : ∀ i < 16, PyJson.hexDigit? (hexDigit i) = some i := by decide

theorem isDigits_str (u : Uuid) : PyUuid.IsDigits u.bits.toNat u.str.toList := by
  rw [PyUuid.IsDigits, filter_str, hexChars, digitsOf, List.map_map, List.map_map]
  apply List.map_congr_left
  intro i _
  exact hexDigit?_hexDigit _ (Nat.mod_lt _ (by decide))

/-- A text that spells an id is read as the id. -/
theorem parse_of_spells {tables : Unicode} {u : Uuid} {text : String}
    (h : PyUuid.Spells u.bits.toNat text.toList) : parse tables text = .ok u := by
  rw [parse, PyUuid.read_of_spells h]
  cases u
  simp [Except.map]

/-- The canonical text of an id spells it. -/
theorem spells_str (u : Uuid) : PyUuid.Spells u.bits.toNat u.str.toList where
  lt := u.bits.isLt
  shape := ⟨"", List.mem_cons_self, [], u.str.toList, [], nofun, nofun, u.isDigits_str, by simp⟩

@[simp] theorem parse_str (tables : Unicode) (u : Uuid) : parse tables u.str = .ok u :=
  parse_of_spells u.spells_str

end Uuid

end AiBadge
