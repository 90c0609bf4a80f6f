import AiBadge.Lib.Disk
import AiBadge.Model.UuidText
import AiBadge.Sessions.Router

/-! # Local storage

The storage backend keeps each file under its key in one directory. The keys of uploads are plain
file names, and two keys never share a path.
-/

namespace AiBadge

open Lib

namespace LocalStorage

variable {β : Type}

def path (basePath : List Char) (key : String) : List Char := joinPath basePath key.toList

def save (basePath : List Char) (key : String) (data : β) (d : Disk β) : Disk β :=
  Function.update d (path basePath key) (some data)

def get (basePath : List Char) (key : String) (d : Disk β) : Except Exn β :=
  match d (path basePath key) with
  | some data => .ok data
  | none => .error (.osError "No such file or directory")

def delete (basePath : List Char) (key : String) (d : Disk β) : Disk β :=
  if (d (path basePath key)).isSome then Function.update d (path basePath key) none else d

theorem delete_eq {basePath : List Char} {key : String} {d : Disk β} :
    delete basePath key d = Function.update d (path basePath key) none := by
  unfold delete
  split
  · rfl
  next h =>
    rw [Option.not_isSome_iff_eq_none] at h
    exact (Function.update_eq_self_iff.mpr h.symm).symm

end LocalStorage

/-- The formats that an upload is stored in. -/
def audioFormats : List String := ["opus", "wav", "mp3", "m4a", "ogg", "webm"]

/-- A key that an upload can have. -/
def AudioKey.Valid (key : AudioKey) : Prop := key.format ∈ audioFormats

theorem getAudioFormat_mem (filename contentType : Option String) :
    getAudioFormat filename contentType ∈ audioFormats := by
  have hct : getAudioFormat.byContentType contentType ∈ audioFormats := by
    unfold getAudioFormat.byContentType
    split <;> simp [audioFormats]
  unfold getAudioFormat
  split
  · split
    · assumption
    · exact hct
  · exact hct

namespace AudioKey

variable {key key' : AudioKey}

theorem toList_text : key.text.toList = key.uuid.str.toList ++ '.' :: key.format.toList := by
  simp [text, toString]

theorem length_str (u : Uuid) : u.str.toList.length = 36 := by
  rw [Uuid.toList_str]
  simp [Uuid.hexChars]

theorem length_text (key : AudioKey) : 36 < key.text.toList.length := by
  rw [toList_text, List.length_append, length_str, List.length_cons]
  omega

theorem slash_notMem_str (u : Uuid) : '/' ∉ u.str.toList := by
  have hdigit : ∀ i < 16, Uuid.hexDigit i ≠ '/' := by decide
  intro h
  have hf : '/' ∈ u.str.toList.filter (· ≠ '-') := List.mem_filter.mpr ⟨h, by decide⟩
  rw [Uuid.filter_str] at hf
  obtain ⟨i, -, hi⟩ := List.mem_map.mp hf
  exact hdigit _ (Nat.mod_lt _ (by decide)) hi

theorem text_injective : Function.Injective text := by
  intro key key' h
  have hl := congrArg String.toList h
  rw [toList_text, toList_text] at hl
  obtain ⟨hu, hf⟩ := List.append_inj hl ((length_str _).trans (length_str _).symm)
  have hu := Uuid.str_injective (String.toList_injective hu)
  have hf := String.toList_injective (List.cons.inj hf).2
  cases key
  cases key'
  obtain rfl := hu
  obtain rfl := hf
  rfl

theorem slash_notMem_format (h : key.Valid) : '/' ∉ key.format.toList := by
  have hall : ∀ f ∈ audioFormats, '/' ∉ f.toList := by decide
  exact hall _ h

/-- A stored file lies in the directory itself. -/
theorem isFileName_text (h : key.Valid) : IsFileName key.text.toList where
  slash := by
    rw [toList_text]
    intro hm
    rcases List.mem_append.mp hm with hm | hm
    · exact slash_notMem_str _ hm
    · rcases List.mem_cons.mp hm with hm | hm
      · revert hm
        decide
      · exact slash_notMem_format h hm
  nonempty hn := by
    have hlen := hn ▸ key.length_text
    exact absurd hlen (by decide)
  dot hn := by
    have hlen := hn ▸ key.length_text
    exact absurd hlen (by decide)
  dots hn := by
    have hlen := hn ▸ key.length_text
    exact absurd hlen (by decide)

theorem path_inj {basePath : List Char} (h : key.Valid) (h' : key'.Valid)
    (hp : LocalStorage.path basePath key.text = LocalStorage.path basePath key'.text) :
    key = key' :=
  text_injective (String.toList_injective
    (joinPath_inj (isFileName_text h).slash (isFileName_text h').slash hp))

end AudioKey

end AiBadge
