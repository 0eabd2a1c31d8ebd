import Mathlib.Data.UInt

/-! Values of HTTP headers. A value is a sequence of bytes; only one of visible ASCII can be
read as text. -/
namespace Http

/-- The bytes of a text. -/
def utf8 (text : String) : List UInt8 := text.toList.flatMap String.utf8EncodeChar

/-- A byte that may stand in a header. -/
def headerByte (byte : UInt8) : Bool := decide (32 ≤ byte.toNat ∧ byte.toNat ≠ 127 ∨ byte.toNat = 9)

structure HeaderValue where
  bytes : List UInt8
  valid : bytes.all headerByte = true
  deriving DecidableEq

def visibleCode (code : Nat) : Bool := decide (32 ≤ code ∧ code < 127 ∨ code = 9)

/-- A text of visible ASCII characters, spaces and tabs. -/
def Visible (text : String) : Prop := ∀ letter ∈ text.toList, visibleCode letter.toNat = true

instance (text : String) : Decidable (Visible text) := inferInstanceAs (Decidable (∀ _ ∈ _, _))

/-- `to_str`: the text of a value, if it is visible ASCII. -/
def HeaderValue.toStr (value : HeaderValue) : Option String :=
  if value.bytes.all fun byte => visibleCode byte.toNat then
    some (String.ofList (value.bytes.map fun byte => Char.ofNat byte.toNat))
  else none

theorem utf8EncodeChar_of_ascii {letter : Char} (ascii : letter.toNat < 128) :
    String.utf8EncodeChar letter = [UInt8.ofNat letter.toNat] := by
  have size : letter.utf8Size = 1 := by
    rw [Char.utf8Size_eq_one_iff, UInt32.le_iff_toNat_le]
    exact Nat.le_of_lt_succ ascii
  rw [String.utf8EncodeChar_eq_singleton size]
  rfl

/-- The bytes of a character beyond ASCII are all beyond ASCII. -/
theorem utf8EncodeChar_high {letter : Char} (high : 128 ≤ letter.toNat) :
    ∀ byte ∈ String.utf8EncodeChar letter, 128 ≤ byte.toNat := by
  have flagged (byte flag : UInt8) (set : 128 ≤ flag.toNat) : 128 ≤ (byte ||| flag).toNat := by
    rw [UInt8.toNat_or]
    exact set.trans Nat.right_le_or
  have large : letter.utf8Size ≠ 1 := by
    intro size
    rw [Char.utf8Size_eq_one_iff, UInt32.le_iff_toNat_le] at size
    have code : letter.val.toNat = letter.toNat := rfl
    have bound : (127 : UInt32).toNat = 127 := rfl
    omega
  have positive := letter.utf8Size_pos
  have most := letter.utf8Size_le_four
  obtain two | three | four : letter.utf8Size = 2 ∨ letter.utf8Size = 3 ∨ letter.utf8Size = 4 := by omega
  · rw [String.utf8EncodeChar_eq_cons_cons two]
    simp only [List.forall_mem_cons]
    exact ⟨flagged _ _ (by decide), flagged _ _ (by decide), List.forall_mem_nil _⟩
  · rw [String.utf8EncodeChar_eq_cons_cons_cons three]
    simp only [List.forall_mem_cons]
    exact ⟨flagged _ _ (by decide), flagged _ _ (by decide), flagged _ _ (by decide), List.forall_mem_nil _⟩
  · rw [String.utf8EncodeChar_eq_cons_cons_cons_cons four]
    simp only [List.forall_mem_cons]
    exact ⟨flagged _ _ (by decide), flagged _ _ (by decide), flagged _ _ (by decide), flagged _ _ (by decide),
      List.forall_mem_nil _⟩

theorem toNat_ofNat_of_ascii {code : Nat} (ascii : code < 128) : (Char.ofNat code).toNat = code := by
  have valid : code.isValidChar := .inl (by omega)
  rw [Char.ofNat, dif_pos valid]
  rfl

theorem toNat_of_ascii {code : Nat} (ascii : code < 128) : (UInt8.ofNat code).toNat = code :=
  UInt8.toNat_ofNat_of_lt' (ascii.trans (by decide))

/-- An ASCII byte stands for itself only. -/
theorem mem_utf8EncodeChar {letter : Char} {byte : UInt8} (ascii : byte.toNat < 128) :
    byte ∈ String.utf8EncodeChar letter ↔ letter.toNat = byte.toNat := by
  obtain low | high := Nat.lt_or_ge letter.toNat 128
  · rw [utf8EncodeChar_of_ascii low, List.mem_singleton, ← UInt8.toNat_inj, toNat_of_ascii low, eq_comm]
  · constructor
    · intro inside
      have large := utf8EncodeChar_high high byte inside
      omega
    · omega

theorem ascii_of_visible {code : Nat} (visible : visibleCode code = true) : code < 128 := by
  simp only [visibleCode, decide_eq_true_eq] at visible
  omega

/-- Bytes of visible ASCII are the bytes of the text they show. -/
theorem utf8_ofList {bytes : List UInt8} (visible : ∀ byte ∈ bytes, visibleCode byte.toNat = true) :
    utf8 (String.ofList (bytes.map fun byte => Char.ofNat byte.toNat)) = bytes := by
  simp only [utf8, String.toList_ofList]
  induction bytes with
  | nil => rfl
  | cons byte bytes ih =>
    have code := toNat_ofNat_of_ascii (ascii_of_visible (visible byte List.mem_cons_self))
    have head : String.utf8EncodeChar (Char.ofNat byte.toNat) = [byte] := by
      rw [utf8EncodeChar_of_ascii (by rw [code]; exact ascii_of_visible (visible byte List.mem_cons_self)), code,
        UInt8.ofNat_toNat]
    simp only [List.map_cons, List.flatMap_cons, head, ih fun other member => visible other (List.mem_cons_of_mem _ member)]
    rfl

/-- The bytes of a text are visible exactly if the text is. -/
theorem visible_utf8 (text : String) : (∀ byte ∈ utf8 text, visibleCode byte.toNat = true) ↔ Visible text := by
  simp only [utf8, List.mem_flatMap, Visible]
  constructor
  · intro visible letter member
    obtain ascii | high := Nat.lt_or_ge letter.toNat 128
    · have byte := visible (UInt8.ofNat letter.toNat) ⟨letter, member, by simp [utf8EncodeChar_of_ascii ascii]⟩
      rwa [toNat_of_ascii ascii] at byte
    · obtain ⟨byte, inside⟩ := List.exists_mem_of_length_pos
        (String.length_utf8EncodeChar letter ▸ letter.utf8Size_pos)
      have large := utf8EncodeChar_high high byte inside
      have small := ascii_of_visible (visible byte ⟨letter, member, inside⟩)
      omega
  · rintro visible byte ⟨letter, member, inside⟩
    have ascii := ascii_of_visible (visible letter member)
    rw [utf8EncodeChar_of_ascii ascii] at inside
    obtain rfl := List.mem_singleton.mp inside
    rw [toNat_of_ascii ascii]
    exact visible letter member

/-- A visible text can be read off its bytes. -/
theorem ofList_utf8 {text : String} (visible : Visible text) :
    String.ofList ((utf8 text).map fun byte => Char.ofNat byte.toNat) = text := by
  apply String.toList_inj.mp
  simp only [String.toList_ofList, utf8]
  unfold Visible at visible
  generalize text.toList = letters at visible
  induction letters with
  | nil => rfl
  | cons letter rest ih =>
    have ascii := ascii_of_visible (visible letter List.mem_cons_self)
    have code : (UInt8.ofNat letter.toNat).toNat = letter.toNat := toNat_of_ascii ascii
    rw [List.flatMap_cons, utf8EncodeChar_of_ascii ascii, List.map_append,
      ih fun other member => visible other (List.mem_cons_of_mem _ member)]
    simp [code]

namespace HeaderValue
variable {value : HeaderValue} {text : String}

/-- What `to_str` reads is what the bytes say. -/
theorem toStr_eq_some : value.toStr = some text ↔ value.bytes = utf8 text ∧ Visible text := by
  simp only [toStr, Option.ite_none_right_eq_some, List.all_eq_true, Option.some.injEq]
  constructor
  · rintro ⟨visible, rfl⟩
    have bytes := utf8_ofList visible
    exact ⟨bytes.symm, (visible_utf8 _).mp (bytes.symm ▸ visible)⟩
  · rintro ⟨same, visible⟩
    rw [same]
    exact ⟨(visible_utf8 text).mpr visible, ofList_utf8 visible⟩

end HeaderValue

end Http
