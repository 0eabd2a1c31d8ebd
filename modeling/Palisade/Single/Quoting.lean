import Palisade.Http.Header
import Palisade.Lua.Lexer
import Palisade.Single.Semantic

/-! The text of the conditions of a semantic lock. Fields and values come from callers and
stand between single quotes in a script that the store executes; what its lexer reads back
is the field or value for exactly those without a backslash or a line break. -/
namespace Palisade.Semantic
open Http Lua

/-- Only the quotes are escaped. -/
def esc (s : String) : String :=
  String.ofList (s.toList.flatMap fun letter => if letter = '\'' then ['\\', '\''] else [letter])

/-- A field or value in the script. -/
def literal (s : String) : String := "'" ++ esc s ++ "'"

/-- The text of a condition, with the rendering of thresholds. -/
def Predicate.toLua (display : N → String) : Predicate N → String
  | .equals field value =>
    "(redis.call('HGET', KEYS[3], " ++ literal field ++ ") == " ++ literal value ++ ")"
  | .fieldGt field value =>
    "((tonumber(redis.call('HGET', KEYS[3], " ++ literal field ++ ")) or -999999) > " ++ display value ++ ")"
  | .absent field => "(redis.call('HEXISTS', KEYS[3], " ++ literal field ++ ") == 0)"

/-- No backslash and no line break. -/
def Plain (s : String) : Prop := ∀ letter ∈ s.toList, letter ≠ '\\' ∧ letter ≠ '\n' ∧ letter ≠ '\r'

instance (s : String) : Decidable (Plain s) := inferInstanceAs (Decidable (∀ _ ∈ _, _))

/-- `esc` on bytes. -/
def escByte (byte : UInt8) : List UInt8 := if byte = quote then [backslash, quote] else [byte]

/-- A byte that `esc` leaves although a literal cannot hold it as it is. -/
def breaking (byte : UInt8) : Bool := lineEnd byte || decide (byte = backslash)

theorem utf8_append (first second : String) : utf8 (first ++ second) = utf8 first ++ utf8 second := by
  simp [utf8]

theorem utf8_esc (s : String) : utf8 (esc s) = (utf8 s).flatMap escByte := by
  simp only [utf8, esc, String.toList_ofList]
  induction s.toList with
  | nil => rfl
  | cons letter rest ih =>
    rw [List.flatMap_cons, List.flatMap_append, ih, List.flatMap_cons, List.flatMap_append]
    congr 1
    by_cases quoted : letter = '\''
    · subst quoted
      decide
    · have other : ∀ byte ∈ String.utf8EncodeChar letter, escByte byte = [byte] := by
        intro byte inside
        refine if_neg ?_
        rintro rfl
        exact quoted (Char.toNat_inj.mp ((mem_utf8EncodeChar (by decide)).mp inside))
      rw [if_neg quoted, List.flatMap_congr other]
      simp

theorem length_escaped (bytes : List UInt8) :
    (bytes.flatMap escByte).length = bytes.length + bytes.countP fun byte => decide (byte = quote) := by
  induction bytes with
  | nil => rfl
  | cons byte bytes ih =>
    by_cases quoted : byte = quote
    · simp [escByte, quoted, ih]
      omega
    · simp [escByte, quoted, ih]
      omega

theorem countP_special (bytes : List UInt8) : bytes.countP (special quote) =
    (bytes.countP fun byte => decide (byte = quote)) + bytes.countP breaking := by
  induction bytes with
  | nil => rfl
  | cons byte bytes ih =>
    by_cases quoted : byte = quote
    · have breaks : breaking quote = false := by decide
      have counted : special quote quote = true := by decide
      simp [quoted, breaks, counted, ih]
      omega
    · have same : special quote byte = breaking byte := by simp [special, breaking, quoted]
      simp [List.countP_cons, same, quoted, ih]
      omega

theorem readBody_escaped {bytes : List UInt8} (rest : List UInt8)
    (clean : ∀ byte ∈ bytes, breaking byte = false) :
    readBody quote (bytes.flatMap escByte ++ quote :: rest) = .ok (bytes, rest) := by
  induction bytes with
  | nil => exact readBody_delimiter
  | cons byte bytes ih =>
    have before := ih fun other member => clean other (List.mem_cons_of_mem _ member)
    by_cases quoted : byte = quote
    · subst quoted
      have escaped (input : List UInt8) : escape (quote :: input) = .ok ([quote], input) := rfl
      simp only [List.flatMap_cons, escByte, if_pos, List.cons_append, List.nil_append,
        readBody_escape (show backslash ≠ quote by decide), escaped]
      exact followed_eq_ok.mpr ⟨bytes, before, rfl⟩
    · have plain : special quote byte = false := by
        have head := clean byte List.mem_cons_self
        simp only [breaking] at head
        simp [special, quoted, Bool.or_eq_false_iff.mp head]
      simp only [List.flatMap_cons, escByte, if_neg quoted, List.cons_append, List.nil_append,
        readBody_plain plain]
      exact followed_eq_ok.mpr ⟨bytes, before, rfl⟩

theorem plain_utf8 (s : String) : (∀ byte ∈ utf8 s, breaking byte = false) ↔ Plain s := by
  have named (letter : Char) (code : Char) (byte : UInt8) (ascii : byte.toNat < 128)
      (same : code.toNat = byte.toNat) : byte ∈ String.utf8EncodeChar letter ↔ letter = code := by
    rw [mem_utf8EncodeChar ascii, ← same, Char.toNat_inj]
  have breaks (letter : Char) : (∀ byte ∈ String.utf8EncodeChar letter, breaking byte = false) ↔
      letter ≠ '\\' ∧ letter ≠ '\n' ∧ letter ≠ '\r' := by
    simp only [ne_eq, ← named letter '\\' backslash (by decide) rfl, ← named letter '\n' lineFeed (by decide) rfl,
      ← named letter '\r' carriageReturn (by decide) rfl, breaking, lineEnd, Bool.or_eq_false_iff,
      decide_eq_false_iff_not]
    grind
  simp only [utf8, List.mem_flatMap, Plain, ← breaks]
  constructor
  · exact fun clean letter member byte inside => clean byte ⟨letter, member, inside⟩
  · rintro clean byte ⟨letter, member, inside⟩
    exact clean letter member byte inside

/-- Whatever follows it, a literal is read back as the text it was made from exactly when
that text has no backslash and no line break. -/
theorem literal_reads_back (s : String) (rest : List UInt8) :
    readString (utf8 (literal s) ++ rest) = .ok (utf8 s, rest) ↔ Plain s := by
  have opening : utf8 "'" = [quote] := by decide
  have text : readString (utf8 (literal s) ++ rest) =
      readBody quote ((utf8 s).flatMap escByte ++ quote :: rest) := by
    simp [literal, utf8_append, opening, utf8_esc, readString]
  rw [text, ← plain_utf8]
  constructor
  · intro read
    have long := length_readBody read
    rw [countP_special] at long
    simp only [List.length_append, length_escaped, List.length_cons] at long
    have none : (utf8 s).countP breaking = 0 := by omega
    simpa using List.countP_eq_zero.mp none
  · exact readBody_escaped rest

/-- A lone backslash escapes the closing quote, and the literal does not end. -/
theorem backslash_breaks_literal :
    ¬ ∀ s, readString (utf8 (literal s)) = .ok (utf8 s, []) := by
  intro always
  have claimed := always "\\"
  have text : utf8 (literal "\\") = [quote, backslash, quote] := by decide
  have escaped : escape [quote] = .ok ([quote], []) := rfl
  rw [text, readString, if_pos (.inl rfl), readBody_escape (by decide), escaped] at claimed
  simp [readBody, followed] at claimed

end Palisade.Semantic
