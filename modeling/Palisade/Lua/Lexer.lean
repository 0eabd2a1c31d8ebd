import Mathlib.Data.List.Count
import Mathlib.Data.UInt

/-! String literals of Lua 5.1 between single or double quotes, as its lexer reads them: a
sequence of bytes up to the delimiter, with escapes introduced by a backslash. -/
namespace Lua

inductive LexError where
  | notString
  | unfinishedString
  | escapeTooLarge
  deriving DecidableEq

def quote : UInt8 := 39
def doubleQuote : UInt8 := 34
def backslash : UInt8 := 92
def lineFeed : UInt8 := 10
def carriageReturn : UInt8 := 13

/-- A byte that ends a line. -/
def lineEnd (byte : UInt8) : Bool := decide (byte = lineFeed ∨ byte = carriageReturn)

def isDigit (byte : UInt8) : Bool := decide (48 ≤ byte ∧ byte ≤ 57)

/-- The control character named by a letter. -/
def control (letter : UInt8) : Option UInt8 :=
  if letter = 97 then some 7
  else if letter = 98 then some 8
  else if letter = 102 then some 12
  else if letter = 110 then some lineFeed
  else if letter = 114 then some carriageReturn
  else if letter = 116 then some 9
  else if letter = 118 then some 11
  else none

/-- At most `width` decimal digits, and what follows them. -/
def decimal : Nat → Nat → List UInt8 → Nat × List UInt8
  | width + 1, value, byte :: rest =>
    if isDigit byte then decimal width (10 * value + (byte.toNat - 48)) rest else (value, byte :: rest)
  | _, value, rest => (value, rest)

/-- A line end may be a pair of two different bytes. -/
def skipPaired (first : UInt8) : List UInt8 → List UInt8
  | [] => []
  | byte :: rest => if lineEnd byte ∧ byte ≠ first then rest else byte :: rest

/-- What follows a backslash: the bytes it stands for and the rest. At the end of the
text there is none, and the literal is found unfinished next. -/
def escape : List UInt8 → Except LexError (List UInt8 × List UInt8)
  | [] => .ok ([], [])
  | byte :: rest =>
    match control byte with
    | some code => .ok ([code], rest)
    | none =>
      if lineEnd byte then .ok ([lineFeed], skipPaired byte rest)
      else if isDigit byte then
        let (value, rest) := decimal 3 0 (byte :: rest)
        if 255 < value then .error .escapeTooLarge else .ok ([UInt8.ofNat value], rest)
      else .ok ([byte], rest)

theorem length_decimal (width value : Nat) (input : List UInt8) :
    (decimal width value input).2.length ≤ input.length := by
  fun_induction decimal width value input with
  | case1 width value byte rest digit ih =>
    rw [List.length_cons]
    omega
  | case2 => exact Nat.le_refl _
  | case3 => exact Nat.le_refl _

theorem length_decimal_digit {byte : UInt8} (digit : isDigit byte = true) (width value : Nat)
    (rest : List UInt8) : (decimal (width + 1) value (byte :: rest)).2.length ≤ rest.length := by
  rw [decimal, if_pos digit]
  exact length_decimal width _ rest

theorem length_skipPaired (first : UInt8) (input : List UInt8) :
    (skipPaired first input).length ≤ input.length := by
  unfold skipPaired
  split
  · exact Nat.le_refl _
  · split
    · exact Nat.le_succ _
    · exact Nat.le_refl _

/-- An escape takes a byte for each byte it stands for. -/
theorem length_escape {input saved rest : List UInt8} (escaped : escape input = .ok (saved, rest)) :
    saved.length ≤ 1 ∧ saved.length + rest.length ≤ input.length := by
  unfold escape at escaped
  split at escaped
  · cases escaped
    exact ⟨Nat.zero_le _, Nat.le_refl _⟩
  · rename_i byte following
    split at escaped
    · cases escaped
      exact ⟨Nat.le_refl _, by simp [Nat.add_comm]⟩
    · split at escaped
      · cases escaped
        have shorter := length_skipPaired byte following
        exact ⟨Nat.le_refl _, by simp; omega⟩
      · split at escaped
        · rename_i digit
          have shorter := length_decimal_digit digit 2 0 following
          obtain ⟨value, after, digits⟩ : ∃ value after, decimal 3 0 (byte :: following) = (value, after) :=
            ⟨_, _, rfl⟩
          simp only [Nat.reduceAdd, digits] at escaped shorter
          by_cases large : 255 < value
          · simp only [if_pos large] at escaped
            contradiction
          · simp only [if_neg large] at escaped
            cases escaped
            exact ⟨Nat.le_refl _, by simp; omega⟩
        · cases escaped
          exact ⟨Nat.le_refl _, by simp [Nat.add_comm]⟩

/-- The bytes of an escape or a plain byte in front of the rest of the literal. -/
def followed (saved : List UInt8) :
    Except LexError (List UInt8 × List UInt8) → Except LexError (List UInt8 × List UInt8)
  | .error error => .error error
  | .ok (content, rest) => .ok (saved ++ content, rest)

theorem followed_eq_ok {saved content rest : List UInt8}
    {read : Except LexError (List UInt8 × List UInt8)} :
    followed saved read = .ok (content, rest) ↔
      ∃ inner, read = .ok (inner, rest) ∧ content = saved ++ inner := by
  unfold followed
  split <;> grind

/-- The rest of a literal: its content and what follows the closing delimiter. -/
def readBody (delimiter : UInt8) (input : List UInt8) : Except LexError (List UInt8 × List UInt8) :=
  match input with
  | [] => .error .unfinishedString
  | byte :: rest =>
    if byte = delimiter then .ok ([], rest)
    else if lineEnd byte then .error .unfinishedString
    else if byte = backslash then
      match _escaped : escape rest with
      | .error error => .error error
      | .ok (saved, rest) => followed saved (readBody delimiter rest)
    else followed [byte] (readBody delimiter rest)
termination_by input.length
decreasing_by
  · have shorter := (length_escape ‹escape _ = _›).2
    simp only [List.length_cons]
    omega
  · simp

def readString : List UInt8 → Except LexError (List UInt8 × List UInt8)
  | delimiter :: rest =>
    if delimiter = quote ∨ delimiter = doubleQuote then readBody delimiter rest else .error .notString
  | [] => .error .notString

/-- A byte that only an escape puts into a literal. -/
def special (delimiter byte : UInt8) : Bool :=
  decide (byte = delimiter) || lineEnd byte || decide (byte = backslash)

section
variable {delimiter byte : UInt8} {input content rest : List UInt8}

theorem readBody_delimiter : readBody delimiter (delimiter :: rest) = .ok ([], rest) := by
  rw [readBody, if_pos rfl]

theorem readBody_plain (plain : special delimiter byte = false) :
    readBody delimiter (byte :: input) = followed [byte] (readBody delimiter input) := by
  simp only [special, Bool.or_eq_false_iff, decide_eq_false_iff_not] at plain
  obtain ⟨⟨inside, same⟩, unescaped⟩ := plain
  rw [readBody, if_neg inside, if_neg (by simp [same]), if_neg unescaped]

theorem readBody_escape (inside : backslash ≠ delimiter) : readBody delimiter (backslash :: input) =
    match escape input with
    | .error error => .error error
    | .ok (saved, rest) => followed saved (readBody delimiter rest) := by
  rw [readBody, if_neg inside, if_neg (by decide), if_pos rfl]
  split <;> simp only [*]

/-- The content and its special bytes together are no longer than the text they were read
from: each special byte was written with at least one byte more. -/
theorem length_readBody (read : readBody delimiter input = .ok (content, rest)) :
    content.length + content.countP (special delimiter) + 1 + rest.length ≤ input.length := by
  induction input using readBody.induct delimiter generalizing content rest with
  | case1 => simp [readBody] at read
  | case2 following =>
    rw [readBody_delimiter] at read
    cases read
    simp [Nat.add_comm]
  | case3 byte following inside line =>
    rw [readBody, if_neg inside, if_pos line] at read
    contradiction
  | case4 following error escaped inside line =>
    rw [readBody_escape inside, escaped] at read
    contradiction
  | case5 following saved after escaped inside line ih =>
    rw [readBody_escape inside, escaped] at read
    obtain ⟨inner, before, rfl⟩ := followed_eq_ok.mp read
    have shorter := ih before
    have taken := length_escape escaped
    have counted := List.countP_le_length (p := special delimiter) (l := saved)
    simp only [List.length_append, List.countP_append, List.length_cons]
    omega
  | case6 byte following inside line unescaped ih =>
    have plain : special delimiter byte = false := by simp [special, inside, line, unescaped]
    rw [readBody_plain plain] at read
    obtain ⟨inner, before, rfl⟩ := followed_eq_ok.mp read
    have shorter := ih before
    rw [List.singleton_append, List.countP_cons_of_neg (by simp [plain])]
    simp only [List.length_cons]
    omega

end
end Lua
