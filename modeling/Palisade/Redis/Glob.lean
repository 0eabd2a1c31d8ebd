import Mathlib.Data.List.Infix

/-! The patterns of `KEYS` and `SCAN`, byte by byte: `*`, `?`, classes in brackets and `\` in
front of a byte that stands for itself. -/
namespace Redis.Glob

inductive Item where
  | star
  | any
  | byte (byte : UInt8)
  /-- A class; ranges are given by their ends, in either order. -/
  | oneOf (negated : Bool) (ranges : List (UInt8 × UInt8))
  deriving DecidableEq

/-- The ranges of a class and what comes after its bracket. A class that is not closed ends
with the pattern. -/
def ranges : List UInt8 → List (UInt8 × UInt8) × List UInt8
  | [] => ([], [])
  | [first] => if first = 93 then ([], []) else ([(first, first)], [])
  | [first, second] =>
    if first = 92 then ([(second, second)], [])
    else if first = 93 then ([], [second])
    else
      let (members, rest) := ranges [second]
      ((first, first) :: members, rest)
  | first :: second :: third :: rest =>
    if first = 92 then
      let (members, rest) := ranges (third :: rest)
      ((second, second) :: members, rest)
    else if first = 93 then ([], second :: third :: rest)
    else if second = 45 then
      let (members, rest) := ranges rest
      ((first, third) :: members, rest)
    else
      let (members, rest) := ranges (second :: third :: rest)
      ((first, first) :: members, rest)

/-- The items of a pattern of at most `n` bytes. -/
def parse : Nat → List UInt8 → List Item
  | 0, _ => []
  | _ + 1, [] => []
  | n + 1, first :: rest =>
    if first = 42 then .star :: parse n rest
    else if first = 63 then .any :: parse n rest
    else if first = 91 then
      let negated := decide (rest.head? = some 94)
      let (members, rest) := ranges (if negated then rest.tail else rest)
      .oneOf negated members :: parse n rest
    else if first = 92 then
      match rest with
      | [] => [.byte 92]
      | second :: rest => .byte second :: parse n rest
    else .byte first :: parse n rest

/-- The item stands for this byte. The ends of a range compare as unsigned bytes, where the C
code has the `char` of its platform. -/
def Item.admits : Item → UInt8 → Bool
  | .star, _ => false
  | .any, _ => true
  | .byte wanted, given => given = wanted
  | .oneOf negated members, given =>
    (members.any fun (first, last) => decide (min first last ≤ given ∧ given ≤ max first last)) != negated

def accepts : List Item → List UInt8 → Bool
  | [], text => text.isEmpty
  | .star :: items, text => text.tails.any (accepts items)
  | _ :: _, [] => false
  | item :: items, byte :: text => item.admits byte && accepts items text

/-- The pattern matches the text. -/
def glob (pattern text : List UInt8) : Bool := accepts (parse pattern.length pattern) text

/-- A byte that stands for itself in a pattern. -/
def Plain (byte : UInt8) : Prop := byte ≠ 42 ∧ byte ≠ 63 ∧ byte ≠ 91 ∧ byte ≠ 92

theorem accepts_star (text : List UInt8) : accepts [.star] text = true := by
  rw [accepts, List.any_eq_true]
  exact ⟨[], (List.mem_tails _ _).mpr List.nil_suffix, rfl⟩

theorem accepts_bytes (bytes text : List UInt8) :
    accepts (bytes.map .byte ++ [.star]) text = true ↔ bytes <+: text := by
  induction bytes generalizing text with
  | nil => simp [accepts_star]
  | cons byte bytes ih =>
    cases text with
    | nil => simp [accepts]
    | cons letter text =>
      simp only [List.map_cons, List.cons_append, accepts, Item.admits, Bool.and_eq_true, decide_eq_true_eq, ih,
        List.cons_prefix_cons]
      exact and_congr_left fun _ => eq_comm

theorem parse_plain {bytes : List UInt8} (plain : ∀ byte ∈ bytes, Plain byte) :
    parse (bytes ++ [42]).length (bytes ++ [42]) = bytes.map .byte ++ [.star] := by
  induction bytes with
  | nil => rfl
  | cons byte bytes ih =>
    obtain ⟨star, any, bracket, escape⟩ := plain byte List.mem_cons_self
    have rest := ih fun other member => plain other (List.mem_cons_of_mem _ member)
    simp only [List.cons_append, List.length_cons, parse, if_neg star, if_neg any, if_neg bracket, if_neg escape,
      rest, List.map_cons]

/-- Behind plain bytes a star asks for a prefix. -/
theorem glob_plain {bytes : List UInt8} (plain : ∀ byte ∈ bytes, Plain byte) (text : List UInt8) :
    glob (bytes ++ [42]) text = true ↔ bytes <+: text := by
  rw [glob, parse_plain plain, accepts_bytes]

end Redis.Glob
