import Mathlib.Data.List.Basic
import Mathlib.Data.UInt

/-! The 64-bit FNV-1a step. A step is a bijection of the state for each byte, since its
factor is odd, and for each state it tells bytes apart; so does a string of steps in each
of its bytes. -/
namespace Fnv

def prime : UInt64 := 0x100000001b3

def offsetBasis : UInt64 := 0xcbf29ce484222325

def mix (h : UInt64) (byte : UInt8) : UInt64 := (h ^^^ byte.toUInt64) * prime

def absorb (h : UInt64) (bytes : List UInt8) : UInt64 := bytes.foldl mix h

/-- The inverse of the prime modulo `2 ^ 64`. -/
def inverse : UInt64 := 0xce965057aff6957b

theorem prime_mul_inverse : prime * inverse = 1 := by decide

theorem mul_prime_injective {x y : UInt64} (same : x * prime = y * prime) : x = y := by
  have undone := congrArg (· * inverse) same
  simpa only [UInt64.mul_assoc, prime_mul_inverse, UInt64.mul_one] using undone

theorem mix_state {h k : UInt64} {byte : UInt8} (same : mix h byte = mix k byte) : h = k :=
  (UInt64.xor_left_inj _).mp (mul_prime_injective same)

theorem mix_byte {h : UInt64} {a b : UInt8} (same : mix h a = mix h b) : a = b :=
  UInt8.toUInt64_inj.mp ((UInt64.xor_right_inj _).mp (mul_prime_injective same))

@[simp] theorem absorb_nil (h : UInt64) : absorb h [] = h := rfl

@[simp] theorem absorb_cons (h : UInt64) (byte : UInt8) (bytes : List UInt8) :
    absorb h (byte :: bytes) = absorb (mix h byte) bytes := rfl

theorem absorb_append (h : UInt64) (first second : List UInt8) :
    absorb h (first ++ second) = absorb (absorb h first) second := List.foldl_append

theorem absorb_state {h k : UInt64} {bytes : List UInt8} (same : absorb h bytes = absorb k bytes) : h = k := by
  induction bytes generalizing h k with
  | nil => exact same
  | cons byte bytes ih => exact mix_state (ih same)

/-- The two strings differ in one byte. -/
def OneByte (bytes edited : List UInt8) : Prop :=
  ∃ front a b back, a ≠ b ∧ bytes = front ++ a :: back ∧ edited = front ++ b :: back

theorem OneByte.append {bytes edited : List UInt8} (one : OneByte bytes edited) (before after : List UInt8) :
    OneByte (before ++ bytes ++ after) (before ++ edited ++ after) := by
  obtain ⟨front, a, b, back, differ, rfl, rfl⟩ := one
  exact ⟨before ++ front, a, b, back ++ after, differ, by simp, by simp⟩

theorem OneByte.absorb_ne {bytes edited : List UInt8} (one : OneByte bytes edited) (h : UInt64) :
    absorb h bytes ≠ absorb h edited := by
  obtain ⟨front, a, b, back, differ, rfl, rfl⟩ := one
  intro same
  rw [absorb_append, absorb_append, absorb_cons, absorb_cons] at same
  exact differ (mix_byte (absorb_state same))

end Fnv
