import Mathlib.Algebra.Group.Nat.Defs

/-! The backend-neutral vocabulary: durations, acquisition options, errors and
fencing tokens. -/
namespace Palisade

/-- A `std::time::Duration`: at most `2 ^ 64 - 1` seconds and a fraction. -/
structure Duration where
  nanos : Nat
  fits : nanos < 2 ^ 64 * 10 ^ 9
  deriving DecidableEq

namespace Duration

def fromMillis (ms : UInt64) : Duration where
  nanos := ms.toNat * 10 ^ 6
  fits := by
    have := ms.toNat_lt
    omega

/-- `as_millis`: whole milliseconds, as a `u128`. -/
def asMillis (d : Duration) : Nat := d.nanos / 10 ^ 6

/-- `as_millis() as u64`, which keeps the low 64 bits. -/
def asMillisU64 (d : Duration) : Nat := d.asMillis % 2 ^ 64

/-- The digits of a fraction of the given width, without trailing zeros. -/
def fractionDigits : Nat → Nat → List Char
  | 0, _ => []
  | width + 1, fraction =>
    if fraction = 0 then []
    else (fraction / 10 ^ width).digitChar :: fractionDigits width (fraction % 10 ^ width)

def decimal (whole width fraction : Nat) : String :=
  match fractionDigits width fraction with
  | [] => toString whole
  | digits => toString whole ++ "." ++ String.ofList digits

/-- The `{:?}` rendering. -/
def debug (d : Duration) : String :=
  if 10 ^ 9 ≤ d.nanos then decimal (d.nanos / 10 ^ 9) 9 (d.nanos % 10 ^ 9) ++ "s"
  else if 10 ^ 6 ≤ d.nanos then decimal (d.nanos / 10 ^ 6) 6 (d.nanos % 10 ^ 6) ++ "ms"
  else if 10 ^ 3 ≤ d.nanos then decimal (d.nanos / 10 ^ 3) 3 (d.nanos % 10 ^ 3) ++ "µs"
  else toString d.nanos ++ "ns"

end Duration

inductive Error where
  | timeout (key : String)
  | held (key : String)
  | lost (key : String) (fence : Nat)
  | invalidConfig (message : String)
  | backend (message : String)
  deriving DecidableEq

/-- What becomes of one request to a store. -/
inductive Fate where
  | executes
  /-- It fails with this backend error and has no effect. -/
  | fails (message : String)
  deriving DecidableEq

/-- Floor for lease TTLs. -/
def minTtl : Duration := .fromMillis 10

structure LockOptions where
  ttl : Duration
  deriving DecidableEq

def LockOptions.validate (options : LockOptions) : Except Error Unit :=
  if options.ttl.nanos < minTtl.nanos then
    .error (.invalidConfig s!"ttl {options.ttl.debug} is below the {minTtl.debug} floor")
  else .ok ()

structure FencingToken where
  value : Nat
  deriving DecidableEq

/-- The sentinel used when no lock has ever been granted. -/
def FencingToken.zero : FencingToken := ⟨0⟩

/-- Strictly newer than `lastSeen`: the fenced operation may proceed. -/
def FencingToken.supersedes (token lastSeen : FencingToken) : Bool :=
  decide (lastSeen.value < token.value)

@[simp] theorem FencingToken.supersedes_iff {token lastSeen : FencingToken} :
    token.supersedes lastSeen = true ↔ lastSeen.value < token.value := by
  simp [supersedes]

/-- A fenced resource remembers the last token it accepted. -/
structure Resource where
  last : FencingToken
  deriving DecidableEq

/-- `some` with the new state when the write is accepted. -/
def Resource.write (resource : Resource) (token : FencingToken) : Option Resource :=
  if token.supersedes resource.last then some ⟨token⟩ else none

theorem Resource.write_eq_none {resource : Resource} {token : FencingToken} :
    resource.write token = none ↔ token.value ≤ resource.last.value := by
  unfold write
  split
  · simpa using FencingToken.supersedes_iff.mp ‹_›
  · simpa using mt FencingToken.supersedes_iff.mpr ‹_›

end Palisade
