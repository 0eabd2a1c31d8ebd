import Palisade.BlackBox
import Palisade.Fnv.Short

/-! The seal of a fence. `seal` and `verify` hash the secret, the key, the fence and a time of
issue, one after the other. `seal` is not given the time and hashes 0; `verify` hashes the
time it is given. The clock is a parameter. -/
namespace Palisade.Seal
open Fnv BlackBox Http

/-- `to_be_bytes`, which are the bytes `fence >> shift` as well. -/
def toBeBytes (word : UInt64) : List UInt8 := fenceBytes word

def block (secret keyId : List UInt8) (fence ts : UInt64) : List UInt8 :=
  secret ++ keyId ++ fenceBytes fence ++ fenceBytes ts

def hmac (secret keyId : List UInt8) (fence ts : UInt64) : List UInt8 :=
  toBeBytes (absorb offsetBasis (block secret keyId fence ts))

/-- `seal` -/
def fenceSeal (secret : List UInt8) (key : String) (fence : UInt64) : List UInt8 := hmac secret (utf8 key) fence 0

def constantTimeEq (a b : List UInt8) : Bool :=
  if a.length ≠ b.length then false
  else decide ((a.zip b).foldl (fun diff (x, y) => diff ||| (x ^^^ y)) 0 = 0)

/-- `now` is the clock in milliseconds; the subtraction saturates. -/
def verify (secret : List UInt8) (key : String) (fence : UInt64) (sealBytes : List UInt8)
    (issuedAtMs maxAgeMs now : UInt64) : Bool :=
  if 0 < maxAgeMs ∧ maxAgeMs.toNat < now.toNat - issuedAtMs.toNat then false
  else constantTimeEq (hmac secret (utf8 key) fence issuedAtMs) sealBytes

/-- What is hashed before the time of issue. -/
def before (secret : List UInt8) (key : String) (fence : UInt64) : UInt64 :=
  absorb offsetBasis (secret ++ utf8 key ++ fenceBytes fence)

/-- The eight bytes of the time lead where eight zero bytes lead. -/
def Collides (secret : List UInt8) (key : String) (fence ts : UInt64) : Prop :=
  absorb (before secret key fence) (fenceBytes ts) = absorb (before secret key fence) (fenceBytes 0)

theorem foldl_or_eq_zero {pairs : List (UInt8 × UInt8)} {diff : UInt8} :
    pairs.foldl (fun diff (x, y) => diff ||| (x ^^^ y)) diff = 0 ↔ diff = 0 ∧ ∀ pair ∈ pairs, pair.1 = pair.2 := by
  induction pairs generalizing diff with
  | nil => simp
  | cons pair pairs ih =>
    rw [List.foldl_cons, ih, UInt8.or_eq_zero_iff, UInt8.xor_eq_zero_iff, List.forall_mem_cons, and_assoc]

theorem constantTimeEq_iff {a b : List UInt8} : constantTimeEq a b = true ↔ a = b := by
  unfold constantTimeEq
  by_cases lengths : a.length = b.length
  · simp only [lengths, ne_eq, not_true_eq_false, if_false, decide_eq_true_eq, foldl_or_eq_zero, true_and]
    constructor
    · intro same
      refine List.ext_getElem lengths fun i left right => ?_
      have member : (a[i], b[i]) ∈ a.zip b := List.mem_iff_getElem.mpr ⟨i, by simp [left, right], by simp⟩
      exact same _ member
    · rintro rfl pair member
      obtain ⟨i, inside, rfl⟩ := List.mem_iff_getElem.mp member
      simp
  · simp only [ne_eq, lengths, not_false_eq_true, if_true, Bool.false_eq_true, false_iff]
    exact fun same => lengths (congrArg List.length same)

theorem fenceBytes_toNat (word : UInt64) : (fenceBytes word).map UInt8.toNat =
    [word.toNat / 2 ^ 56 % 256, word.toNat / 2 ^ 48 % 256, word.toNat / 2 ^ 40 % 256, word.toNat / 2 ^ 32 % 256,
      word.toNat / 2 ^ 24 % 256, word.toNat / 2 ^ 16 % 256, word.toNat / 2 ^ 8 % 256, word.toNat % 256] := by
  simp [fenceBytes, UInt64.toNat_shiftRight, Nat.shiftRight_eq_div_pow]

theorem fenceBytes_injective : Function.Injective fenceBytes := by
  intro x y same
  have bytes := congrArg (List.map UInt8.toNat) same
  rw [fenceBytes_toNat, fenceBytes_toNat] at bytes
  simp only [List.cons.injEq, and_true] at bytes
  have left := x.toNat_lt
  have right := y.toNat_lt
  apply UInt64.toNat_inj.mp
  omega

theorem hmac_eq_iff {secret : List UInt8} {key : String} {fence ts : UInt64} :
    hmac secret (utf8 key) fence ts = fenceSeal secret key fence ↔ Collides secret key fence ts := by
  rw [fenceSeal, hmac, hmac, toBeBytes, toBeBytes, fenceBytes_injective.eq_iff, block, block, absorb_append,
    absorb_append _ _ (fenceBytes 0)]
  rfl

/-- The last six bytes of a word below `2 ^ 48` behind two zero bytes. -/
theorem fenceBytes_short {word : UInt64} (short : word.toNat < 2 ^ 48) :
    ∃ last, last.length = 6 ∧ fenceBytes word = 0 :: 0 :: last := by
  refine ⟨(fenceBytes word).drop 2, rfl, ?_⟩
  have first : (word >>> 56).toUInt8 = 0 := by
    apply UInt8.toNat_inj.mp
    simp [UInt64.toNat_shiftRight, Nat.shiftRight_eq_div_pow]
    omega
  have second : (word >>> 48).toUInt8 = 0 := by
    apply UInt8.toNat_inj.mp
    simp [UInt64.toNat_shiftRight, Nat.shiftRight_eq_div_pow]
    omega
  rw [fenceBytes, List.map_cons, List.map_cons, first, second]
  rfl

/-- Before the year 10889 only the time 0 hashes like 0. -/
theorem collides_short {secret : List UInt8} {key : String} {fence ts : UInt64} (short : ts.toNat < 2 ^ 48)
    (collides : Collides secret key fence ts) : ts = 0 := by
  obtain ⟨last, six, bytes⟩ := fenceBytes_short short
  obtain ⟨zeros, lengths, zero⟩ := fenceBytes_short (show (0 : UInt64).toNat < 2 ^ 48 by decide)
  rw [Collides, bytes, zero, absorb_cons, absorb_cons, absorb_cons, absorb_cons] at collides
  rw [absorb_six six lengths collides, ← zero] at bytes
  exact fenceBytes_injective bytes

theorem verify_eq_true_iff {secret sealBytes : List UInt8} {key : String} {fence issuedAtMs maxAgeMs now : UInt64} :
    verify secret key fence sealBytes issuedAtMs maxAgeMs now = true ↔
      (0 < maxAgeMs → now.toNat - issuedAtMs.toNat ≤ maxAgeMs.toNat) ∧
        hmac secret (utf8 key) fence issuedAtMs = sealBytes := by
  unfold verify
  split
  · next stale =>
    simp only [Bool.false_eq_true, false_iff, not_and]
    intro fresh
    exact absurd (fresh stale.1) (Nat.not_le.mpr stale.2)
  · next fresh =>
    simp only [not_and, Nat.not_lt] at fresh
    rw [constantTimeEq_iff]
    exact (and_iff_right fresh).symm

/-- A seal within its age verifies exactly if it was issued at 0, or at a time from `2 ^ 48` on
whose bytes collide with those of 0. -/
theorem fresh_seal_verifies_iff (secret : List UInt8) (key : String) (fence : UInt64) {issuedAtMs maxAgeMs now : UInt64}
    (issued : issuedAtMs ≤ now) (fresh : now - issuedAtMs ≤ maxAgeMs) :
    verify secret key fence (fenceSeal secret key fence) issuedAtMs maxAgeMs now = true ↔
      issuedAtMs = 0 ∨ 2 ^ 48 ≤ issuedAtMs.toNat ∧ Collides secret key fence issuedAtMs := by
  have age : now.toNat - issuedAtMs.toNat ≤ maxAgeMs.toNat := by
    rw [← UInt64.toNat_sub_of_le _ _ issued]
    exact UInt64.le_iff_toNat_le.mp fresh
  rw [verify_eq_true_iff, hmac_eq_iff, and_iff_right fun _ => age]
  constructor
  · intro collides
    by_cases short : issuedAtMs.toNat < 2 ^ 48
    · exact .inl (collides_short short collides)
    · exact .inr ⟨Nat.not_lt.mp short, collides⟩
  · rintro (rfl | ⟨_, collides⟩)
    · rfl
    · exact collides

/-- A seal of the epoch, checked a second later. -/
theorem epoch_seal_verifies :
    verify [115] "orders/42" 7 (fenceSeal [115] "orders/42" 7) 0 60000 1000 = true :=
  (fresh_seal_verifies_iff [115] "orders/42" 7 (by decide) (by decide)).mpr (.inl rfl)

/-- A seal of the year 2025, checked at once. -/
theorem fresh_seal_refused : ¬ ∀ (secret : List UInt8) (key : String) (fence issuedAtMs now maxAgeMs : UInt64),
    issuedAtMs ≤ now → 0 < maxAgeMs → now - issuedAtMs ≤ maxAgeMs →
      verify secret key fence (fenceSeal secret key fence) issuedAtMs maxAgeMs now = true := by
  intro verifies
  have verified := verifies [115] "orders/42" 7 1763000000000 1763000000000 60000 (by decide) (by decide) (by decide)
  rw [verify_eq_true_iff, hmac_eq_iff] at verified
  exact absurd (collides_short (by decide) verified.2) (by decide)

end Palisade.Seal
