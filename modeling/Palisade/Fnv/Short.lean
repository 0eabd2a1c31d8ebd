import Mathlib.Data.Int.ModEq
import Mathlib.Tactic.LinearCombination
import Mathlib.Tactic.Ring
import Palisade.Fnv

/-! Strings of six bytes are told apart from any state. A byte changes the state before the
multiplication by a small number, so two strings that end in one state give a small relation
between the powers of the prime modulo `2 ^ 64`. There is none between the first six: in the
lattice of the relations every coordinate, with respect to a basis of short vectors, is less
than one. -/
namespace Fnv

theorem xor_byte (h : UInt64) (byte : UInt8) : (h ^^^ byte.toUInt64).toNat =
    h.toNat / 256 * 256 + (h.toNat % 256 ^^^ byte.toNat) := by
  rw [UInt64.toNat_xor, UInt8.toNat_toUInt64]
  have high : (h.toNat ^^^ byte.toNat) / 256 = h.toNat / 256 := by
    have quotient := Nat.xor_div_two_pow (a := h.toNat) (b := byte.toNat) (n := 8)
    simp only [Nat.reducePow] at quotient
    rw [quotient, Nat.div_eq_of_lt byte.toNat_lt, Nat.xor_zero]
  have low : (h.toNat ^^^ byte.toNat) % 256 = h.toNat % 256 ^^^ byte.toNat := by
    have rest := Nat.xor_mod_two_pow (a := h.toNat) (b := byte.toNat) (n := 8)
    simp only [Nat.reducePow] at rest
    rw [rest, Nat.mod_eq_of_lt byte.toNat_lt]
  omega

/-- How much two bytes change the difference of two states before the multiplication. -/
def offset (h k : UInt64) (a b : UInt8) : Int :=
  ((h ^^^ a.toUInt64).toNat - h.toNat) - ((k ^^^ b.toUInt64).toNat - k.toNat)

theorem offset_le (h k : UInt64) (a b : UInt8) : (offset h k a b).natAbs ≤ 510 := by
  have first := xor_byte h a
  have second := xor_byte k b
  have low (x : Nat) (byte : UInt8) : x % 256 ^^^ byte.toNat < 256 :=
    Nat.xor_lt_two_pow (n := 8) (Nat.mod_lt _ (by decide)) byte.toNat_lt
  have first_low := low h.toNat a
  have second_low := low k.toNat b
  rw [offset]
  omega

theorem mix_offset (h k : UInt64) (a b : UInt8) :
    ((mix h a).toNat - (mix k b).toNat : Int) ≡
      (h.toNat - k.toNat + offset h k a b) * prime.toNat [ZMOD 2 ^ 64] := by
  have product (x : UInt64) : ((x * prime).toNat : Int) ≡ x.toNat * prime.toNat [ZMOD 2 ^ 64] := by
    rw [UInt64.toNat_mul]
    push_cast
    exact Int.mod_modEq _ _
  have regrouped : (h.toNat - k.toNat + offset h k a b) * prime.toNat =
      ((h ^^^ a.toUInt64).toNat * prime.toNat - (k ^^^ b.toUInt64).toNat * prime.toNat : Int) := by
    rw [offset]
    ring
  rw [regrouped]
  exact (product _).sub (product _)

/-- The offsets of two strings. -/
def offsets (h k : UInt64) : List UInt8 → List UInt8 → List Int
  | a :: first, b :: second => offset h k a b :: offsets (mix h a) (mix k b) first second
  | _, _ => []

theorem length_offsets {first second : List UInt8} (lengths : first.length = second.length) (h k : UInt64) :
    (offsets h k first second).length = first.length := by
  induction first generalizing second h k with
  | nil => rfl
  | cons a first ih =>
    cases second with
    | nil => contradiction
    | cons b second => exact congrArg (· + 1) (ih (Nat.succ.inj lengths) _ _)

theorem offsets_le (h k : UInt64) (first second : List UInt8) :
    ∀ offset ∈ offsets h k first second, offset.natAbs ≤ 510 := by
  induction first generalizing second h k with
  | nil => exact nofun
  | cons a first ih =>
    cases second with
    | nil => exact nofun
    | cons b second => exact List.forall_mem_cons.mpr ⟨offset_le h k a b, ih _ _ second⟩

/-- The difference of the states that the offsets lead to. -/
def horner (difference : Int) : List Int → Int
  | [] => difference
  | offset :: rest => horner ((difference + offset) * prime.toNat) rest

theorem horner_modEq {x y : Int} (same : x ≡ y [ZMOD 2 ^ 64]) (offsets : List Int) :
    horner x offsets ≡ horner y offsets [ZMOD 2 ^ 64] := by
  induction offsets generalizing x y with
  | nil => exact same
  | cons offset rest ih => exact ih ((same.add_right _).mul_right _)

theorem absorb_offsets {first second : List UInt8} (lengths : first.length = second.length) (h k : UInt64) :
    ((absorb h first).toNat - (absorb k second).toNat : Int) ≡
      horner (h.toNat - k.toNat) (offsets h k first second) [ZMOD 2 ^ 64] := by
  induction first generalizing second h k with
  | nil =>
    obtain rfl := List.length_eq_zero_iff.mp lengths.symm
    rfl
  | cons a first ih =>
    cases second with
    | nil => contradiction
    | cons b second =>
      refine (ih (Nat.succ.inj lengths) _ _).trans ?_
      exact horner_modEq (mix_offset h k a b) _

theorem eq_of_offsets {first second : List UInt8} (lengths : first.length = second.length) {h : UInt64}
    (none : ∀ offset ∈ offsets h h first second, offset = 0) : first = second := by
  induction first generalizing second h with
  | nil => exact (List.length_eq_zero_iff.mp lengths.symm).symm
  | cons a first ih =>
    cases second with
    | nil => contradiction
    | cons b second =>
      have here : offset h h a b = 0 := none _ List.mem_cons_self
      have mixed : h ^^^ a.toUInt64 = h ^^^ b.toUInt64 := by
        rw [offset] at here
        exact UInt64.toNat_inj.mp (by omega)
      obtain rfl : a = b := UInt8.toUInt64_inj.mp ((UInt64.xor_right_inj _).mp mixed)
      rw [ih (Nat.succ.inj lengths) fun offset later => none offset (List.mem_cons_of_mem _ later)]

/-! Relations between the powers. -/

def dot : List Int → List Int → Int
  | x :: row, y :: column => x * y + dot row column
  | _, _ => 0

/-- The row is a multiple of the column modulo `2 ^ 64`. -/
def Multiple (row column : List Int) : Prop :=
  ∃ q : Int, List.Forall₂ (fun x y => x ≡ q * y [ZMOD 2 ^ 64]) row column

theorem dot_modEq {row column items : List Int} (multiple : Multiple row column)
    (relation : dot column items ≡ 0 [ZMOD 2 ^ 64]) : dot row items ≡ 0 [ZMOD 2 ^ 64] := by
  obtain ⟨q, multiple⟩ := multiple
  have scaled : dot row items ≡ q * dot column items [ZMOD 2 ^ 64] := by
    clear relation
    induction multiple generalizing items with
    | nil => simp [dot]
    | cons here _ ih =>
      cases items with
      | nil => simp [dot]
      | cons item items =>
        rw [dot, dot, mul_add, ← mul_assoc]
        exact (here.mul_right item).add ih
  have zero := scaled.trans (relation.mul_left q)
  rwa [mul_zero] at zero

theorem dot_le {row items : List Int} {bound : Nat} (small : ∀ item ∈ items, item.natAbs ≤ bound) :
    (dot row items).natAbs ≤ bound * (row.map Int.natAbs).sum := by
  induction row generalizing items with
  | nil => simp [dot]
  | cons x row ih =>
    cases items with
    | nil => simp [dot]
    | cons item items =>
      rw [dot, List.map_cons, List.sum_cons, Nat.mul_add]
      have here := small item List.mem_cons_self
      have rest := ih fun item later => small item (List.mem_cons_of_mem _ later)
      refine (Int.natAbs_add_le _ _).trans (Nat.add_le_add ?_ rest)
      rw [Int.natAbs_mul, Nat.mul_comm]
      exact Nat.mul_le_mul_right _ here

/-- A light multiple of the column gives an equation between small items. -/
theorem dot_eq_zero {row column items : List Int} {bound : Nat} (multiple : Multiple row column)
    (light : bound * (row.map Int.natAbs).sum < 2 ^ 64) (small : ∀ item ∈ items, item.natAbs ≤ bound)
    (relation : dot column items ≡ 0 [ZMOD 2 ^ 64]) : dot row items = 0 := by
  have divides := Int.modEq_zero_iff_dvd.mp (dot_modEq multiple relation)
  have bounded := (dot_le small).trans_lt light
  exact Int.eq_zero_of_dvd_of_natAbs_lt_natAbs divides bounded

/-- The first six powers of the prime. -/
def powers : List Int := (List.range 6).map fun j => prime.toNat ^ (j + 1)

/-- Six small numbers that the powers relate are all zero. The rows are multiples of the powers
and, up to `2 ^ 64`, inverse to a matrix of small numbers. -/
theorem no_relation {a b c d e f : Int} (small : ∀ item ∈ [a, b, c, d, e, f], item.natAbs ≤ 510)
    (relation : dot powers [a, b, c, d, e, f] ≡ 0 [ZMOD 2 ^ 64]) :
    ∀ item ∈ [a, b, c, d, e, f], item = 0 := by
  have first : dot [5046382459189116, -4977183758088268, -1178876700584228, -1973864442898476, -5247281785750212, 4482579670404340]
      [a, b, c, d, e, f] = 0 := dot_eq_zero ⟨-5853314620625283948, by decide⟩ (by decide) small relation
  have second : dot [-2434785518635867, 521531150890079, 7420022407511405, 2407835907481655, -6373219910648459, 1150927258463695]
      [a, b, c, d, e, f] = 0 := dot_eq_zero ⟨-3043126869017570233, by decide⟩ (by decide) small relation
  have third : dot [4410605614494224, 5164142811992368, -559839306353520, 5452110822838448, -1535281643037936, 6302646686563376]
      [a, b, c, d, e, f] = 0 := dot_eq_zero ⟨-4580056007442358864, by decide⟩ (by decide) small relation
  have fourth : dot [2518874921680656, -3431600937981904, -4253954618046064, 7704392091402160, 644476066068496, -10117495039556816]
      [a, b, c, d, e, f] = 0 := dot_eq_zero ⟨4102797547569945776, by decide⟩ (by decide) small relation
  have fifth : dot [-8107455562062582, -3509890893664258, -84464088609638, 2833942984976814, 1503490379027114, 10753435092956894]
      [a, b, c, d, e, f] = 0 := dot_eq_zero ⟨4562491563806612942, by decide⟩ (by decide) small relation
  have sixth : dot [8671412534092605, -1040540266766169, 6915764390345669, -1237812376006721, 6415703093100941, -964417354571113]
      [a, b, c, d, e, f] = 0 := dot_eq_zero ⟨7698100873003003727, by decide⟩ (by decide) small relation
  simp only [dot] at first second third fourth fifth sixth
  have scaled {x : Int} (product : 2 ^ 64 * x = 0) : x = 0 := (mul_eq_zero.mp product).resolve_left (by decide)
  have a_zero : a = 0 := scaled (by linear_combination 847 * first - 338 * second + 697 * third + 132 * fourth - 544 * fifth + 638 * sixth)
  have b_zero : b = 0 := scaled (by linear_combination -1225 * first - 95 * second + 1115 * third - 811 * fourth - 943 * fifth - 527 * sixth)
  have c_zero : c = 0 := scaled (by linear_combination -387 * first + 1392 * second - 348 * third - 181 * fourth + 133 * fifth + 970 * sixth)
  have d_zero : d = 0 := scaled (by linear_combination -356 * first + 551 * second + 943 * third + 1232 * fourth + 713 * fifth + 191 * sixth)
  have e_zero : e = 0 := scaled (by linear_combination -926 * first - 995 * second - 106 * third + 48 * fourth + 684 * fifth + 939 * sixth)
  have f_zero : f = 0 := scaled (by linear_combination 459 * first - 281 * second + 653 * third - 498 * fourth + 715 * fifth + 135 * sixth)
  simp only [List.forall_mem_cons]
  exact ⟨a_zero, b_zero, c_zero, d_zero, e_zero, f_zero, nofun⟩

/-- Strings of six bytes are told apart from any state. -/
theorem absorb_six {first second : List UInt8} (six : first.length = 6) (lengths : second.length = 6) {h : UInt64}
    (same : absorb h first = absorb h second) : first = second := by
  have equal : first.length = second.length := six.trans lengths.symm
  have counted : (offsets h h first second).length = 6 := (length_offsets equal h h).trans six
  have small := offsets_le h h first second
  have relation := (absorb_offsets equal h h).symm
  rw [same, sub_self, sub_self] at relation
  refine eq_of_offsets equal (h := h) ?_
  generalize offsets h h first second = offsets at counted small relation
  match offsets, counted with
  | [a, b, c, d, e, f], _ =>
    have summed : horner 0 [a, b, c, d, e, f] = dot powers [f, e, d, c, b, a] := by
      simp only [horner, dot, powers, List.range, List.range.loop, List.map]
      ring
    rw [summed] at relation
    have reversed : ∀ item ∈ [f, e, d, c, b, a], item.natAbs ≤ 510 := by
      simp only [List.forall_mem_cons] at small ⊢
      tauto
    have zero := no_relation reversed relation
    simp only [List.forall_mem_cons] at zero ⊢
    tauto

end Fnv
