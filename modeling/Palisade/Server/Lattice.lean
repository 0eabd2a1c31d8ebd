import Palisade.Binary64
import Palisade.Core
import Palisade.Transition
import Mathlib.Order.WithBot
import Mathlib.Tactic.FieldSimp
import Mathlib.Tactic.Positivity

/-! The store pressure index: moving averages of the latency, of the failures and of the denials
of the observed operations, weighed together into an index from 0 to 100 and a tier. Its numbers
are binary64; the natural logarithm is that of the platform and gives `⊥` for minus infinity. -/
namespace Palisade.Lattice
open Binary64 Transition

/-- Exponential smoothing factor. -/
def alpha : ℚ := rounded (3 / 10)

structure StorePressureIndex where
  latencyUs : ℚ
  failureRatio : ℚ
  contentionRatio : ℚ
  spi : ℚ
  deriving DecidableEq

inductive Tier where
  | normal
  | elevated
  | critical
  | siege
  deriving DecidableEq

def Tier.asU8 : Tier → Nat
  | .normal => 0
  | .elevated => 1
  | .critical => 2
  | .siege => 3

namespace StorePressureIndex

def new : StorePressureIndex := ⟨500, 0, 0, 0⟩

def observe (p : StorePressureIndex) (latency : Duration) (ok denied : Bool) : StorePressureIndex :=
  let us := rounded (latency.nanos / 10 ^ 3 : Nat)
  { p with
    latencyUs := ewma alpha p.latencyUs us
    failureRatio := ewma alpha p.failureRatio (if ok then 0 else 1)
    contentionRatio := ewma alpha p.contentionRatio (if denied then 1 else 0) }

section
variable (ln : ℚ → WithBot ℚ)

/-- The latency against a baseline of 10 ms, from 0 to 1. -/
def latNorm (p : StorePressureIndex) : ℚ :=
  min (div ((max (ln (div p.latencyUs 10000)) 0).unbotD 0) 5) 1

def score (p : StorePressureIndex) : ℚ :=
  add (add (mul (p.latNorm ln) 35) (mul p.failureRatio 55)) (mul p.contentionRatio 10)

def tick (p : StorePressureIndex) : StorePressureIndex :=
  let score := if rounded (4 / 5) < p.failureRatio then max (p.score ln) 95 else p.score ln
  { p with spi := max 0 (min score 100) }

end

def tier (p : StorePressureIndex) : Tier :=
  if 90 ≤ p.spi then .siege
  else if 70 ≤ p.spi then .critical
  else if 40 ≤ p.spi then .elevated
  else .normal

def recommendedCadenceMultiplier (p : StorePressureIndex) : ℚ :=
  match p.tier with
  | .normal => 1
  | .elevated => 3 / 2
  | .critical => 2
  | .siege => 3

end StorePressureIndex

/-! Runs of observations and ticks. -/

inductive Action where
  | observe (latency : Duration) (ok denied : Bool)
  | tick
  deriving DecidableEq

/-- `failures` counts the failed observations, `failing` those since the last success,
`recovering` the successes since the last failure; `slowest` is the slowest observation so far,
in microseconds. -/
structure Run where
  index : StorePressureIndex
  failures : Nat
  failing : Nat
  recovering : Nat
  slowest : Nat
  deriving DecidableEq

def Run.observe (s : Run) (latency : Duration) (ok denied : Bool) : Run where
  index := s.index.observe latency ok denied
  failures := if ok then s.failures else s.failures + 1
  failing := if ok then 0 else s.failing + 1
  recovering := if ok then s.recovering + 1 else 0
  slowest := max s.slowest (latency.nanos / 10 ^ 3)

variable (ln : ℚ → WithBot ℚ)

def pressure : Machine Run Action where
  initial s := s = ⟨.new, 0, 0, 0, 0⟩
  step s
    | .observe latency ok denied => some (s.observe latency ok denied)
    | .tick => some { s with index := s.index.tick ln }

def IsRatio (x : ℚ) : Prop := Representable x ∧ 0 ≤ x ∧ x ≤ 1

instance (x : ℚ) : Decidable (IsRatio x) := inferInstanceAs (Decidable (Representable x ∧ 0 ≤ x ∧ x ≤ 1))

/-- The averages are numbers of the format within their ranges; the latency starts at 500. -/
structure StorePressureIndex.InRange (p : StorePressureIndex) (slowest : Nat) : Prop where
  number : Representable p.latencyUs
  latency : 0 ≤ p.latencyUs ∧ p.latencyUs ≤ rounded (max 500 slowest : Nat)
  failure : IsRatio p.failureRatio
  contention : IsRatio p.contentionRatio
  spi : 0 ≤ p.spi ∧ p.spi ≤ 100

theorem alpha_near : |alpha - 3 / 10| ≤ 1 / 2 ^ 50 := by decide +kernel

theorem alpha_nonneg : 0 ≤ alpha := by linarith [(abs_le.mp alpha_near).1]

theorem alpha_le : alpha ≤ 1 / 2 := by linarith [(abs_le.mp alpha_near).2]

theorem isRatio_zero : IsRatio 0 := ⟨representable_zero, by norm_num⟩

theorem isRatio_one : IsRatio 1 := ⟨representable_one, by norm_num⟩

theorem isRatio_failed (ok : Bool) : IsRatio (if ok then 0 else 1) := by
  cases ok with
  | false => exact isRatio_one
  | true => exact isRatio_zero

theorem isRatio_denied (denied : Bool) : IsRatio (if denied then 1 else 0) := by
  cases denied with
  | false => exact isRatio_zero
  | true => exact isRatio_one

/-- The ratio from which failures alone declare a siege. -/
theorem near_siege : 79 / 100 < rounded (4 / 5) ∧ rounded (4 / 5) < 81 / 100 ∧ mul (rounded (4 / 5)) 55 ≤ 89 / 2 := by
  decide +kernel

/-- The bounds of the score that occur are numbers of the format. -/
theorem bounds_representable : Representable (35 + 89 / 2) ∧ Representable (45 + 89 / 2) ∧ Representable (99 / 4) ∧
    Representable (35 + 99 / 4) ∧ Representable (45 + 99 / 4) := by
  decide +kernel

theorem IsRatio.ewma {x u : ℚ} (before : IsRatio x) (seen : IsRatio u) : IsRatio (ewma alpha x u) :=
  ⟨representable_ewma .., le_ewma alpha_nonneg alpha_le before.1 seen.1 before.2.1 seen.2.1,
    ewma_le alpha_nonneg alpha_le before.1 seen.1 before.2.2 seen.2.2⟩

/-- What the three roundings of a step of an average amount to. -/
theorem ewma_near {x u : ℚ} (before : IsRatio x) (seen : IsRatio u) :
    |Binary64.ewma alpha x u - (7 / 10 * x + 3 / 10 * u)| ≤ 1 / 2 ^ 40 := by
  obtain ⟨_, least, most⟩ := before
  obtain ⟨_, least', most'⟩ := seen
  unfold Binary64.ewma
  set difference := sub u x
  set portion := mul alpha difference
  have first : |difference - (u - x)| ≤ 2 ^ (1 - 54 : ℤ) :=
    abs_rounded_sub_le_of_lt (by rw [abs_lt]; constructor <;> norm_num <;> linarith) (by norm_num)
  have bounded : |difference| ≤ 2 := by
    norm_num [abs_le] at first ⊢
    constructor <;> linarith
  have scaled : |alpha * difference| ≤ 1 := by
    rw [abs_mul, abs_of_nonneg alpha_nonneg]
    calc alpha * |difference| ≤ 1 / 2 * 2 := mul_le_mul alpha_le bounded (abs_nonneg _) (by norm_num)
      _ = 1 := by norm_num
  have second : |portion - alpha * difference| ≤ 2 ^ (1 - 54 : ℤ) :=
    abs_rounded_sub_le_of_lt (scaled.trans_lt (by norm_num)) (by norm_num)
  have third : |add x portion - (x + portion)| ≤ 2 ^ (2 - 54 : ℤ) := by
    have tiny : (2 : ℚ) ^ (1 - 54 : ℤ) ≤ 1 := by norm_num
    obtain ⟨_, _⟩ := abs_le.mp scaled
    obtain ⟨_, _⟩ := abs_le.mp second
    exact abs_rounded_sub_le_of_lt (by rw [abs_lt]; constructor <;> norm_num <;> linarith) (by norm_num)
  have factor : |(alpha - 3 / 10) * difference| ≤ 1 / 2 ^ 50 * 2 := by
    rw [abs_mul]
    exact mul_le_mul alpha_near bounded (abs_nonneg _) (by norm_num)
  have split : alpha * difference = (alpha - 3 / 10) * difference + 3 / 10 * difference := by ring
  generalize alpha * difference = product at *
  generalize (alpha - 3 / 10) * difference = rest at *
  norm_num [abs_le] at first second third factor ⊢
  constructor <;> linarith

namespace StorePressureIndex.InRange
variable {p : StorePressureIndex} {slowest : Nat}

theorem observe (range : p.InRange slowest) (latency : Duration) (ok denied : Bool) :
    (p.observe latency ok denied).InRange (max slowest (latency.nanos / 10 ^ 3)) := by
  have us := representable_rounded (latency.nanos / 10 ^ 3 : Nat)
  have before : p.latencyUs ≤ rounded ((max 500 (max slowest (latency.nanos / 10 ^ 3)) : Nat) : ℚ) :=
    range.latency.2.trans (rounded_mono (mod_cast max_le_max_left _ (le_max_left _ _)))
  have seen : rounded ((latency.nanos / 10 ^ 3 : Nat) : ℚ) ≤
      rounded ((max 500 (max slowest (latency.nanos / 10 ^ 3)) : Nat) : ℚ) :=
    rounded_mono (mod_cast le_max_of_le_right (le_max_right _ _))
  exact {
    number := representable_ewma ..
    latency := ⟨le_ewma alpha_nonneg alpha_le range.number us range.latency.1 (rounded_nonneg (mod_cast Nat.zero_le _)),
      ewma_le alpha_nonneg alpha_le range.number us before seen⟩
    failure := range.failure.ewma (isRatio_failed ok)
    contention := range.contention.ewma (isRatio_denied denied)
    spi := range.spi }

theorem tick (range : p.InRange slowest) : (p.tick ln).InRange slowest :=
  { range with spi := ⟨le_max_left _ _, max_le (by norm_num) (min_le_right _ _)⟩ }

end StorePressureIndex.InRange

/-! What the failures of a run leave in the failure ratio. -/

/-- The error of all steps together. -/
def slack : ℚ := 4 / 2 ^ 40

/-- Bounds for the failure ratio by what was counted. -/
structure Run.Inv (s : Run) : Prop where
  range : s.index.InRange s.slowest
  small : s.slowest ≤ 2 ^ 84
  failures : s.index.failureRatio ≤ (1 + slack) * (1 - (7 / 10) ^ s.failures)
  failing : (1 - slack) * (1 - (7 / 10) ^ s.failing) ≤ s.index.failureRatio
  recovering : s.index.failureRatio ≤ (7 / 10) ^ s.recovering + slack * (1 - (7 / 10) ^ s.recovering)

theorem Run.Inv.observe {s : Run} (inv : s.Inv) (latency : Duration) (ok denied : Bool) :
    (s.observe latency ok denied).Inv := by
  have range := inv.range.observe latency ok denied
  have small : max s.slowest (latency.nanos / 10 ^ 3) ≤ 2 ^ 84 := by
    have := latency.fits
    exact max_le inv.small (by omega)
  have near := ewma_near inv.range.failure (isRatio_failed ok)
  obtain ⟨below, above⟩ := abs_le.mp near
  have before := inv.failures
  have streak := inv.failing
  have recovered := inv.recovering
  cases ok with
  | true =>
    have lower := ewma_of_ge alpha_nonneg alpha_le inv.range.failure.1 representable_zero inv.range.failure.2.1
    refine ⟨range, small, ?_, ?_, ?_⟩
    · exact lower.2.trans before
    · simpa [Run.observe] using range.failure.2.1
    · simp only [Run.observe, StorePressureIndex.observe, slack, if_true, pow_succ] at *
      linarith
  | false =>
    refine ⟨range, small, ?_, ?_, ?_⟩
    · simp only [Run.observe, StorePressureIndex.observe, slack, Bool.false_eq_true, if_false, pow_succ] at *
      linarith
    · simp only [Run.observe, StorePressureIndex.observe, slack, Bool.false_eq_true, if_false, pow_succ] at *
      linarith
    · simpa [Run.observe] using range.failure.2.2

theorem Run.inv_reachable {ln : ℚ → WithBot ℚ} {s : Run} (reach : (pressure ln).Reachable s) : s.Inv := by
  refine Machine.Reachable.invariant ?_ ?_ reach
  · rintro s rfl
    have number : Representable 500 := representable_ofNat 500 (by norm_num)
    have start : StorePressureIndex.new.latencyUs ≤ rounded ((max 500 0 : Nat) : ℚ) := number.symm.le
    refine ⟨⟨number, ⟨by decide, start⟩, isRatio_zero, isRatio_zero, by decide⟩, by norm_num, ?_, ?_, ?_⟩
    all_goals norm_num [StorePressureIndex.new]
  · intro s action t inv stepped
    cases action with
    | observe latency ok denied =>
      cases stepped
      exact inv.observe latency ok denied
    | tick =>
      cases stepped
      exact { inv with range := inv.range.tick ln }

/-! What a tick makes of the averages. -/

section
variable {ln : ℚ → WithBot ℚ} {p : StorePressureIndex} {slowest : Nat}

/-- The failures weigh as much as they are allowed to, the rest at most 45. -/
theorem score_le {top : ℚ} (range : p.InRange slowest) (failure : mul p.failureRatio 55 ≤ top)
    (first : Representable (35 + top)) (second : Representable (45 + top)) : p.score ln ≤ 45 + top := by
  have latency : mul (p.latNorm ln) 35 ≤ 35 := by
    have number : Representable 35 := representable_ofNat 35 (by norm_num)
    have capped : p.latNorm ln ≤ 1 := min_le_right _ _
    exact number.rounded_le (by linarith)
  have contention : mul p.contentionRatio 10 ≤ 10 := by
    have number : Representable 10 := representable_ofNat 10 (by norm_num)
    exact number.rounded_le (by linarith [range.contention.2.2])
  have both : add (mul (p.latNorm ln) 35) (mul p.failureRatio 55) ≤ 35 + top := first.rounded_le (add_le_add latency failure)
  exact second.rounded_le (by linarith)

theorem tick_spi_le {top : ℚ} (nonneg : 0 ≤ top) (calm : p.failureRatio ≤ rounded (4 / 5)) (le : p.score ln ≤ top) :
    (p.tick ln).spi ≤ top := by
  simp only [StorePressureIndex.tick, if_neg calm.not_gt]
  exact max_le nonneg ((min_le_left _ _).trans le)

/-- Siege is declared by the failure ratio alone. -/
theorem tick_siege_iff (range : p.InRange slowest) :
    (p.tick ln).tier = .siege ↔ rounded (4 / 5) < p.failureRatio := by
  have declared : (p.tick ln).tier = .siege ↔ 90 ≤ (p.tick ln).spi := by
    unfold StorePressureIndex.tier
    split_ifs <;> simp_all
  rw [declared]
  constructor
  · intro high
    by_contra calm
    have le := not_lt.mp calm
    have failure : mul p.failureRatio 55 ≤ 89 / 2 :=
      (rounded_mono (mul_le_mul_of_nonneg_right le (by norm_num))).trans near_siege.2.2
    have score : p.score ln ≤ 45 + 89 / 2 := score_le range failure bounds_representable.1 bounds_representable.2.1
    have spi := tick_spi_le (by norm_num) le score
    linarith
  · intro failing
    simp only [StorePressureIndex.tick, if_pos failing]
    refine le_max_of_le_right (le_min (le_max_of_le_right ?_) ?_) <;> norm_num

theorem tick_below_critical (range : p.InRange slowest) (few : p.failureRatio ≤ 9 / 20) :
    (p.tick ln).tier.asU8 < Tier.critical.asU8 := by
  obtain ⟨_, _, number, first, second⟩ := bounds_representable
  have calm : p.failureRatio ≤ rounded (4 / 5) := by linarith [near_siege.1]
  have failure : mul p.failureRatio 55 ≤ 99 / 4 := number.rounded_le (by linarith)
  have score : p.score ln ≤ 45 + 99 / 4 := score_le range failure first second
  have spi := tick_spi_le (by norm_num) calm score
  have low : ¬ 70 ≤ (p.tick ln).spi := by linarith
  have lower : ¬ 90 ≤ (p.tick ln).spi := by linarith
  unfold StorePressureIndex.tier
  rw [if_neg lower, if_neg low]
  split_ifs <;> decide

end

section
variable {ln : ℚ → WithBot ℚ} {s : Run} (reach : (pressure ln).Reachable s)
include reach

/-- The ratios stay in `[0, 1]` and the index in `[0, 100]`. The latency never exceeds the larger
of the 500 µs it starts at and the slowest observation, so that no number of a run is beyond the
format. -/
theorem stays_in_range : s.index.InRange s.slowest ∧ s.index.latencyUs ≤ 2 ^ 84 := by
  have inv := Run.inv_reachable reach
  have number : Representable (2 ^ 84) := representable_zpow (e := 84) (by norm_num)
  have small : max 500 s.slowest ≤ 2 ^ 84 := max_le (by norm_num) inv.small
  exact ⟨inv.range, inv.range.latency.2.trans (number.rounded_le (by exact_mod_cast small))⟩

/-- Five failures in a row make the next tick a siege; four in all never do, and neither does
any number once the last observation succeeded. -/
theorem siege_thresholds :
    (5 ≤ s.failing → (s.index.tick ln).tier = .siege ∧ (s.index.tick ln).recommendedCadenceMultiplier = 3) ∧
    (s.failures ≤ 4 → (s.index.tick ln).tier ≠ .siege) ∧
    (1 ≤ s.recovering → (s.index.tick ln).tier ≠ .siege) := by
  obtain ⟨range, _, failures, failing, recovering⟩ := Run.inv_reachable reach
  have power {n m : Nat} (le : n ≤ m) : ((7 : ℚ) / 10) ^ m ≤ (7 / 10) ^ n :=
    pow_le_pow_of_le_one (by norm_num) (by norm_num) le
  obtain ⟨least, most, _⟩ := near_siege
  unfold slack at *
  refine ⟨fun long => ?_, fun few => ?_, fun recovered => ?_⟩
  · have high : rounded (4 / 5) < s.index.failureRatio := by linarith [power long]
    have siege : (s.index.tick ln).tier = .siege := (tick_siege_iff range).mpr high
    exact ⟨siege, by rw [StorePressureIndex.recommendedCadenceMultiplier, siege]⟩
  · rw [Ne, tick_siege_iff range, not_lt]
    linarith [power few]
  · rw [Ne, tick_siege_iff range, not_lt]
    linarith [power recovered]

/-- Fewer than two failures in all, or three successes in a row, keep the next tick below
critical, whatever the latency and the contention. -/
theorem critical_thresholds (few : s.failures ≤ 1 ∨ 3 ≤ s.recovering) :
    (s.index.tick ln).tier.asU8 < Tier.critical.asU8 := by
  obtain ⟨range, _, failures, _, recovering⟩ := Run.inv_reachable reach
  have power {n m : Nat} (le : n ≤ m) : ((7 : ℚ) / 10) ^ m ≤ (7 / 10) ^ n :=
    pow_le_pow_of_le_one (by norm_num) (by norm_num) le
  unfold slack at *
  apply tick_below_critical range
  obtain few | recovered := few
  · linarith [power few]
  · linarith [power recovered]

/-- Contention alone: while nothing failed and no operation took longer than 10 ms, the index
stays within 10 and the tier normal. The logarithm is not positive up to 1. -/
theorem contention_stays_normal (log : ∀ x ≤ 1, ln x ≤ 0) (healthy : s.failures = 0) (fast : s.slowest ≤ 10000) :
    (s.index.tick ln).spi ≤ 10 ∧ (s.index.tick ln).tier = .normal := by
  obtain ⟨range, _, failures, _, _⟩ := Run.inv_reachable reach
  have zero : s.index.failureRatio = 0 := by
    rw [healthy, pow_zero, sub_self, mul_zero] at failures
    exact le_antisymm failures range.failure.2.1
  have latency : s.index.latNorm ln ≤ 0 := by
    have baseline : s.index.latencyUs ≤ 10000 := by
      have number : Representable 10000 := representable_ofNat 10000 (by norm_num)
      have within : max 500 s.slowest ≤ 10000 := max_le (by norm_num) fast
      exact range.latency.2.trans (number.rounded_le (by exact_mod_cast within))
    have below : div s.index.latencyUs 10000 ≤ 1 := by
      have number : Representable 1 := representable_one
      exact number.rounded_le (by rw [div_le_one (by norm_num)]; exact baseline)
    rw [StorePressureIndex.latNorm, max_eq_right (log _ below)]
    exact (min_le_left _ _).trans (representable_zero.rounded_le (by simp))
  have score : s.index.score ln ≤ 10 := by
    have number : Representable 10 := representable_ofNat 10 (by norm_num)
    have first : mul (s.index.latNorm ln) 35 ≤ 0 := representable_zero.rounded_le (by linarith)
    have second : mul s.index.failureRatio 55 ≤ 0 := representable_zero.rounded_le (by rw [zero, zero_mul])
    have third : mul s.index.contentionRatio 10 ≤ 10 := number.rounded_le (by linarith [range.contention.2.2])
    have both : add (mul (s.index.latNorm ln) 35) (mul s.index.failureRatio 55) ≤ 0 :=
      representable_zero.rounded_le (by linarith)
    exact number.rounded_le (by linarith)
  have calm : s.index.failureRatio ≤ rounded (4 / 5) := zero ▸ rounded_nonneg (by norm_num)
  have spi := tick_spi_le (by norm_num) calm score
  refine ⟨spi, ?_⟩
  have low : ¬ 40 ≤ (s.index.tick ln).spi ∧ ¬ 70 ≤ (s.index.tick ln).spi ∧ ¬ 90 ≤ (s.index.tick ln).spi := by
    refine ⟨?_, ?_, ?_⟩ <;> linarith
  rw [StorePressureIndex.tier, if_neg low.2.2, if_neg low.2.1, if_neg low.1]

end

/-- Half a millisecond, as long as a new index assumes. -/
def usual : Duration := ⟨500000, by decide⟩

/-- The logarithm of the usual latency against the baseline, and of nothing at all. -/
def lnUsual (x : ℚ) : WithBot ℚ := if x = 0 then ⊥ else if x ≤ 1 then (rounded (-2995732273553991 / 10 ^ 15) : ℚ) else 0

theorem lnUsual_nonpos (x : ℚ) (small : x ≤ 1) : lnUsual x ≤ 0 := by
  unfold lnUsual
  split_ifs
  · exact bot_le
  · have below : rounded (-2995732273553991 / 10 ^ 15) ≤ 0 := representable_zero.rounded_le (by norm_num)
    exact_mod_cast below

/-- The store goes down after a success. -/
def outage : List Action := .observe usual true false :: List.replicate 5 (.observe usual false false)

theorem outage_is_siege : ∃ s : Run, s.failures = 5 ∧ (s.index.tick lnUsual).tier = .siege := by
  obtain ⟨s, reach, failing, failures⟩ := (pressure lnUsual).exists_reachableWhen (fun _ _ => True)
    (fun s => s.failing = 5 ∧ s.failures = 5) rfl outage (by decide +kernel)
  exact ⟨s, failures, ((siege_thresholds reach).1 failing.ge).1⟩

/-- It is up again for three operations. -/
theorem recovery_below_critical : ∃ s : Run, s.failures = 5 ∧ (s.index.tick lnUsual).tier.asU8 < Tier.critical.asU8 := by
  obtain ⟨s, reach, failures, recovering⟩ := (pressure lnUsual).exists_reachableWhen (fun _ _ => True)
    (fun s => s.failures = 5 ∧ s.recovering = 3) rfl
    (outage ++ List.replicate 3 (.observe usual true false)) (by decide +kernel)
  exact ⟨s, failures, critical_thresholds reach (.inr recovering.ge)⟩

/-- The failure ratio of the outage. -/
theorem outage_in_range : ∃ s : Run, 4 / 5 < s.index.failureRatio ∧ s.index.InRange 500 ∧ s.index.latencyUs ≤ 2 ^ 84 := by
  obtain ⟨s, reach, ratio, slowest⟩ := (pressure lnUsual).exists_reachableWhen (fun _ _ => True)
    (fun s => 4 / 5 < s.index.failureRatio ∧ s.slowest = 500) rfl outage (by decide +kernel)
  exact ⟨s, ratio, slowest ▸ stays_in_range reach⟩

/-- Twenty denials in a row. -/
theorem denials_stay_normal : ∃ s : Run, 0 < s.index.contentionRatio ∧ (s.index.tick lnUsual).spi ≤ 10 ∧
    (s.index.tick lnUsual).tier = .normal := by
  obtain ⟨s, reach, denied, healthy, fast⟩ := (pressure lnUsual).exists_reachableWhen (fun _ _ => True)
    (fun s => 0 < s.index.contentionRatio ∧ s.failures = 0 ∧ s.slowest ≤ 10000) rfl
    (List.replicate 20 (.observe usual true true)) (by decide +kernel)
  exact ⟨s, denied, contention_stays_normal reach lnUsual_nonpos healthy fast⟩

end Palisade.Lattice
