import Palisade.Binary64
import Mathlib.Logic.Function.Basic
import Mathlib.Algebra.Order.Floor.Semiring
import Mathlib.Tactic.Positivity

/-! The contention predictor: for every key the moving average of its hold durations and of
their squared deviations, and what they say about the release to come. Its numbers are
binary64; the square root is that of the platform. -/
namespace Palisade.Predictor
open Binary64

/-- Minimum observations before predictions are offered. -/
def minSamples : Nat := 3

structure AvailabilityForecast where
  bestCaseMs : Nat
  expectedMs : Nat
  worstCaseMs : Nat
  confidenceSamples : Nat
  deriving DecidableEq

structure KeyStats where
  ewmaMs : ℚ
  ewmaVarMs : ℚ
  samples : Nat
  deriving DecidableEq

def asF64 (ms : UInt64) : ℚ := rounded ms.toNat

/-- `as u64`, for a number that is not negative: the fraction is cut off and what is too large
becomes the maximum. -/
def asU64 (x : ℚ) : Nat := min ⌊x⌋₊ (2 ^ 64 - 1)

/-- `observe_hold`, on the entry of its key. -/
def KeyStats.observe (entry : Option KeyStats) (holdMs : UInt64) : KeyStats :=
  let st := entry.getD ⟨asF64 holdMs, 0, 0⟩
  let samples := st.samples + 1
  let alpha := div 1 (min samples 20 : Nat)
  let delta := sub (asF64 holdMs) st.ewmaMs
  { ewmaMs := add st.ewmaMs (mul alpha delta)
    ewmaVarMs := add st.ewmaVarMs (mul alpha (sub (mul delta delta) st.ewmaVarMs))
    samples }

abbrev ContentionPredictor := String → Option KeyStats

namespace ContentionPredictor

def new : ContentionPredictor := fun _ => none

def observeHold (p : ContentionPredictor) (key : String) (holdMs : UInt64) : ContentionPredictor :=
  Function.update p key (some (KeyStats.observe (p key) holdMs))

variable (sqrt : ℚ → ℚ)

def forecast (p : ContentionPredictor) (key : String) (elapsedSinceAcquireMs : UInt64) :
    Option AvailabilityForecast := do
  let st ← p key
  if st.samples < minSamples then none
  else
    let sigma := max (sqrt st.ewmaVarMs) 1
    let remainingBest := sub (max (sub st.ewmaMs sigma) 1) (asF64 elapsedSinceAcquireMs)
    let remainingExp := sub st.ewmaMs (asF64 elapsedSinceAcquireMs)
    let remainingWorst := sub (add st.ewmaMs sigma) (asF64 elapsedSinceAcquireMs)
    some {
      bestCaseMs := asU64 (max remainingBest 0)
      expectedMs := asU64 (max remainingExp 0)
      worstCaseMs := asU64 (max remainingWorst 0)
      confidenceSamples := st.samples }

end ContentionPredictor

/-- A predictor that has seen these holds, each of a key, in this order. -/
def observed (holds : List (String × UInt64)) : ContentionPredictor :=
  holds.foldl (fun p hold => p.observeHold hold.1 hold.2) .new

/-- The holds of one key. -/
def holdsOf (key : String) (holds : List (String × UInt64)) : List UInt64 :=
  (holds.filter fun hold => hold.1 = key).map Prod.snd

/-- The entry after the holds of its own key. -/
def track (holds : List UInt64) : Option KeyStats :=
  holds.foldl (fun entry hold => some (KeyStats.observe entry hold)) none

theorem observed_eq_track (holds : List (String × UInt64)) (key : String) :
    observed holds key = track (holdsOf key holds) := by
  have general (p : ContentionPredictor) :
      holds.foldl (fun p hold => p.observeHold hold.1 hold.2) p key =
        (holdsOf key holds).foldl (fun entry hold => some (KeyStats.observe entry hold)) (p key) := by
    induction holds generalizing p with
    | nil => rfl
    | cons hold rest ih =>
      rw [List.foldl_cons, ih]
      by_cases same : hold.1 = key
      · subst same
        simp [holdsOf, ContentionPredictor.observeHold]
      · have other : p.observeHold hold.1 hold.2 key = p key := Function.update_of_ne (Ne.symm same) ..
        rw [other]
        simp [holdsOf, same]
  exact general .new

/-- What the entry of a key is after `n` holds between two bounds. -/
structure KeyStats.Sound (st : KeyStats) (n lo hi : Nat) : Prop where
  samples : st.samples = n
  number : Representable st.ewmaMs
  least : rounded lo ≤ st.ewmaMs
  most : st.ewmaMs ≤ rounded hi
  varNumber : Representable st.ewmaVarMs
  variance : 0 ≤ st.ewmaVarMs

theorem asF64_bounds {hold : UInt64} {lo hi : Nat} (least : lo ≤ hold.toNat) (most : hold.toNat ≤ hi) :
    rounded lo ≤ asF64 hold ∧ asF64 hold ≤ rounded hi :=
  ⟨rounded_mono (mod_cast least), rounded_mono (mod_cast most)⟩

theorem weight_bounds {n : Nat} (many : 2 ≤ n) : 0 ≤ div 1 (min n 20 : Nat) ∧ div 1 (min n 20 : Nat) ≤ 1 / 2 := by
  have two : (2 : ℚ) ≤ (min n 20 : Nat) := by exact_mod_cast le_min many (by norm_num)
  have half : Representable (1 / 2) := by simpa using representable_zpow (e := -1) (by norm_num)
  exact ⟨rounded_nonneg (by positivity), half.rounded_le (one_div_le_one_div_of_le (by norm_num) two)⟩

theorem first_sound {hold : UInt64} {lo hi : Nat} (least : lo ≤ hold.toNat) (most : hold.toNat ≤ hi) :
    (KeyStats.observe none hold).Sound 1 lo hi := by
  obtain ⟨above, below⟩ := asF64_bounds least most
  have number : Representable (asF64 hold) := representable_rounded _
  have same : KeyStats.observe none hold = ⟨asF64 hold, 0, 1⟩ := by
    have kept : rounded (asF64 hold) = asF64 hold := number
    simp [KeyStats.observe, sub, mul, add, rounded_zero, kept]
  rw [same]
  exact ⟨rfl, number, above, below, representable_zero, le_rfl⟩

theorem KeyStats.Sound.observe {st : KeyStats} {n lo hi : Nat} (sound : st.Sound n lo hi) (started : 1 ≤ n)
    {hold : UInt64} (least : lo ≤ hold.toNat) (most : hold.toNat ≤ hi) :
    (KeyStats.observe (some st) hold).Sound (n + 1) lo hi := by
  obtain ⟨above, below⟩ := asF64_bounds least most
  have number : Representable (asF64 hold) := representable_rounded _
  obtain ⟨nonneg, half⟩ := weight_bounds (n := st.samples + 1) (by have := sound.samples; omega)
  have squared : Representable (mul (sub (asF64 hold) st.ewmaMs) (sub (asF64 hold) st.ewmaMs)) := representable_rounded _
  exact {
    samples := congrArg (· + 1) sound.samples
    number := representable_ewma ..
    least := le_ewma nonneg half sound.number number sound.least above
    most := ewma_le nonneg half sound.number number sound.most below
    varNumber := representable_ewma ..
    variance := le_ewma nonneg half sound.varNumber squared sound.variance (rounded_nonneg (mul_self_nonneg _)) }

theorem track_sound {holds : List UInt64} (lo hi : Nat) (some_ : holds ≠ [])
    (bounds : ∀ hold ∈ holds, lo ≤ hold.toNat ∧ hold.toNat ≤ hi) :
    ∃ st, track holds = some st ∧ st.Sound holds.length lo hi := by
  induction holds using List.reverseRecOn with
  | nil => contradiction
  | append_singleton holds hold ih =>
    obtain ⟨least, most⟩ := bounds hold (by simp)
    have last : track (holds ++ [hold]) = some (KeyStats.observe (track holds) hold) := by simp [track]
    obtain rfl | before := eq_or_ne holds []
    · exact ⟨_, last, first_sound least most⟩
    · obtain ⟨st, tracked, sound⟩ := ih before fun other member => bounds other (by simp [member])
      rw [tracked] at last
      refine ⟨_, last, ?_⟩
      simpa using sound.observe (List.length_pos_iff.mpr before) least most

/-! Forecasts. -/

theorem asU64_mono {x y : ℚ} (le : x ≤ y) : asU64 (max x 0) ≤ asU64 (max y 0) :=
  min_le_min_right _ (Nat.floor_mono (max_le_max_right 0 le))

theorem sub_mono {x y z : ℚ} (le : x ≤ y) : sub x z ≤ sub y z := rounded_mono (sub_le_sub_right le z)

/-- What a forecast leaves of an average of whole milliseconds, in binary64. -/
def leftOf (ms : Nat) (elapsed : UInt64) : Nat := asU64 (max (sub (rounded ms) (asF64 elapsed)) 0)

/-- What is left of whole milliseconds. -/
theorem asU64_sub {n : Nat} (small : n ≤ 2 ^ 53) (elapsed : UInt64) :
    asU64 (max (sub n (asF64 elapsed)) 0) = n - elapsed.toNat := by
  obtain within | beyond := Nat.le_total elapsed.toNat n
  · have exact : asF64 elapsed = elapsed.toNat := representable_natCast (within.trans small)
    have left : sub (n : ℚ) elapsed.toNat = (n - elapsed.toNat : Nat) := by
      rw [sub, ← Nat.cast_sub within]
      exact representable_natCast ((Nat.sub_le _ _).trans small)
    rw [exact, left, max_eq_left (Nat.cast_nonneg _), asU64, Nat.floor_natCast]
    exact min_eq_left (by omega)
  · have number : Representable (n : ℚ) := representable_natCast small
    have below : sub n (asF64 elapsed) ≤ 0 := by
      have later : (n : ℚ) ≤ asF64 elapsed := number.le_rounded (mod_cast beyond)
      exact representable_zero.rounded_le (sub_nonpos.mpr later)
    rw [max_eq_right below]
    simp [asU64, Nat.sub_eq_zero_of_le beyond]

theorem leftOf_eq {n : Nat} (small : n ≤ 2 ^ 53) (elapsed : UInt64) : leftOf n elapsed = n - elapsed.toNat := by
  have number : rounded n = n := representable_natCast small
  rw [leftOf, number, asU64_sub small]

section
variable {sqrt : ℚ → ℚ} {p : ContentionPredictor} {key : String} {elapsed : UInt64} {f : AvailabilityForecast}

theorem forecast_eq_some (given : p.forecast sqrt key elapsed = some f) : ∃ st, p key = some st ∧ 3 ≤ st.samples ∧
    f.bestCaseMs = asU64 (max (sub (max (sub st.ewmaMs (max (sqrt st.ewmaVarMs) 1)) 1) (asF64 elapsed)) 0) ∧
    f.expectedMs = asU64 (max (sub st.ewmaMs (asF64 elapsed)) 0) ∧
    f.worstCaseMs = asU64 (max (sub (add st.ewmaMs (max (sqrt st.ewmaVarMs) 1)) (asF64 elapsed)) 0) ∧
    f.confidenceSamples = st.samples := by
  obtain ⟨st, found, given⟩ := Option.bind_eq_some_iff.mp given
  split at given
  · contradiction
  · cases given
    exact ⟨st, found, Nat.le_of_not_lt ‹_›, rfl, rfl, rfl, rfl⟩

theorem forecast_eq_none : p.forecast sqrt key elapsed = none ↔ ∀ st, p key = some st → st.samples < 3 := by
  unfold ContentionPredictor.forecast minSamples
  cases p key <;> simp

end

section
variable (sqrt : ℚ → ℚ) (holds : List (String × UInt64)) (key : String) (elapsed : UInt64)

/-- Only the holds of a key count for it: there is a forecast from the third on, and the
expected release lies between what is left of the shortest and of the longest of them, in
binary64 and up to 2^53 ms also in whole numbers. -/
theorem forecast_from_own_holds :
    ((observed holds).forecast sqrt key elapsed = none ↔ (holdsOf key holds).length < 3) ∧
    ∀ f, (observed holds).forecast sqrt key elapsed = some f → f.confidenceSamples = (holdsOf key holds).length ∧
      ∀ lo hi : Nat, (∀ hold ∈ holdsOf key holds, lo ≤ hold.toNat ∧ hold.toNat ≤ hi) →
        (leftOf lo elapsed ≤ f.expectedMs ∧ f.expectedMs ≤ leftOf hi elapsed) ∧
        (hi ≤ 2 ^ 53 → lo - elapsed.toNat ≤ f.expectedMs ∧ f.expectedMs ≤ hi - elapsed.toNat) := by
  have tracked := observed_eq_track holds key
  generalize holdsOf key holds = own at *
  have counted {st : KeyStats} (found : track own = some st) : st.samples = own.length := by
    obtain rfl | some_ := eq_or_ne own []
    · cases found
    · obtain ⟨other, found', sound⟩ := track_sound 0 (2 ^ 64) some_
        fun hold _ => ⟨Nat.zero_le _, hold.toNat_lt.le⟩
      cases found.symm.trans found'
      exact sound.samples
  constructor
  · rw [forecast_eq_none, tracked]
    constructor
    · intro few
      obtain rfl | some_ := eq_or_ne own []
      · simp
      · obtain ⟨st, found, sound⟩ := track_sound 0 (2 ^ 64) some_
          fun hold _ => ⟨Nat.zero_le _, hold.toNat_lt.le⟩
        exact counted found ▸ few st found
    · intro few st found
      exact counted found ▸ few
  · intro f given
    obtain ⟨st, found, many, _, expected, _, confidence⟩ := forecast_eq_some given
    rw [tracked] at found
    refine ⟨confidence.trans (counted found), ?_⟩
    intro lo hi bounds
    have some_ : own ≠ [] := by
      rintro rfl
      cases found
    obtain ⟨other, found', sound⟩ := track_sound lo hi some_ bounds
    cases found.symm.trans found'
    have between : leftOf lo elapsed ≤ f.expectedMs ∧ f.expectedMs ≤ leftOf hi elapsed := by
      rw [expected]
      exact ⟨asU64_mono (sub_mono sound.least), asU64_mono (sub_mono sound.most)⟩
    have order : lo ≤ hi := by
      obtain ⟨hold, member⟩ := List.exists_mem_of_ne_nil own some_
      exact (bounds hold member).1.trans (bounds hold member).2
    refine ⟨between, fun small => ?_⟩
    rwa [leftOf_eq small, leftOf_eq (order.trans small)] at between

end

/-- Three holds of half a second and one of another key. -/
def steady : List (String × UInt64) := [("jobs", 500), ("other", 20), ("jobs", 500), ("jobs", 500)]

/-- The root may be any: here it is that of no deviation. -/
theorem steady_given : ∃ f, (observed steady).forecast (fun x => x) "jobs" 100 = some f :=
  Option.isSome_iff_exists.mp (by decide +kernel)

theorem steady_left : ∃ f, (observed steady).forecast (fun x => x) "jobs" 100 = some f ∧ f.confidenceSamples = 3 ∧
    f.expectedMs = 400 := by
  obtain ⟨f, given⟩ := steady_given
  obtain ⟨samples, between⟩ := (forecast_from_own_holds (fun x => x) steady "jobs" 100).2 f given
  have long : ∀ hold ∈ holdsOf "jobs" steady, 500 ≤ hold.toNat ∧ hold.toNat ≤ 500 := by simp [holdsOf, steady]
  obtain ⟨least, most⟩ := (between 500 500 long).2 (by norm_num)
  exact ⟨f, given, samples, Nat.le_antisymm most least⟩

/-- The average against what it is lowered to for the best case. -/
theorem best_le_expected_iff {e sigma : ℚ} (number : Representable e) (nonneg : 0 ≤ e) (spread : 1 ≤ sigma)
    (elapsed : UInt64) : asU64 (max (sub (max (sub e sigma) 1) (asF64 elapsed)) 0) ≤ asU64 (max (sub e (asF64 elapsed)) 0) ↔
      0 < elapsed.toNat ∨ 1 ≤ e := by
  have one : Representable 1 := representable_one
  have lowered : sub e sigma ≤ e := number.rounded_le (by linarith)
  obtain above | below := le_or_gt 1 e
  · exact iff_of_true (asU64_mono (sub_mono (max_le lowered above))) (.inr above)
  · have best : max (sub e sigma) 1 = 1 := max_eq_right (lowered.trans below.le)
    have whole : asU64 (max (sub 1 (asF64 elapsed)) 0) = 1 - elapsed.toNat := by
      have left := asU64_sub (n := 1) (by norm_num) elapsed
      rwa [Nat.cast_one] at left
    rw [best, whole]
    obtain zero | positive := Nat.eq_zero_or_pos elapsed.toNat
    · have start : asF64 elapsed = 0 := by rw [asF64, zero, Nat.cast_zero, rounded_zero]
      have kept : sub e 0 = e := by rw [sub, sub_zero, number]
      have floor : ⌊e⌋₊ = 0 := Nat.floor_eq_zero.mpr below
      rw [start, kept, max_eq_left nonneg, asU64, floor, zero]
      simp [below]
    · exact iff_of_true (by omega) (.inl positive)

/-- The worst case is never before the expected release. The best case is after it exactly
when nothing has elapsed and the average is below a millisecond; it takes a hold of no
millisecond for that. -/
theorem forecast_ordered {sqrt : ℚ → ℚ} {holds : List (String × UInt64)} {key : String} {elapsed : UInt64}
    {f : AvailabilityForecast} (given : (observed holds).forecast sqrt key elapsed = some f) :
    f.expectedMs ≤ f.worstCaseMs ∧
    (f.bestCaseMs ≤ f.expectedMs ↔ 0 < elapsed.toNat ∨ ∃ st, observed holds key = some st ∧ 1 ≤ st.ewmaMs) ∧
    ((∀ hold ∈ holdsOf key holds, 1 ≤ hold.toNat) → f.bestCaseMs ≤ f.expectedMs) := by
  obtain ⟨st, found, _, best, expected, worst, _⟩ := forecast_eq_some given
  have tracked := found
  rw [observed_eq_track] at tracked
  have some_ : holdsOf key holds ≠ [] := by
    intro none_
    rw [none_] at tracked
    cases tracked
  have sound (lo : Nat) (least : ∀ hold ∈ holdsOf key holds, lo ≤ hold.toNat) :
      st.Sound (holdsOf key holds).length lo (2 ^ 64) := by
    obtain ⟨other, found', sound⟩ := track_sound lo (2 ^ 64) some_ fun hold member =>
      ⟨least hold member, hold.toNat_lt.le⟩
    cases tracked.symm.trans found'
    exact sound
  obtain ⟨_, number, least, _, _, _⟩ := sound 0 fun _ _ => Nat.zero_le _
  have nonneg : 0 ≤ st.ewmaMs := by rwa [Nat.cast_zero, rounded_zero] at least
  have spread : 1 ≤ max (sqrt st.ewmaVarMs) 1 := le_max_right _ _
  have order := best_le_expected_iff number nonneg spread elapsed
  rw [← best, ← expected] at order
  refine ⟨?_, ?_, fun positive => order.mpr (.inr ?_)⟩
  · rw [expected, worst]
    exact asU64_mono (sub_mono (number.le_rounded (by linarith)))
  · simp only [order, found, Option.some.injEq, exists_eq_left']
  · have one : Representable 1 := representable_one
    have above := (sound 1 positive).least
    rwa [Nat.cast_one, one] at above

theorem steady_forecast : ∃ f, (observed steady).forecast (fun x => x) "jobs" 100 = some f ∧ f.expectedMs ≤ f.worstCaseMs ∧
    f.bestCaseMs ≤ f.expectedMs := by
  obtain ⟨f, given⟩ := steady_given
  obtain ⟨worst, _, best⟩ := forecast_ordered given
  have long : ∀ hold ∈ holdsOf "jobs" steady, 1 ≤ hold.toNat := by simp [holdsOf, steady]
  exact ⟨f, given, worst, best long⟩

end Palisade.Predictor
