import Palisade.Single.Watchdog

/-! The safety policies against the outcomes that the renewals of one watchdog have. The
failure counter is a `u32`. `issued` is what the watchdog has sent to Redis and `overflowed`
whether the counter has passed its last value; the loop reads neither. -/
namespace Palisade.Single

inductive Issued where
  | extend
  | release
  deriving DecidableEq

structure Renewals where
  transientFailures : Nat
  poisoned : Bool
  overflowed : Bool
  issued : List Issued
  deriving DecidableEq

abbrev Outcome := Except Error Bool

def Outcome.isError : Outcome → Bool
  | .error _ => true
  | .ok _ => false

/-- One pass of the loop: a renewal and what is made of its outcome. A poisoned handle has
no watchdog any more. -/
def Renewals.renew (policy : SafetyPolicy) (r : Renewals) (outcome : Outcome) : Renewals :=
  if r.poisoned then r
  else
    match tolerate policy r.transientFailures outcome with
    | some failures =>
      { r with
        transientFailures := failures
        overflowed := r.overflowed || (outcome.isError && decide (r.transientFailures + 1 = 2 ^ 32))
        issued := r.issued ++ [Issued.extend] }
    | none =>
      { r with
        poisoned := true
        overflowed := r.overflowed || (outcome.isError && decide (r.transientFailures + 1 = 2 ^ 32))
        issued := r.issued ++ [Issued.extend] }

def renewals (policy : SafetyPolicy) (outcomes : List Outcome) : Renewals :=
  outcomes.foldl (Renewals.renew policy) ⟨0, false, false, []⟩

/-- The pass is the reaction of the watchdog in its runs, which sends nothing to Redis. -/
theorem Watched.react_renew (s : Watched) (outcome : Outcome) (r : Renewals) (unlost : s.shared.poisoned = false)
    (running : r.poisoned = false) (counted : r.transientFailures = s.transientFailures) :
    (s.react outcome).shared.poisoned = (r.renew s.shared.policy outcome).poisoned ∧
      ((r.renew s.shared.policy outcome).poisoned = false →
        (s.react outcome).transientFailures = (r.renew s.shared.policy outcome).transientFailures) ∧
      (s.react outcome).db = s.db ∧ (s.react outcome).releasing = s.releasing := by
  unfold Watched.react Renewals.renew
  rw [running, counted]
  cases tolerate s.shared.policy s.transientFailures outcome with
  | some failures => simp [unlost]
  | none => simp [HandleShared.markLost]

/-! What the policies say. -/

/-- The consecutive errors a policy tolerates, if there is a bound. -/
def SafetyPolicy.bound : SafetyPolicy → Option Nat
  | .cowardly => some 0
  | .balanced => some 2
  | .aggressive => none

/-- The errors since the last other outcome. -/
def streak (outcomes : List Outcome) : Nat := (outcomes.reverse.takeWhile Outcome.isError).length

/-- The renewal after `before` has this outcome, and the handle fares as its policy says. -/
structure AsDocumented (policy : SafetyPolicy) (before : List Outcome) (outcome : Outcome) : Prop where
  notOwner : outcome = .ok false → (renewals policy (before ++ [outcome])).poisoned = true
  renewed : outcome = .ok true → (renewals policy (before ++ [outcome])).poisoned = false
  error : outcome.isError = true → ((renewals policy (before ++ [outcome])).poisoned = true ↔
    ∃ bound ∈ policy.bound, bound < streak before + 1)
  surrender : outcome.isError = true → policy = .cowardly →
    Issued.release ∈ (renewals policy (before ++ [outcome])).issued
  counter : (renewals policy (before ++ [outcome])).overflowed = false

/-- Every renewal of a watchdog that is still running is as documented. -/
def MeansWhatItSays (policy : SafetyPolicy) (outcomes : List Outcome) : Prop :=
  ∀ before outcome after, outcomes = before ++ outcome :: after → (renewals policy before).poisoned = false →
    AsDocumented policy before outcome

/-- Before a not-owner answer, a cowardly holder sees no error and an aggressive one fewer
than `2 ^ 32` in a row. -/
def Spared (policy : SafetyPolicy) (outcomes : List Outcome) : Prop :=
  ∀ before outcome after, outcomes = before ++ outcome :: after → outcome.isError = true → .ok false ∉ before →
    match policy with
    | .cowardly => False
    | .balanced => True
    | .aggressive => streak before + 1 < 2 ^ 32

section
variable {policy : SafetyPolicy} {before outcomes : List Outcome} {outcome : Outcome}

@[simp] theorem streak_nil : streak [] = 0 := rfl

theorem streak_concat : streak (before ++ [outcome]) = if outcome.isError then streak before + 1 else 0 := by
  simp only [streak, List.reverse_append, List.reverse_singleton, List.singleton_append, List.takeWhile_cons]
  split <;> simp

theorem renewals_concat : renewals policy (before ++ [outcome]) = (renewals policy before).renew policy outcome := by
  simp [renewals, List.foldl_append]

/-- The watchdog never sends a release. -/
theorem release_not_issued : Issued.release ∉ (renewals policy outcomes).issued := by
  induction outcomes using List.reverseRecOn with
  | nil => simp [renewals]
  | append_singleton outcomes outcome ih =>
    rw [renewals_concat, Renewals.renew]
    split
    · exact ih
    · split
      · simp [ih]
      · simp [ih]

theorem renew_poisoned {r : Renewals} (running : r.poisoned = false) :
    (r.renew policy outcome).poisoned = (tolerate policy r.transientFailures outcome).isNone := by
  rw [Renewals.renew, running]
  cases tolerate policy r.transientFailures outcome with
  | some failures => rfl
  | none => rfl

theorem renew_failures {r : Renewals} {failures : Nat} (running : r.poisoned = false)
    (tolerated : tolerate policy r.transientFailures outcome = some failures) :
    (r.renew policy outcome).transientFailures = failures := by
  simp [Renewals.renew, running, tolerated]

theorem renew_overflowed {r : Renewals} (running : r.poisoned = false) : (r.renew policy outcome).overflowed =
    (r.overflowed || (outcome.isError && decide (r.transientFailures + 1 = 2 ^ 32))) := by
  rw [Renewals.renew, running]
  cases tolerate policy r.transientFailures outcome <;> rfl

theorem running_before (running : (renewals policy (before ++ [outcome])).poisoned = false) :
    (renewals policy before).poisoned = false := by
  cases ended : (renewals policy before).poisoned with
  | false => rfl
  | true =>
    rw [renewals_concat, Renewals.renew, if_pos ended, ended] at running
    cases running

/-- While the watchdog runs it counts the streak, which is within the bound, and was never
told that it is not the owner. -/
structure Counting (policy : SafetyPolicy) (outcomes : List Outcome) : Prop where
  failures : (renewals policy outcomes).transientFailures = streak outcomes % 2 ^ 32
  within : ∀ bound ∈ policy.bound, streak outcomes ≤ bound
  owner : .ok false ∉ outcomes

theorem bound_le {bound : Nat} (bounded : bound ∈ policy.bound) : bound ≤ 2 ∧ policy.maxTransientFailures = bound := by
  cases policy <;> cases bounded <;> exact ⟨by decide, rfl⟩

/-- An error is tolerated exactly within the bound. -/
theorem Counting.tolerate_error (counts : Counting policy before) (error : Error) :
    tolerate policy (renewals policy before).transientFailures (.error error) =
      if ∃ bound ∈ policy.bound, bound < streak before + 1 then none else some ((streak before + 1) % 2 ^ 32) := by
  have next : (streak before % 2 ^ 32 + 1) % 2 ^ 32 = (streak before + 1) % 2 ^ 32 := by omega
  rw [tolerate, counts.failures, next]
  cases limit : policy.bound with
  | none =>
    have most : policy.maxTransientFailures = 2 ^ 32 - 1 := by
      cases policy <;> first | rfl | cases limit
    rw [if_neg (by omega), if_neg (by simp)]
  | some bound =>
    obtain ⟨small, most⟩ := bound_le limit
    have within := counts.within bound limit
    have whole : (streak before + 1) % 2 ^ 32 = streak before + 1 := Nat.mod_eq_of_lt (by omega)
    simp only [most, whole, Option.mem_some_iff, exists_eq_left']

theorem counts_of_running (running : (renewals policy outcomes).poisoned = false) : Counting policy outcomes := by
  induction outcomes using List.reverseRecOn with
  | nil => exact ⟨rfl, by simp, by simp⟩
  | append_singleton before outcome ih =>
    have ran := running_before running
    have counts := ih ran
    rw [renewals_concat, renew_poisoned ran] at running
    match outcome with
    | .ok true =>
      refine ⟨?_, by simp [streak_concat, Outcome.isError], by simp [counts.owner]⟩
      rw [renewals_concat, renew_failures ran rfl]
      simp [streak_concat, Outcome.isError]
    | .ok false => cases running
    | .error error =>
      rw [counts.tolerate_error] at running
      by_cases exceeded : ∃ bound ∈ policy.bound, bound < streak before + 1
      · rw [if_pos exceeded] at running
        cases running
      · have tolerated := counts.tolerate_error error
        rw [if_neg exceeded] at tolerated
        refine ⟨?_, ?_, by simp [counts.owner]⟩
        · rw [renewals_concat, renew_failures ran tolerated]
          simp [streak_concat, Outcome.isError]
        · intro bound bounded
          rw [streak_concat, Outcome.isError, if_pos rfl]
          exact Nat.le_of_not_lt fun more => exceeded ⟨bound, bounded, more⟩

/-- The counter is as it was unless a renewal errs on its last value. -/
theorem not_overflowed_concat (ran : (renewals policy before).poisoned = false)
    (clear : (renewals policy before).overflowed = false)
    (short : outcome.isError = true → streak before + 1 < 2 ^ 32) :
    (renewals policy (before ++ [outcome])).overflowed = false := by
  rw [renewals_concat, renew_overflowed ran, clear, Bool.false_or, (counts_of_running ran).failures]
  cases failed : outcome.isError with
  | false => rfl
  | true =>
    have room := short failed
    rw [Bool.true_and, decide_eq_false_iff_not]
    omega

/-- A bounded counter is far from its last value. -/
theorem bounded_not_overflowed {bound : Nat} (bounded : bound ∈ policy.bound) :
    (renewals policy outcomes).overflowed = false := by
  induction outcomes using List.reverseRecOn with
  | nil => rfl
  | append_singleton before outcome ih =>
    cases ran : (renewals policy before).poisoned with
    | true => rw [renewals_concat, Renewals.renew, if_pos ran, ih]
    | false =>
      have within := (counts_of_running ran).within bound bounded
      have small := (bound_le bounded).1
      exact not_overflowed_concat ran ih fun _ => by omega

/-! The aggressive policy counts without a bound. -/

theorem aggressive_running (owner : .ok false ∉ outcomes) : (renewals .aggressive outcomes).poisoned = false := by
  induction outcomes using List.reverseRecOn with
  | nil => rfl
  | append_singleton before outcome ih =>
    rw [List.mem_append, not_or] at owner
    have ran := ih owner.1
    rw [renewals_concat, renew_poisoned ran]
    match outcome with
    | .ok true => rfl
    | .ok false => exact absurd (List.mem_singleton_self _) owner.2
    | .error error =>
      rw [(counts_of_running ran).tolerate_error, if_neg (by simp [SafetyPolicy.bound])]
      rfl

theorem aggressive_overflowed (owner : .ok false ∉ outcomes) (long : 2 ^ 32 ≤ streak outcomes) :
    (renewals .aggressive outcomes).overflowed = true := by
  induction outcomes using List.reverseRecOn with
  | nil => simp at long
  | append_singleton before outcome ih =>
    rw [List.mem_append, not_or] at owner
    have ran := aggressive_running owner.1
    rw [streak_concat] at long
    split at long
    · next failed =>
      rw [renewals_concat, renew_overflowed ran, failed, Bool.true_and, Bool.or_eq_true, decide_eq_true_eq,
        (counts_of_running ran).failures]
      by_cases already : 2 ^ 32 ≤ streak before
      · exact .inl (ih owner.1 already)
      · exact .inr (by omega)
    · omega

/-- The counter of an aggressive watchdog stays whole while no streak is as long as it. -/
theorem aggressive_not_overflowed (ran : (renewals .aggressive before).poisoned = false)
    (short : ∀ earlier error later, before = earlier ++ error :: later → error.isError = true →
      streak earlier + 1 < 2 ^ 32) : (renewals .aggressive before).overflowed = false := by
  induction before using List.reverseRecOn with
  | nil => rfl
  | append_singleton before outcome ih =>
    have before_ran := running_before ran
    have clear := ih before_ran fun earlier error later split failed =>
      short earlier error (later ++ [outcome]) (by simp [split]) failed
    exact not_overflowed_concat before_ran clear (short before outcome [] rfl)

/-! The policies against the documentation. -/

/-- Where the documentation is met, nothing but a not-owner answer ends a cowardly
watchdog: at an error the release is missing. -/
theorem MeansWhatItSays.cowardly_running (means : MeansWhatItSays .cowardly outcomes) {after : List Outcome}
    (split : outcomes = before ++ after) (owner : .ok false ∉ before) :
    (renewals .cowardly before).poisoned = false := by
  induction before using List.reverseRecOn generalizing after with
  | nil => rfl
  | append_singleton before outcome ih =>
    rw [List.mem_append, not_or] at owner
    have split' : outcomes = before ++ outcome :: after := by simp [split]
    have ran := ih split' owner.1
    have documented := means before outcome after split' ran
    match outcome with
    | .ok true => exact documented.renewed rfl
    | .ok false => exact absurd (List.mem_singleton_self _) owner.2
    | .error error => exact absurd (documented.surrender rfl rfl) release_not_issued

theorem MeansWhatItSays.spared (means : MeansWhatItSays policy outcomes) : Spared policy outcomes := by
  intro before outcome after split failed owner
  cases policy with
  | cowardly =>
    have ran := means.cowardly_running split owner
    exact release_not_issued ((means before outcome after split ran).surrender failed rfl)
  | balanced => exact trivial
  | aggressive =>
    have clear := (means before outcome after split (aggressive_running owner)).counter
    have still_owner : .ok false ∉ before ++ [outcome] := by
      rw [List.mem_append, not_or, List.mem_singleton]
      refine ⟨owner, ?_⟩
      rintro rfl
      cases failed
    by_contra long
    rw [aggressive_overflowed still_owner (by rw [streak_concat, if_pos failed]; omega)] at clear
    cases clear

/-- The counter does not overflow in a renewal of a spared watchdog. -/
theorem Spared.counter (spared : Spared policy outcomes) {after : List Outcome}
    (split : outcomes = before ++ outcome :: after) (ran : (renewals policy before).poisoned = false) :
    (renewals policy (before ++ [outcome])).overflowed = false := by
  cases policy with
  | cowardly => exact bounded_not_overflowed (show 0 ∈ SafetyPolicy.bound .cowardly from rfl)
  | balanced => exact bounded_not_overflowed (show 2 ∈ SafetyPolicy.bound .balanced from rfl)
  | aggressive =>
    have owner := (counts_of_running ran).owner
    have clear := aggressive_not_overflowed ran fun earlier error later earlier_split failed =>
      spared earlier error (later ++ outcome :: after) (by simp [split, earlier_split]) failed fun told =>
        owner (by simp [earlier_split, told])
    exact not_overflowed_concat ran clear fun failed => spared before outcome after split failed owner

theorem Spared.meansWhatItSays (spared : Spared policy outcomes) : MeansWhatItSays policy outcomes := by
  intro before outcome after split ran
  have counts := counts_of_running ran
  constructor
  case notOwner =>
    rintro rfl
    rw [renewals_concat, renew_poisoned ran]
    rfl
  case renewed =>
    rintro rfl
    rw [renewals_concat, renew_poisoned ran]
    rfl
  case error =>
    intro failed
    match outcome with
    | .error error =>
      rw [renewals_concat, renew_poisoned ran, counts.tolerate_error]
      split_ifs with exceeded
      · exact iff_of_true rfl exceeded
      · exact iff_of_false Bool.false_ne_true exceeded
  case surrender =>
    rintro failed rfl
    exact (spared before outcome after split failed counts.owner).elim
  case counter => exact spared.counter split ran

/-- A watchdog fares as its policy says unless it is a cowardly one that meets an error or
an aggressive one that meets `2 ^ 32` in a row. -/
theorem means_what_it_says_iff (policy : SafetyPolicy) (outcomes : List Outcome) :
    MeansWhatItSays policy outcomes ↔ Spared policy outcomes := by
  constructor
  · exact MeansWhatItSays.spared
  · exact Spared.meansWhatItSays

theorem cowardly_keeps_lock : ¬ MeansWhatItSays .cowardly [.error (.backend "timed out")] := by
  intro means
  exact release_not_issued ((means [] _ [] rfl rfl).surrender rfl rfl)

end

end Palisade.Single
