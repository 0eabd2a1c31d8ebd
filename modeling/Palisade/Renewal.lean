import Palisade.Single.Watchdog

/-! The renewal loops of the single-instance, the quorum and the remote handle side by
side. Each counts the consecutive renewals that failed in a `u32` and marks its handle
lost once its budget is spent. -/
namespace Palisade

/-- A loop that gives up when `limit` renewals have failed in a row: the counter after a
renewal, or nothing where the handle is marked lost. -/
def countFailures (limit failures : Nat) : Except Error Bool → Option Nat
  | .ok true => some 0
  | .ok false => none
  | .error _ =>
    let failures := (failures + 1) % 2 ^ 32
    if limit ≤ failures then none else some failures

namespace Redlock

/-- `MAX_CONSECUTIVE_RENEW_FAILURES` -/
def maxConsecutiveRenewFailures : Nat := 2

def tolerate : Nat → Except Error Bool → Option Nat := countFailures maxConsecutiveRenewFailures

end Redlock

namespace Client

/-- `MAX_CONSECUTIVE_RENEW_FAILURES` -/
def maxConsecutiveRenewFailures : Nat := 2

def tolerate : Nat → Except Error Bool → Option Nat := countFailures maxConsecutiveRenewFailures

end Client

/-- The position of the outcome at which a loop marks its handle lost and returns. -/
def lostAt (react : Nat → Except Error Bool → Option Nat) (failures : Nat) :
    List (Except Error Bool) → Option Nat
  | [] => none
  | outcome :: rest =>
    match react failures outcome with
    | none => some 0
    | some failures => (lostAt react failures rest).map (· + 1)

/-- Before the first definitive answer that the lock is gone no renewal fails right
after another one. -/
def Spaced (outcomes : List (Except Error Bool)) : Prop :=
  ∀ before first second rest, outcomes = before ++ .error first :: .error second :: rest →
    .ok false ∈ before

/-- The next renewal does not fail. -/
def Recovers (outcomes : List (Except Error Bool)) : Prop :=
  ∀ failure rest, outcomes ≠ .error failure :: rest

namespace Spaced
variable {outcomes : List (Except Error Bool)}

theorem nil : Spaced [] := by
  intro before first second rest split
  simp at split

theorem gone : Spaced (.ok false :: outcomes) := by
  intro before first second rest split
  cases before with
  | nil => simp at split
  | cons outcome before =>
    obtain ⟨rfl, _⟩ := List.cons.inj split
    exact List.mem_cons_self

/-- An outcome that is no definitive answer, at the front. -/
theorem cons_iff {outcome : Except Error Bool} (unclear : outcome ≠ .ok false) :
    Spaced (outcome :: outcomes) ↔
      ((∃ failure, outcome = .error failure) → Recovers outcomes) ∧ Spaced outcomes := by
  constructor
  · intro spaced
    constructor
    · rintro ⟨first, rfl⟩ second rest rfl
      exact absurd (spaced [] first second rest rfl) List.not_mem_nil
    · intro before first second rest split
      have found := spaced (outcome :: before) first second rest (by rw [split, List.cons_append])
      exact (List.mem_cons.mp found).resolve_left unclear.symm
  · rintro ⟨recovers, spaced⟩ before first second rest split
    cases before with
    | nil =>
      obtain ⟨failed, split⟩ := List.cons.inj split
      exact absurd split (recovers ⟨first, failed⟩ second rest)
    | cons earlier before =>
      obtain ⟨_, split⟩ := List.cons.inj split
      exact List.mem_cons_of_mem _ (spaced before first second rest split)

end Spaced

/-- From the same counter, still below both budgets, the loop with the smaller budget
marks its handle at the same position if no further failure meets a failure. -/
theorem lostAt_eq_iff {failures : Nat} (within : failures ≤ 1) (outcomes : List (Except Error Bool)) :
    lostAt (Single.tolerate .balanced) failures outcomes = lostAt (countFailures 2) failures outcomes ↔
      (failures = 1 → Recovers outcomes) ∧ Spaced outcomes := by
  induction outcomes generalizing failures with
  | nil => simp [lostAt, Recovers, Spaced.nil]
  | cons outcome rest ih =>
    have shift {a b : Option Nat} : a.map (· + 1) = b.map (· + 1) ↔ a = b :=
      (Option.map_injective (add_left_injective 1)).eq_iff
    cases outcome with
    | ok renewed =>
      cases renewed with
      | true =>
        simp only [lostAt, Single.tolerate, countFailures, shift]
        rw [ih (Nat.zero_le 1), Spaced.cons_iff (by simp)]
        simp [Recovers]
      | false => simp [lostAt, Single.tolerate, countFailures, Recovers, Spaced.gone]
    | error failure =>
      obtain rfl | rfl : failures = 0 ∨ failures = 1 := by omega
      · have single : Single.tolerate .balanced 0 (.error failure) = some 1 := rfl
        have counted : countFailures 2 0 (.error failure) = some 1 := rfl
        simp only [lostAt, single, counted, shift]
        rw [ih (Nat.le_refl 1), Spaced.cons_iff (by simp)]
        simp
      · have single : Single.tolerate .balanced 1 (.error failure) = some 2 := rfl
        have counted : countFailures 2 1 (.error failure) = none := rfl
        simp only [lostAt, single, counted]
        simp [Recovers]

/-- The three loops mark the handle lost at the same position, or none does. -/
theorem renewal_loops_agree_iff (outcomes : List (Except Error Bool)) :
    (lostAt (Single.tolerate .balanced) 0 outcomes = lostAt Redlock.tolerate 0 outcomes ∧
      lostAt Redlock.tolerate 0 outcomes = lostAt Client.tolerate 0 outcomes) ↔ Spaced outcomes := by
  have quorum : Redlock.tolerate = countFailures 2 := rfl
  have remote : Client.tolerate = countFailures 2 := rfl
  rw [quorum, remote, lostAt_eq_iff (Nat.zero_le 1)]
  simp

/-- After two failures in a row only the single-instance loop goes on. -/
theorem renewal_loops_differ : ¬ ∀ outcomes : List (Except Error Bool),
    lostAt (Single.tolerate .balanced) 0 outcomes = lostAt Redlock.tolerate 0 outcomes ∧
      lostAt Redlock.tolerate 0 outcomes = lostAt Client.tolerate 0 outcomes := by
  intro agree
  have same := (agree [.error (.backend "timed out"), .error (.backend "timed out"), .ok true]).1
  exact absurd same (by decide)

end Palisade
