import Palisade.Transition
import Palisade.Core

/-! The polling loops behind `try_lock_for` of the three backends, against a monotonic clock.
The clock is read at several points of a loop and any time may pass between two of them. An
attempt is answered by the store after any time or never; only the Redis loop bounds it by a
timer, which is due a slice after it was started. The slice is at most two seconds whatever the
wait, so that this timer ends an unbounded wait, too, with `Timeout`. Where the connection gives
up on a response earlier than that, the attempt counts as answered, with an error. Instants are
in nanoseconds. -/
namespace Palisade.Waiting
open Transition

/-- A `std::time::Instant`: whole seconds in an `i64` and a fraction. -/
structure Instant where
  nanos : Nat
  fits : nanos < 2 ^ 63 * 10 ^ 9
  deriving DecidableEq

def Instant.checkedAdd (now : Instant) (wait : Duration) : Option Instant :=
  if fits : now.nanos + wait.nanos < 2 ^ 63 * 10 ^ 9 then some ⟨now.nanos + wait.nanos, fits⟩ else none

/-- `Duration::MAX`, which `LockManager::lock` passes on. -/
def durationMax : Duration := ⟨2 ^ 64 * 10 ^ 9 - 1, by decide⟩

inductive Backend where
  | redis
  | redlock
  | etcd
  deriving DecidableEq

def pollInterval : Nat := 20000000

/-- The longest attempt of the Redis loop. -/
def attemptCap : Nat := 2000000000

/-- The budget of an attempt where the deadline gives none. -/
def fallback : Nat := 5000000000

/-- The budget of a Redis attempt: `unwrap_or` covers both a missing deadline and one that
has passed. -/
def remaining (deadline : Option Nat) (now : Nat) : Nat :=
  match deadline with
  | some deadline => if now ≤ deadline then deadline - now else fallback
  | none => fallback

/-- One attempt: when its budget was read off the clock, when its timer was started, and how
long that runs. -/
structure Attempt where
  read : Nat
  start : Nat
  slice : Nat
  deriving DecidableEq

def Attempt.due (a : Attempt) : Nat := a.start + a.slice

inductive Phase where
  /-- The sum of instant and wait is not representable. -/
  | panicked
  /-- Before the clock is read for the budget of the next attempt. -/
  | reading
  /-- The budget is known and the timer not started. -/
  | starting (read : Nat)
  | attempting (timer : Option Attempt)
  /-- The attempt found the lock held. -/
  | deciding
  | sleeping (wake : Nat)
  | granted
  | failed (error : Error)
  /-- The timer of an attempt ran out. -/
  | elapsed
  /-- The deadline had come after an attempt. -/
  | timedOut
  deriving DecidableEq

/-- What the call has returned. -/
def Phase.result (key : String) : Phase → Option (Except Error Unit)
  | .granted => some (.ok ())
  | .failed error => some (.error error)
  | .elapsed | .timedOut => some (.error (.timeout key))
  | .panicked | .reading | .starting _ | .attempting _ | .deciding | .sleeping _ => none

/-- `attempts` lists the timed attempts and `answers` counts those the store answered; the
loops read neither. -/
structure Wait where
  now : Nat
  deadline : Option Nat
  phase : Phase
  attempts : List Attempt
  answers : Nat
  deriving DecidableEq

/-- The top of a loop. -/
def Backend.top : Backend → Phase
  | .redis => .reading
  | .redlock | .etcd => .attempting none

/-- The deadline: the Redis manager adds with `checked_add`, the others with `+`, which panics. -/
def Backend.enter (backend : Backend) (start : Instant) (wait : Duration) : Wait :=
  match start.checkedAdd wait, backend with
  | some deadline, backend => ⟨start.nanos, some deadline.nanos, backend.top, [], 0⟩
  | none, .redis => ⟨start.nanos, none, Backend.redis.top, [], 0⟩
  | none, .redlock | none, .etcd => ⟨start.nanos, none, .panicked, [], 0⟩

/-- How long to sleep after an attempt that found the lock held, if the call goes on. -/
def Backend.sleepFor (backend : Backend) (deadline : Option Nat) (now : Nat) : Option Nat :=
  match deadline, backend with
  | some deadline, .redis => if deadline - now = 0 then none else some (min pollInterval (deadline - now))
  | some deadline, .redlock | some deadline, .etcd => if deadline ≤ now then none else some pollInterval
  | none, _ => some pollInterval

inductive Outcome where
  | granted
  | held
  | failed (error : Error)
  deriving DecidableEq

inductive Move where
  | read
  | start
  | answer (outcome : Outcome)
  | elapse
  | check
  | wake
  deriving DecidableEq

/-- One move of the call, `delay` after the one before it. -/
structure Timed where
  delay : Nat
  move : Move
  deriving DecidableEq

def Wait.act (backend : Backend) (s : Wait) : Move → Option Wait
  | .read =>
    match s.phase with
    | .reading => some { s with phase := .starting s.now }
    | _ => none
  | .start =>
    match s.phase with
    | .starting read =>
      let attempt : Attempt := ⟨read, s.now, min (remaining s.deadline read) attemptCap⟩
      some { s with phase := .attempting (some attempt), attempts := s.attempts ++ [attempt] }
    | _ => none
  | .answer outcome =>
    match s.phase with
    | .attempting _ =>
      match outcome with
      | .granted => some { s with phase := .granted, answers := s.answers + 1 }
      | .held => some { s with phase := .deciding, answers := s.answers + 1 }
      | .failed error => some { s with phase := .failed error, answers := s.answers + 1 }
    | _ => none
  | .elapse =>
    match s.phase with
    | .attempting (some attempt) => if attempt.due ≤ s.now then some { s with phase := .elapsed } else none
    | _ => none
  | .check =>
    match s.phase with
    | .deciding =>
      match backend.sleepFor s.deadline s.now with
      | none => some { s with phase := .timedOut }
      | some duration => some { s with phase := .sleeping (s.now + duration) }
    | _ => none
  | .wake =>
    match s.phase with
    | .sleeping wake => if wake ≤ s.now then some { s with phase := backend.top } else none
    | _ => none

/-- `try_lock_for` called at `start`. -/
def tryLockFor (backend : Backend) (start : Instant) (wait : Duration) : Machine Wait Timed where
  initial s := s = backend.enter start wait
  step s timed := { s with now := s.now + timed.delay }.act backend timed.move

/-- Everything a call can do. -/
inductive Wait.Moves (backend : Backend) (s : Wait) : Wait → Prop where
  | read (phase : s.phase = .reading) : Moves backend s { s with phase := .starting s.now }
  | start (attempt : Attempt) (phase : s.phase = .starting attempt.read) (started : attempt.start = s.now)
      (sliced : attempt.slice = min (remaining s.deadline attempt.read) attemptCap) :
      Moves backend s { s with phase := .attempting (some attempt), attempts := s.attempts ++ [attempt] }
  | answer (timer : Option Attempt) (phase : s.phase = .attempting timer) (next : Phase)
      (follows : next = .granted ∨ next = .deciding ∨ ∃ error, next = .failed error) :
      Moves backend s { s with phase := next, answers := s.answers + 1 }
  | elapse (attempt : Attempt) (phase : s.phase = .attempting (some attempt)) (due : attempt.due ≤ s.now) :
      Moves backend s { s with phase := .elapsed }
  | giveUp (phase : s.phase = .deciding) (passed : backend.sleepFor s.deadline s.now = none) :
      Moves backend s { s with phase := .timedOut }
  | sleep (duration : Nat) (phase : s.phase = .deciding) :
      Moves backend s { s with phase := .sleeping (s.now + duration) }
  | wake (instant : Nat) (phase : s.phase = .sleeping instant) : Moves backend s { s with phase := backend.top }

theorem Wait.act_moves {backend : Backend} {s t : Wait} {move : Move} (stepped : s.act backend move = some t) :
    s.Moves backend t := by
  cases move with
  | read =>
    simp only [act] at stepped
    split at stepped <;> cases stepped
    exact .read ‹_›
  | start =>
    simp only [act] at stepped
    split at stepped <;> cases stepped
    exact .start _ ‹_› rfl rfl
  | answer outcome =>
    simp only [act] at stepped
    split at stepped <;> [skip; contradiction]
    cases outcome with
    | granted =>
      cases stepped
      exact .answer _ ‹_› _ (.inl rfl)
    | held =>
      cases stepped
      exact .answer _ ‹_› _ (.inr (.inl rfl))
    | failed error =>
      cases stepped
      exact .answer _ ‹_› _ (.inr (.inr ⟨error, rfl⟩))
  | elapse =>
    simp only [act] at stepped
    split at stepped <;> [skip; contradiction]
    split at stepped <;> cases stepped
    exact .elapse _ ‹_› ‹_›
  | check =>
    simp only [act] at stepped
    split at stepped <;> [skip; contradiction]
    split at stepped <;> cases stepped
    · exact .giveUp ‹_› ‹_›
    · exact .sleep _ ‹_›
  | wake =>
    simp only [act] at stepped
    split at stepped <;> [skip; contradiction]
    split at stepped <;> cases stepped
    exact .wake _ ‹_›

/-! The deadline of a representable wait, in the Redis loop. -/

/-- The budget was read before the deadline, and the timer started with the reading or early
enough for the longest attempt. -/
def Attempt.Prompt (deadline : Nat) (a : Attempt) : Prop :=
  a.read ≤ deadline ∧ (a.start = a.read ∨ a.start + attemptCap ≤ deadline)

/-- The timer started with the reading in the last part of the wait that one attempt covers,
or the longest attempt before the deadline. -/
def Attempt.Covers (deadline : Nat) (a : Attempt) : Prop :=
  (a.start = a.read ∧ a.read ≤ deadline ∧ deadline ≤ a.read + attemptCap) ∨ a.start + attemptCap = deadline

/-- What the loop makes of an attempt. -/
structure Attempt.Timed (deadline : Nat) (a : Attempt) : Prop where
  order : a.read ≤ a.start
  sliced : a.slice = min (remaining (some deadline) a.read) attemptCap

section
variable {deadline : Nat} {a : Attempt}

theorem cap_le_fallback : attemptCap ≤ fallback := by decide

theorem attemptCap_pos : 0 < attemptCap := by decide

/-- A budget read after the deadline is the longest attempt. -/
theorem Attempt.Timed.due_eq (timed : a.Timed deadline) :
    a.due = a.start + if a.read ≤ deadline then min (deadline - a.read) attemptCap else attemptCap := by
  rw [Attempt.due, timed.sliced, remaining]
  split
  · rfl
  · rw [Nat.min_eq_right cap_le_fallback]

theorem Attempt.Timed.due_le_iff (timed : a.Timed deadline) : a.due ≤ deadline ↔ a.Prompt deadline := by
  have order := timed.order
  have positive := attemptCap_pos
  rw [timed.due_eq, Attempt.Prompt]
  split <;> omega

theorem Attempt.Timed.due_eq_iff (timed : a.Timed deadline) : a.due = deadline ↔ a.Covers deadline := by
  have order := timed.order
  have positive := attemptCap_pos
  rw [timed.due_eq, Attempt.Covers]
  split <;> omega

end

/-- The call is in its first attempt or returned when that ran out, where the store has not
answered. -/
def Wait.Silent (s : Wait) : Prop :=
  (s.attempts = [] ∧ (s.phase = .reading ∨ ∃ read, s.phase = .starting read)) ∨
    ∃ a, s.attempts = [a] ∧ (s.phase = .attempting (some a) ∨ s.phase = .elapsed ∧ a.due ≤ s.now)

structure Wait.Inv (deadline : Nat) (s : Wait) : Prop where
  kept : s.deadline = some deadline
  clocked : ∀ read, s.phase = .starting read → read ≤ s.now
  timed : ∀ a ∈ s.attempts, a.Timed deadline
  silent : s.answers = 0 → s.Silent

section
variable {deadline : Nat} {s t : Wait}

theorem Wait.Inv.wait (inv : s.Inv deadline) (delay : Nat) : { s with now := s.now + delay }.Inv deadline := by
  refine ⟨inv.kept, ?_, inv.timed, ?_⟩
  · intro read starting
    exact (inv.clocked read starting).trans (Nat.le_add_right _ _)
  · intro quiet
    rcases inv.silent quiet with before | ⟨a, only, waiting | ⟨ended, due⟩⟩
    · exact .inl before
    · exact .inr ⟨a, only, .inl waiting⟩
    · exact .inr ⟨a, only, .inr ⟨ended, due.trans (Nat.le_add_right _ _)⟩⟩

theorem Wait.Silent.untimed (silent : s.Silent) (early : s.phase = .reading ∨ ∃ read, s.phase = .starting read) :
    s.attempts = [] := by
  rcases silent with ⟨none, _⟩ | ⟨a, _, waiting | ⟨ended, _⟩⟩
  · exact none
  · simp [waiting] at early
  · simp [ended] at early

theorem Wait.Silent.only {a : Attempt} (silent : s.Silent) (waiting : s.phase = .attempting (some a)) :
    s.attempts = [a] := by
  rcases silent with ⟨_, early | ⟨read, early⟩⟩ | ⟨first, only, here | ⟨ended, _⟩⟩
  · simp [waiting] at early
  · simp [waiting] at early
  · cases waiting.symm.trans here
    exact only
  · simp [waiting] at ended

/-- The loop goes on after an answer only. -/
theorem Wait.Silent.unanswered (silent : s.Silent) : s.phase ≠ .deciding ∧ ∀ wake, s.phase ≠ .sleeping wake := by
  rcases silent with ⟨_, early | ⟨read, early⟩⟩ | ⟨a, _, waiting | ⟨ended, _⟩⟩
  · simp [early]
  · simp [early]
  · simp [waiting]
  · simp [ended]

theorem Wait.Inv.moves (inv : s.Inv deadline) (moves : s.Moves .redis t) : t.Inv deadline := by
  cases moves with
  | read phase =>
    refine ⟨inv.kept, ?_, inv.timed, ?_⟩
    · rintro read ⟨⟩
      exact Nat.le_refl _
    · intro quiet
      exact .inl ⟨(inv.silent quiet).untimed (.inl phase), .inr ⟨_, rfl⟩⟩
  | start attempt phase started sliced =>
    refine ⟨inv.kept, by simp, ?_, ?_⟩
    · intro a member
      rcases List.mem_append.mp member with old | new
      · exact inv.timed a old
      · cases List.mem_singleton.mp new
        rw [inv.kept] at sliced
        exact ⟨started ▸ inv.clocked _ phase, sliced⟩
    · intro quiet
      have none := (inv.silent quiet).untimed (.inr ⟨_, phase⟩)
      exact .inr ⟨attempt, by simp [none], .inl rfl⟩
  | answer timer phase next follows =>
    refine ⟨inv.kept, ?_, inv.timed, by simp⟩
    rintro read rfl
    simp at follows
  | elapse attempt phase due =>
    refine ⟨inv.kept, by simp, inv.timed, ?_⟩
    intro quiet
    exact .inr ⟨attempt, (inv.silent quiet).only phase, .inr ⟨rfl, due⟩⟩
  | giveUp phase | sleep _ phase =>
    refine ⟨inv.kept, by simp, inv.timed, ?_⟩
    intro quiet
    exact absurd phase (inv.silent quiet).unanswered.1
  | wake _ phase =>
    refine ⟨inv.kept, by simp [Backend.top], inv.timed, ?_⟩
    intro quiet
    exact absurd phase ((inv.silent quiet).unanswered.2 _)

theorem inv_reachable {start : Instant} {wait : Duration} {last : Instant} (fits : start.checkedAdd wait = some last)
    (reach : (tryLockFor .redis start wait).Reachable s) : s.Inv last.nanos := by
  refine Machine.Reachable.invariant ?_ ?_ reach
  · rintro s rfl
    simp only [Backend.enter, fits]
    exact ⟨rfl, by simp [Backend.top], by simp, fun _ => .inl ⟨rfl, .inl rfl⟩⟩
  · intro s timed t inv stepped
    exact (inv.wait timed.delay).moves (Wait.act_moves stepped)

/-- An attempt's timer is due by the deadline exactly if the attempt is prompt. Without an
answer of the store the call ends with the timer of its first attempt, no earlier, and can
end once it is due; that is the deadline exactly if the attempt covers what is left. -/
theorem attempts_end_by_deadline {start last : Instant} {wait : Duration} (fits : start.checkedAdd wait = some last)
    (reach : (tryLockFor .redis start wait).Reachable s) :
    (∀ a ∈ s.attempts, a.due ≤ last.nanos ↔ a.Prompt last.nanos) ∧
    (s.answers = 0 → ∀ a ∈ s.attempts, s.attempts = [a] ∧ (a.due = last.nanos ↔ a.Covers last.nanos) ∧
      (s.phase = .elapsed ∧ a.due ≤ s.now ∨ s.phase = .attempting (some a) ∧
        ∀ delay, a.due ≤ s.now + delay → ∃ t, (tryLockFor .redis start wait).step s ⟨delay, .elapse⟩ = some t ∧
          t.phase = .elapsed)) := by
  have inv := inv_reachable fits reach
  constructor
  · exact fun a member => (inv.timed a member).due_le_iff
  · intro quiet a member
    have ending := (inv.timed a member).due_eq_iff
    rcases inv.silent quiet with ⟨none, _⟩ | ⟨first, only, phase⟩
    · simp [none] at member
    · rw [only] at member
      cases List.mem_singleton.mp member
      refine ⟨only, ending, ?_⟩
      rcases phase with waiting | ended
      · refine .inr ⟨waiting, fun delay due => ?_⟩
        simp only [tryLockFor, Wait.act, waiting, if_pos due]
        exact ⟨_, rfl, rfl⟩
      · exact .inl ended

end

/-- The start of the clock. -/
def zero : Instant := ⟨0, by decide⟩

/-- A second to wait. -/
def second : Duration := .fromMillis 1000

/-- A store that never answers is left after the second the caller gave. -/
theorem silent_store_ends_by_deadline : ∃ (s : Wait) (a : Attempt), a ∈ s.attempts ∧ s.phase = .elapsed ∧
    a.Prompt second.nanos ∧ a.due ≤ second.nanos ∧ a.due = second.nanos := by
  obtain ⟨s, reach, quiet, ended, only⟩ := (tryLockFor .redis zero second).exists_reachableWhen (fun _ _ => True)
    (fun s => s.answers = 0 ∧ s.phase = .elapsed ∧ s.attempts = [⟨0, 0, 10 ^ 9⟩])
    (rfl : (tryLockFor .redis zero second).initial _)
    [⟨0, .read⟩, ⟨0, .start⟩, ⟨10 ^ 9 + 7, .elapse⟩] (by decide)
  have fits : zero.checkedAdd second = some ⟨10 ^ 9, by decide⟩ := by decide
  have member : (⟨0, 0, 10 ^ 9⟩ : Attempt) ∈ s.attempts := by simp [only]
  obtain ⟨bounded, silent⟩ := attempts_end_by_deadline fits reach
  have prompt : (⟨0, 0, 10 ^ 9⟩ : Attempt).Prompt (10 ^ 9) := ⟨by decide, .inl rfl⟩
  have covers : (⟨0, 0, 10 ^ 9⟩ : Attempt).Covers (10 ^ 9) := .inl ⟨rfl, by decide, by decide⟩
  exact ⟨s, _, member, ended, prompt, (bounded _ member).mpr prompt, (silent quiet _ member).2.1.mpr covers⟩

/-- The lock is found held, the call sleeps and wakes two seconds after the deadline: the
next attempt is given two seconds more. -/
theorem late_attempt_outlives_deadline : ¬ ∀ (start last : Instant) (wait : Duration) (s : Wait),
    start.checkedAdd wait = some last → (tryLockFor .redis start wait).Reachable s →
    ∀ a ∈ s.attempts, a.due ≤ last.nanos := by
  intro always
  obtain ⟨s, reach, attempted⟩ := (tryLockFor .redis zero second).exists_reachableWhen (fun _ _ => True)
    (fun s => ⟨3 * 10 ^ 9, 3 * 10 ^ 9, 2 * 10 ^ 9⟩ ∈ s.attempts)
    (rfl : (tryLockFor .redis zero second).initial _)
    [⟨0, .read⟩, ⟨0, .start⟩, ⟨10 ^ 6, .answer .held⟩, ⟨0, .check⟩, ⟨3 * 10 ^ 9 - 10 ^ 6, .wake⟩, ⟨0, .read⟩,
      ⟨0, .start⟩]
    (by decide)
  have fits : zero.checkedAdd second = some ⟨10 ^ 9, by decide⟩ := by decide
  exact absurd (always _ _ _ s fits reach _ attempted) (by decide)

/-! Waits whose deadline is not representable. -/

section
variable {backend : Backend} {start : Instant} {wait : Duration} {s t : Wait}

/-- What stays of the deadline, and that a call without one neither gives up nor shortens an
attempt. -/
structure Wait.Endures (start : Instant) (wait : Duration) (s : Wait) : Prop where
  kept : s.deadline = (start.checkedAdd wait).map Instant.nanos
  calm : s.phase ≠ .panicked
  patient : start.checkedAdd wait = none → s.phase ≠ .timedOut
  whole : start.checkedAdd wait = none → ∀ a ∈ s.attempts, a.slice = attemptCap

theorem Wait.Endures.moves (endures : s.Endures start wait) (moves : s.Moves backend t) : t.Endures start wait := by
  cases moves with
  | read | elapse | sleep => exact ⟨endures.kept, by simp, by simp, endures.whole⟩
  | start attempt _ _ sliced =>
    refine ⟨endures.kept, by simp, by simp, fun unbounded a member => ?_⟩
    rcases List.mem_append.mp member with old | new
    · exact endures.whole unbounded a old
    · cases List.mem_singleton.mp new
      rw [sliced, endures.kept, unbounded]
      exact Nat.min_eq_right cap_le_fallback
  | answer _ _ next follows =>
    refine ⟨endures.kept, ?_, fun _ => ?_, endures.whole⟩
    · rintro rfl
      simp at follows
    · rintro rfl
      simp at follows
  | giveUp _ passed =>
    refine ⟨endures.kept, by simp, fun unbounded => ?_, endures.whole⟩
    rw [endures.kept, unbounded] at passed
    simp [Backend.sleepFor] at passed
  | wake =>
    refine ⟨endures.kept, ?_, fun _ => ?_, endures.whole⟩
    · cases backend <;> simp [Backend.top]
    · cases backend <;> simp [Backend.top]

theorem endures_reachable (admitted : backend = .redis ∨ start.checkedAdd wait ≠ none)
    (reach : (tryLockFor backend start wait).Reachable s) : s.Endures start wait := by
  refine Machine.Reachable.invariant ?_ ?_ reach
  · rintro s rfl
    cases sum : start.checkedAdd wait with
    | some last =>
      simp only [Backend.enter, sum]
      refine ⟨by simp [sum], ?_, by simp [sum], by simp⟩
      cases backend <;> simp [Backend.top]
    | none =>
      obtain rfl := admitted.resolve_right (not_not_intro sum)
      simp only [Backend.enter, sum]
      exact ⟨by simp [sum], by simp [Backend.top], by simp [Backend.top], by simp⟩
  · intro s timed t endures stepped
    have waited : Wait.Endures start wait { s with now := s.now + timed.delay } :=
      ⟨endures.kept, endures.calm, endures.patient, endures.whole⟩
    exact waited.moves (Wait.act_moves stepped)

end

theorem checkedAdd_durationMax (start : Instant) : start.checkedAdd durationMax = none := by
  have large : ¬ start.nanos + durationMax.nanos < 2 ^ 63 * 10 ^ 9 := by
    have nanos : durationMax.nanos = 2 ^ 64 * 10 ^ 9 - 1 := rfl
    omega
  rw [Instant.checkedAdd, dif_neg large]

/-- A call never panics, and a wait without a representable end neither ends it nor shortens
one of its attempts, exactly if it is the Redis manager's or the end is representable. That
of the longest wait, which `LockManager::lock` asks for, never is. -/
theorem endures_every_wait_iff (backend : Backend) (start : Instant) (wait : Duration) :
    ((∀ s, (tryLockFor backend start wait).Reachable s →
        s.phase ≠ .panicked ∧ (start.checkedAdd wait = none →
          s.phase ≠ .timedOut ∧ ∀ a ∈ s.attempts, a.slice = attemptCap)) ↔
      backend = .redis ∨ start.checkedAdd wait ≠ none) ∧ start.checkedAdd durationMax = none := by
  refine ⟨⟨fun always => ?_, fun admitted s reach => ?_⟩, checkedAdd_durationMax start⟩
  · by_contra refused
    rw [not_or, not_not] at refused
    obtain ⟨other, sum⟩ := refused
    have first := (always (backend.enter start wait) (.initial rfl)).1
    cases backend with
    | redis => contradiction
    | redlock | etcd => simp [Backend.enter, sum] at first
  · have endures := endures_reachable admitted reach
    exact ⟨endures.calm, fun unbounded => ⟨endures.patient unbounded, endures.whole unbounded⟩⟩

/-- `lock` of a Redlock manager panics at once. -/
theorem longest_wait_panics : ¬ ∀ (backend : Backend) (start : Instant) (wait : Duration) (s : Wait),
    (tryLockFor backend start wait).Reachable s → s.phase ≠ .panicked := by
  intro always
  have first := always .redlock zero durationMax _ (.initial rfl)
  simp [Backend.enter, checkedAdd_durationMax] at first

end Palisade.Waiting
