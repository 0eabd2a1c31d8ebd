import Palisade.Latch
import Palisade.Waiting

/-! Waiting at the count-down latch. Any clients create the latch, count down and wait, each
wait a loop of its own that reads the count and sleeps; their reads and everybody's calls
come in any order, at any times, and a read may fail. Times are in milliseconds, deadlines in
nanoseconds. -/
namespace Palisade.Barrier
open Redis Transition

/-- `POLL_INTERVAL`, in milliseconds. -/
def pollInterval : Nat := 20

/-- The first nanosecond that is no `std::time::Instant`: whole seconds are in an `i64`. -/
def instantLimit : Nat := 2 ^ 63 * 10 ^ 9

inductive Phase where
  /-- The sum of instant and timeout is not representable. -/
  | panicked
  /-- Before the next `count`. -/
  | reading
  /-- The count was not zero. -/
  | deciding
  | sleeping (wake : Nat)
  | returned (result : Except Error Unit)
  deriving DecidableEq

/-- A call of `wait_until_zero`. `reads` counts its reads and `lost` says how one of them failed;
the loop knows neither. -/
structure Wait where
  client : String
  start : Nat
  timeout : Duration
  phase : Phase
  reads : Nat
  lost : Option String

def Wait.deadline (w : Wait) : Nat := w.start * 10 ^ 6 + w.timeout.nanos

/-- A wait that begins: `Instant::now() + timeout` panics where there is no such instant. -/
def Wait.enter (client : String) (now : Nat) (timeout : Duration) : Wait where
  client
  start := now
  timeout
  phase := if now * 10 ^ 6 + timeout.nanos < instantLimit then .reading else .panicked
  reads := 0
  lost := none

structure State where
  latch : Latch.State
  waits : List Wait

inductive Action where
  | call (call : Latch.Call)
  | wait (client : String) (timeout : Duration)
  | read (i : Nat)
  /-- The request of a read fails. -/
  | fail (i : Nat) (message : String)
  | check (i : Nat)
  | wake (i : Nat)
  deriving DecidableEq

structure Timed where
  delay : Nat
  action : Action
  deriving DecidableEq

section
variable (numeral : String → Option Rat) (key : String)

/-- The loop at its read of the count. -/
def Wait.read (w : Wait) (now : Nat) (db : Keyspace) : Option Wait :=
  match w.phase with
  | .reading => some { w with
      reads := w.reads + 1
      phase := match (Latch.count numeral key now db).1 with
        | .error error => .returned (.error error)
        | .ok count => if count = 0 then .returned (.ok ()) else .deciding }
  | _ => none

/-- The read gets no answer, and `?` ends the loop. -/
def Wait.fail (message : String) (w : Wait) : Option Wait :=
  match w.phase with
  | .reading => some { w with
      reads := w.reads + 1
      lost := some message
      phase := .returned (.error (.backend s!"latch op failed: {message}")) }
  | _ => none

/-- The loop looks at the clock. -/
def Wait.check (w : Wait) (now : Nat) : Option Wait :=
  match w.phase with
  | .deciding => some { w with
      phase := if w.deadline ≤ now * 10 ^ 6 then .returned (.error (.timeout key)) else .sleeping (now + pollInterval) }
  | _ => none

def Wait.wake (w : Wait) (now : Nat) : Option Wait :=
  match w.phase with
  | .sleeping wake => if wake ≤ now then some { w with phase := .reading } else none
  | _ => none

def State.move (s : State) (i : Nat) (move : Wait → Option Wait) : Option State :=
  (s.waits[i]?.bind move).map fun w => { s with waits := s.waits.set i w }

def State.act (s : State) : Action → Option State
  | .call call => (s.latch.act numeral key call).map fun latch => ⟨latch, s.waits⟩
  | .wait client timeout =>
    if s.latch.handles client then some { s with waits := s.waits ++ [.enter client s.latch.now timeout] } else none
  | .read i => s.move i fun w => w.read numeral key s.latch.now s.latch.db
  | .fail i message => s.move i fun w => w.fail message
  | .check i => s.move i fun w => w.check key s.latch.now
  | .wake i => s.move i fun w => w.wake s.latch.now

def barrier : Machine State Timed where
  initial s := (Latch.latch numeral key).initial s.latch ∧ s.waits = []
  step s timed := { s with latch := s.latch.wait timed.delay }.act numeral key timed.action

end

section
variable {numeral : String → Option Rat} {key : String}

/-- As many have counted down as the first `create` asked for. -/
def Opened (s : Latch.State) : Prop := ∃ n, s.first = some n ∧ n.toNat ≤ s.answers.length

/-- The latch can be read once it exists, and is at zero exactly when it opened. -/
theorem count_eq (numeral : String → Option Rat) {s : Latch.State} (inv : Latch.Inv key s) (existing : s.first ≠ none) :
    ∃ left, Latch.count numeral key s.now s.db = (.ok left, s.db) ∧ (left = 0 ↔ Opened s) := by
  obtain ⟨n, created⟩ := Option.ne_none_iff_exists'.mp existing
  simp only [Latch.Inv, created] at inv
  refine ⟨_, inv.1.count, ?_⟩
  simp only [Opened, created, Option.some.injEq, exists_eq_left']
  omega

/-- What an action of the latch leaves. -/
structure Later (s t : Latch.State) : Prop where
  now : s.now ≤ t.now
  first : ∀ n, s.first = some n → t.first = some n
  answers : s.answers.length ≤ t.answers.length

theorem Later.opened {s t : Latch.State} (later : Later s t) (opened : Opened s) : Opened t :=
  let ⟨n, created, counted⟩ := opened
  ⟨n, later.first n created, counted.trans later.answers⟩

theorem later_act {s t : Latch.State} {call : Latch.Call} (stepped : s.act numeral key call = some t) : Later s t := by
  cases call with
  | create client n =>
    simp only [Latch.State.act] at stepped
    split at stepped
    · cases stepped
      exact ⟨Nat.le_refl _, fun _ => id, Nat.le_refl _⟩
    · cases stepped
      refine ⟨Nat.le_refl _, fun n created => ?_, Nat.le_refl _⟩
      simp [created]
  | countDown client =>
    simp only [Latch.State.act] at stepped
    split at stepped <;> cases stepped
    exact ⟨Nat.le_refl _, fun _ => id, by simp⟩
  | count client =>
    simp only [Latch.State.act] at stepped
    split at stepped <;> cases stepped
    exact ⟨Nat.le_refl _, fun _ => id, Nat.le_refl _⟩

/-- How a wait can end: the latch opened, the deadline came, or a read failed. -/
inductive Wait.Ended (key : String) (s : Latch.State) (w : Wait) : Except Error Unit → Prop where
  | opened (opened : Opened s) : Ended key s w (.ok ())
  | timedOut (passed : w.deadline ≤ s.now * 10 ^ 6) : Ended key s w (.error (.timeout key))
  | lost {message : String} (lost : w.lost = some message) :
      Ended key s w (.error (.backend s!"latch op failed: {message}"))

/-- What is known of a wait, by where it is in its loop. -/
inductive Wait.Fine (key : String) (s : Latch.State) (w : Wait) : Phase → Prop where
  | panicked (beyond : instantLimit ≤ w.deadline) (read : w.reads = 0) : Fine key s w .panicked
  | reading (slept : w.start + pollInterval * w.reads ≤ s.now) (within : w.deadline < instantLimit)
      (early : w.reads ≠ 0 → pollInterval * (w.reads - 1) * 10 ^ 6 < w.timeout.nanos) : Fine key s w .reading
  | deciding (slept : w.start + pollInterval * (w.reads - 1) ≤ s.now) (within : w.deadline < instantLimit)
      (read : 0 < w.reads) (early : 1 < w.reads → pollInterval * (w.reads - 2) * 10 ^ 6 < w.timeout.nanos) :
      Fine key s w .deciding
  | sleeping {instant : Nat} (slept : w.start + pollInterval * w.reads ≤ instant) (within : w.deadline < instantLimit)
      (read : 0 < w.reads) (early : pollInterval * (w.reads - 1) * 10 ^ 6 < w.timeout.nanos) :
      Fine key s w (.sleeping instant)
  | returned {result : Except Error Unit} (within : w.deadline < instantLimit)
      (early : 1 < w.reads → pollInterval * (w.reads - 2) * 10 ^ 6 < w.timeout.nanos) (ended : w.Ended key s result) :
      Fine key s w (.returned result)

theorem Wait.Ended.later {s t : Latch.State} {w : Wait} {result : Except Error Unit} (ended : w.Ended key s result)
    (later : Later s t) : w.Ended key t result := by
  cases ended with
  | opened opened => exact .opened (later.opened opened)
  | timedOut passed => exact .timedOut (passed.trans (Nat.mul_le_mul_right _ later.now))
  | lost lost => exact .lost lost

theorem Wait.Fine.later {s t : Latch.State} {w : Wait} {phase : Phase} (fine : w.Fine key s phase) (later : Later s t) :
    w.Fine key t phase := by
  cases fine with
  | panicked beyond read => exact .panicked beyond read
  | reading slept within early => exact .reading (slept.trans later.now) within early
  | deciding slept within read early => exact .deciding (slept.trans later.now) within read early
  | sleeping slept within read early => exact .sleeping slept within read early
  | returned within early ended => exact .returned within early (ended.later later)

theorem Wait.Fine.enter (s : Latch.State) (client : String) (timeout : Duration) :
    (Wait.enter client s.now timeout).Fine key s (Wait.enter client s.now timeout).phase := by
  by_cases within : s.now * 10 ^ 6 + timeout.nanos < instantLimit
  · simp only [Wait.enter, if_pos within]
    exact .reading (Nat.le_refl _) within (absurd rfl)
  · simp only [Wait.enter, if_neg within]
    exact .panicked (Nat.le_of_not_lt within) rfl

theorem Wait.Fine.read {s : Latch.State} {w v : Wait} (fine : w.Fine key s w.phase) (inv : Latch.Inv key s)
    (existing : s.first ≠ none) (moved : w.read numeral key s.now s.db = some v) : v.Fine key s v.phase := by
  unfold Wait.read at moved
  split at moved <;> [skip; contradiction]
  next phase =>
    rw [phase] at fine
    obtain - | ⟨slept, within, early⟩ := fine
    obtain ⟨left, counted, zero⟩ := count_eq numeral inv existing
    cases moved
    simp only [counted]
    have before (many : 1 < w.reads + 1) : pollInterval * (w.reads + 1 - 2) * 10 ^ 6 < w.timeout.nanos := early (by omega)
    split
    · exact .returned within before (.opened (zero.mp ‹_›))
    · exact .deciding slept within (Nat.succ_pos _) before

theorem Wait.Fine.fail {s : Latch.State} {w v : Wait} {message : String} (fine : w.Fine key s w.phase)
    (moved : w.fail message = some v) : v.Fine key s v.phase := by
  unfold Wait.fail at moved
  split at moved <;> [skip; contradiction]
  next phase =>
    rw [phase] at fine
    obtain - | ⟨slept, within, early⟩ := fine
    cases moved
    exact .returned within (fun many => early (by simp only at many; omega)) (.lost rfl)

theorem Wait.Fine.check {s : Latch.State} {w v : Wait} (fine : w.Fine key s w.phase)
    (moved : w.check key s.now = some v) : v.Fine key s v.phase := by
  unfold Wait.check at moved
  split at moved <;> [skip; contradiction]
  next phase =>
    rw [phase] at fine
    obtain - | - | ⟨slept, within, read, early⟩ := fine
    cases moved
    dsimp only
    split
    · exact .returned within early (.timedOut ‹_›)
    · next before =>
      obtain ⟨reads, counted⟩ := Nat.exists_eq_succ_of_ne_zero (Nat.ne_of_gt read)
      -- The limit is a number that omega should not have to look at.
      refine .sleeping ?_ within read ?_
      all_goals clear within; simp only [Wait.deadline, counted, pollInterval] at *; omega

theorem Wait.Fine.wake {s : Latch.State} {w v : Wait} (fine : w.Fine key s w.phase)
    (moved : w.wake s.now = some v) : v.Fine key s v.phase := by
  unfold Wait.wake at moved
  split at moved <;> [skip; contradiction]
  next wake phase =>
    rw [phase] at fine
    obtain - | - | - | ⟨slept, within, read, early⟩ := fine
    split at moved <;> cases moved
    exact .reading (slept.trans ‹_›) within fun _ => early

/-- The latch is as it was left, exists where somebody waits, and every wait is fine. -/
structure Inv (key : String) (s : State) : Prop where
  latch : Latch.Inv key s.latch
  existing : s.waits ≠ [] → s.latch.first ≠ none
  fine : ∀ w ∈ s.waits, w.Fine key s.latch w.phase

theorem Inv.move {s t : State} (inv : Inv key s) {i : Nat} {move : Wait → Option Wait} (moved : s.move i move = some t)
    (keeps : s.latch.first ≠ none → ∀ w v, w.Fine key s.latch w.phase → move w = some v → v.Fine key s.latch v.phase) :
    Inv key t := by
  obtain ⟨v, found, rfl⟩ := Option.map_eq_some_iff.mp moved
  obtain ⟨w, here, moved⟩ := Option.bind_eq_some_iff.mp found
  have member := List.mem_of_getElem? here
  have existing := inv.existing (List.ne_nil_of_mem member)
  refine ⟨inv.latch, fun _ => existing, fun other listed => ?_⟩
  rcases List.mem_or_eq_of_mem_set listed with before | rfl
  · exact inv.fine other before
  · exact keeps existing w other (inv.fine w member) moved

theorem Inv.later {s : State} (inv : Inv key s) {latch : Latch.State} (kept : Latch.Inv key latch)
    (later : Later s.latch latch) : Inv key ⟨latch, s.waits⟩ := by
  refine ⟨kept, fun waiting => ?_, fun w member => (inv.fine w member).later later⟩
  obtain ⟨n, created⟩ := Option.ne_none_iff_exists'.mp (inv.existing waiting)
  simp [later.first n created]

theorem inv_act {s t : State} {action : Action} (inv : Inv key s) (stepped : s.act numeral key action = some t) :
    Inv key t := by
  cases action with
  | call call =>
    obtain ⟨latch, called, rfl⟩ := Option.map_eq_some_iff.mp stepped
    refine inv.later ?_ (later_act called)
    cases call with
    | create => exact inv.latch.create numeral called
    | countDown => exact inv.latch.countDown numeral called
    | count => exact inv.latch.count numeral called
  | wait client timeout =>
    simp only [State.act] at stepped
    split at stepped <;> cases stepped
    next handle =>
    have existing : s.latch.first ≠ none := by
      intro none
      have latch := inv.latch
      simp only [Latch.Inv, none] at latch
      simp [latch.2.1 client] at handle
    refine ⟨inv.latch, fun _ => existing, fun w member => ?_⟩
    rcases List.mem_append.mp member with before | new
    · exact inv.fine w before
    · cases List.mem_singleton.mp new
      exact .enter s.latch client timeout
  | read i => exact inv.move stepped fun existing w v fine moved => fine.read inv.latch existing moved
  | fail i message => exact inv.move stepped fun _ w v fine moved => fine.fail moved
  | check i => exact inv.move stepped fun _ w v fine moved => fine.check moved
  | wake i => exact inv.move stepped fun _ w v fine moved => fine.wake moved

theorem inv_reachable {s : State} (reach : (barrier numeral key).Reachable s) : Inv key s := by
  refine Machine.Reachable.invariant ?_ ?_ reach
  · rintro s ⟨⟨absent, handles, first, answers⟩, nobody⟩
    refine ⟨?_, fun waiting => absurd nobody waiting, by simp [nobody]⟩
    simpa only [Latch.Inv, first] using ⟨absent, handles, answers⟩
  · intro s timed t inv stepped
    have waited : Inv key ⟨s.latch.wait timed.delay, s.waits⟩ :=
      inv.later inv.latch ⟨Nat.le_add_right _ _, fun _ => id, Nat.le_refl _⟩
    exact inv_act waited stepped

theorem Wait.Fine.bounded {s : Latch.State} {w : Wait} {phase : Phase} (fine : w.Fine key s phase) :
    pollInterval * (w.reads - 1) * 10 ^ 6 < w.timeout.nanos + pollInterval * 10 ^ 6 := by
  cases fine <;> simp only [pollInterval] at * <;> omega

theorem Wait.Fine.panicked_iff {s : Latch.State} {w : Wait} {phase : Phase} (fine : w.Fine key s phase) :
    phase = .panicked ↔ instantLimit ≤ w.deadline := by
  cases fine with
  | panicked beyond => simp [beyond]
  | reading _ within | deciding _ within | sleeping _ within | returned within => simp [within]

theorem Wait.read_count {w : Wait} {now left : Nat} {db after : Keyspace} (reading : w.phase = .reading)
    (counted : Latch.count numeral key now db = (.ok left, after)) :
    ∃ v, w.read numeral key now db = some v ∧ v.phase = if left = 0 then .returned (.ok ()) else .deciding := by
  simp [Wait.read, reading, counted]

/-- A wait returns successfully only once as many have counted down as the first `create` asked
for, and from then on whoever reads returns; it fails only at its deadline or with the error of a
read, panics exactly where its deadline is no instant, and never reads more often than its
timeout allows. -/
theorem waits_for_zero {s : State} (reach : (barrier numeral key).Reachable s) {w : Wait} (member : w ∈ s.waits) :
    (w.phase = .returned (.ok ()) → Opened s.latch) ∧
    (∀ error, w.phase = .returned (.error error) →
      error = .timeout key ∧ w.deadline ≤ s.latch.now * 10 ^ 6 ∨
        ∃ message, w.lost = some message ∧ error = .backend s!"latch op failed: {message}") ∧
    (w.phase = .panicked ↔ instantLimit ≤ w.deadline) ∧
    (w.phase = .reading → ∃ v, w.read numeral key s.latch.now s.latch.db = some v ∧
      (v.phase = .returned (.ok ()) ↔ Opened s.latch)) ∧
    pollInterval * (w.reads - 1) * 10 ^ 6 < w.timeout.nanos + pollInterval * 10 ^ 6 := by
  have inv := inv_reachable reach
  have fine := inv.fine w member
  refine ⟨?_, ?_, fine.panicked_iff, ?_, fine.bounded⟩
  · intro returned
    rw [returned] at fine
    obtain - | - | - | - | ⟨_, _, ⟨opened⟩⟩ := fine
    exact opened
  · intro error returned
    rw [returned] at fine
    obtain - | - | - | - | ⟨_, _, ended⟩ := fine
    cases ended with
    | timedOut passed => exact .inl ⟨rfl, passed⟩
    | lost lost => exact .inr ⟨_, lost, rfl⟩
  · intro reading
    obtain ⟨left, counted, zero⟩ := count_eq numeral inv.latch (inv.existing (List.ne_nil_of_mem member))
    obtain ⟨v, moved, phase⟩ := Wait.read_count reading counted
    refine ⟨v, moved, ?_⟩
    rw [phase, ← zero]
    split <;> simp_all

end

/-- Two count down and two wait: one reads the latch at one, sleeps and finds it open, and the
connection of the other fails. A third asks to wait for `Duration::MAX`. -/
def opening : List Timed :=
  [⟨0, .call (.create "a" 2)⟩, ⟨0, .call (.create "b" 7)⟩, ⟨5, .wait "b" (.fromMillis 100)⟩,
    ⟨0, .wait "a" (.fromMillis 100)⟩, ⟨0, .wait "a" Waiting.durationMax⟩, ⟨0, .call (.countDown "a")⟩, ⟨0, .read 0⟩,
    ⟨1, .check 0⟩, ⟨0, .fail 1 "broken pipe"⟩, ⟨4, .call (.countDown "b")⟩, ⟨16, .wake 0⟩, ⟨0, .read 0⟩]

theorem opening_returns : ∃ s : State, s.waits.map Wait.phase = [.returned (.ok ()),
      .returned (.error (.backend "latch op failed: broken pipe")), .panicked] ∧ Opened s.latch := by
  obtain ⟨s, reach, phases⟩ := (barrier (fun _ => none) "gate").exists_reachableWhen (fun _ _ => True)
    (fun s => s.waits.map Wait.phase = [.returned (.ok ()),
      .returned (.error (.backend "latch op failed: broken pipe")), .panicked]) (s := ⟨.fresh, []⟩)
    ⟨Latch.State.fresh_initial _ _, rfl⟩ opening (by decide +kernel)
  obtain ⟨w, member, returned⟩ := List.mem_map.mp (phases ▸ List.mem_cons_self : Phase.returned (.ok ()) ∈ s.waits.map Wait.phase)
  exact ⟨s, phases, (waits_for_zero reach member).1 returned⟩

end Palisade.Barrier
