import Palisade.Single.Handles
import Palisade.Single.Exclusivity

/-! The renewal task of one mutex handle beside the releases of its clones. A tick of
the watchdog reads the released flag, runs `extend.lua` and acts on the reply; a release
sets the flag and runs `release.lua`. Each of these is a step of its own and the rest of
the world may act in between. Other clients use other tokens. -/
namespace Palisade.Single
open Redis Lease Transition

/-- The failure counter after a renewal, or nothing where the holder gives up. The
counter is a `u32`. -/
def tolerate (policy : SafetyPolicy) (failures : Nat) : Except Error Bool → Option Nat
  | .ok true => some 0
  | .ok false => none
  | .error _ =>
    let failures := (failures + 1) % 2 ^ 32
    if policy.maxTransientFailures < failures then none else some failures

/-- Where the watchdog stands in its loop. -/
inductive Watchdog where
  | sleeping
  /-- The flag was seen unset; the script has not run. -/
  | checked
  | answered (outcome : Except Error Bool)
  | stopped
  deriving DecidableEq

/-- `releasing` while a release has set the flag and its script has not run. `clean` once
`release.lua` answered 1 for a handle that was not lost; no code reads it. -/
structure Watched where
  now : Nat
  db : Keyspace
  shared : HandleShared
  watchdog : Watchdog
  transientFailures : Nat
  releasing : Bool
  clean : Bool

inductive Action where
  | check
  | extend (fate : Fate)
  | act
  /-- A clone is released: it sets the flag, or returns at once where it is set. -/
  | release
  /-- `release.lua` of the clone that set the flag. -/
  | run (fate : Fate)
  | other (call : Call)
  | forceUnlock
  deriving DecidableEq

structure Moment where
  delay : Nat
  action : Action
  deriving DecidableEq

def Call.token : Call → String
  | .acquire token _ | .extend token _ | .release token => token

namespace Watched

def wait (s : Watched) (delay : Nat) : Watched := { s with now := s.now + delay }

/-- `fire_extend` -/
def fireExtend (s : Watched) : Fate → Except Error Bool × Keyspace
  | .executes =>
    let (reply, db) := (s.shared.extendScript s.shared.ttl).exec s.now s.db
    (HandleShared.extendReply reply, db)
  | .fails message => (.error (.backend s!"extend script failed: {message}"), s.db)

/-- What the loop does with the outcome of a renewal. -/
def react (s : Watched) (outcome : Except Error Bool) : Watched :=
  match tolerate s.shared.policy s.transientFailures outcome with
  | some failures => { s with transientFailures := failures, watchdog := .sleeping }
  | none => { s with shared := s.shared.markLost, watchdog := .stopped }

def runRelease (s : Watched) : Fate → Watched
  | .executes =>
    let (reply, db) := s.shared.releaseScript.exec s.now s.db
    { s with db, releasing := false, clean := s.clean || decide (reply = .ok 1 ∧ s.shared.poisoned = false) }
  | .fails _ => { s with releasing := false }

def act (s : Watched) : Action → Option Watched
  | .check =>
    if s.watchdog = .sleeping then
      some { s with watchdog := if s.shared.released then .stopped else .checked }
    else none
  | .extend fate =>
    if s.watchdog = .checked then
      let (outcome, db) := s.fireExtend fate
      some { s with db, watchdog := .answered outcome }
    else none
  | .act =>
    match s.watchdog with
    | .answered outcome => some (s.react outcome)
    | _ => none
  | .release =>
    some { s with
      shared := { s.shared with released := true }
      releasing := s.releasing || !s.shared.released }
  | .run fate => if s.releasing then some (s.runRelease fate) else none
  | .other call =>
    if call.token ≠ s.shared.token then
      some { s with db := ((call.script s.shared.key).exec s.now s.db).2 }
    else none
  | .forceUnlock => some { s with db := s.db.erase s.shared.key }

/-- Everything an action can do. -/
inductive Moves (s : Watched) : Action → Watched → Prop where
  | check : s.watchdog = .sleeping →
      Moves s .check { s with watchdog := if s.shared.released then .stopped else .checked }
  | extend : s.watchdog = .checked → Moves s (.extend fate)
      { s with db := (s.fireExtend fate).2, watchdog := .answered (s.fireExtend fate).1 }
  | act : s.watchdog = .answered outcome → Moves s .act (s.react outcome)
  | release : Moves s .release { s with
      shared := { s.shared with released := true }
      releasing := s.releasing || !s.shared.released }
  | run : s.releasing = true → Moves s (.run fate) (s.runRelease fate)
  | other : call.token ≠ s.shared.token →
      Moves s (.other call) { s with db := ((call.script s.shared.key).exec s.now s.db).2 }
  | forceUnlock : Moves s .forceUnlock { s with db := s.db.erase s.shared.key }

theorem act_moves {s t : Watched} {action : Action} (stepped : s.act action = some t) :
    s.Moves action t := by
  cases action with
  | check =>
    obtain ⟨asleep, ⟨⟩⟩ := Option.ite_none_right_eq_some.mp stepped
    exact .check asleep
  | extend fate =>
    obtain ⟨due, ⟨⟩⟩ := Option.ite_none_right_eq_some.mp stepped
    exact .extend due
  | act =>
    simp only [act] at stepped
    split at stepped
    · cases stepped
      exact .act ‹_›
    · contradiction
  | release =>
    cases stepped
    exact .release
  | run fate =>
    obtain ⟨pending, ⟨⟩⟩ := Option.ite_none_right_eq_some.mp stepped
    exact .run pending
  | other call =>
    obtain ⟨foreign, ⟨⟩⟩ := Option.ite_none_right_eq_some.mp stepped
    exact .other foreign
  | forceUnlock =>
    cases stepped
    exact .forceUnlock

/-- A cleanly released handle is not lost: `is_lost` is false and `until_lost` waits. -/
def NotLost (s : Watched) : Prop :=
  s.clean = true → s.shared.poisoned = false ∧ s.shared.lost = false

/-- The watchdog holds an answer that makes it give up. -/
def fatal (s : Watched) : Bool :=
  match s.watchdog with
  | .answered outcome => (tolerate s.shared.policy s.transientFailures outcome).isNone
  | _ => false

end Watched

/-- A handle just granted. -/
def watched : Machine Watched Moment where
  initial s := Sound s.shared.key s.db ∧ s.shared.released = false ∧ s.shared.poisoned = false ∧
    s.shared.lost = false ∧ s.watchdog = .sleeping ∧ s.transientFailures = 0 ∧
    s.releasing = false ∧ s.clean = false
  step s moment := (s.wait moment.delay).act moment.action

/-- Once the lock is cleanly released no renewal runs any more, except that one may fail
within the budget; and `release.lua` does not give up the lock while the watchdog has an
answer to give up on. -/
def InOrder (s : Watched) : Moment → Prop
  | ⟨_, .extend .executes⟩ => s.clean = false
  | ⟨_, .extend (.fails message)⟩ => s.clean = true →
    (tolerate s.shared.policy s.transientFailures (.error (.backend message))).isSome
  | ⟨delay, .run .executes⟩ => s.fatal = true →
    holder s.shared.key s.db (s.now + delay) ≠ some s.shared.token
  | _ => True

namespace Watched
variable {s t : Watched}

/-- In an orderly run: the two loss signals agree, and once the lock is cleanly released
the handle is not lost and the watchdog has nothing to give up on. -/
structure Orderly (s : Watched) : Prop where
  signals : s.shared.lost = s.shared.poisoned
  found : s.clean = true → s.shared.poisoned = false
  harmless : s.clean = true → s.fatal = false

theorem Orderly.notLost (orderly : s.Orderly) : s.NotLost := by
  intro clean
  have found := orderly.found clean
  exact ⟨found, orderly.signals.trans found⟩

theorem fatal_answered {outcome : Except Error Bool} (awaited : s.watchdog = .answered outcome) :
    s.fatal = (tolerate s.shared.policy s.transientFailures outcome).isNone := by
  simp only [fatal, awaited]

theorem fatal_unanswered (none : ∀ outcome, s.watchdog ≠ .answered outcome) : s.fatal = false := by
  unfold fatal
  split
  · exact absurd ‹_› (none _)
  · rfl

theorem Orderly.extend {fate : Fate} {delay : Nat} (orderly : s.Orderly)
    (inOrder : InOrder s ⟨delay, .extend fate⟩) :
    Orderly { s.wait delay with
      db := ((s.wait delay).fireExtend fate).2
      watchdog := .answered ((s.wait delay).fireExtend fate).1 } := by
  refine ⟨orderly.signals, orderly.found, fun clean => ?_⟩
  have clean : s.clean = true := clean
  cases fate with
  | executes =>
    have unclean : s.clean = false := inOrder
    cases clean.symm.trans unclean
  | fails message =>
    -- How often renewals failed matters to the budget, not why.
    have tolerated : (tolerate s.shared.policy s.transientFailures
      (.error (.backend s!"extend script failed: {message}"))).isSome := inOrder clean
    rw [fatal_answered rfl]
    exact Option.isNone_eq_false_iff.mpr tolerated

theorem Orderly.react {outcome : Except Error Bool} {delay : Nat} (orderly : s.Orderly)
    (awaited : s.watchdog = .answered outcome) : ((s.wait delay).react outcome).Orderly := by
  unfold Watched.react
  cases verdict : tolerate (s.wait delay).shared.policy (s.wait delay).transientFailures outcome with
  | some failures => exact ⟨orderly.signals, orderly.found, fun _ => fatal_unanswered (by simp)⟩
  | none =>
    have unclean : s.clean ≠ true := by
      intro clean
      have harmless := orderly.harmless clean
      rw [fatal_answered awaited] at harmless
      simp_all [wait]
    exact ⟨rfl, fun clean => absurd clean unclean, fun clean => absurd clean unclean⟩

theorem Orderly.run {fate : Fate} {delay : Nat} (orderly : s.Orderly)
    (inOrder : InOrder s ⟨delay, .run fate⟩) : ((s.wait delay).runRelease fate).Orderly := by
  cases fate with
  | fails => exact ⟨orderly.signals, orderly.found, orderly.harmless⟩
  | executes =>
    refine ⟨orderly.signals, ?_, ?_⟩
    · intro clean
      simp only [runRelease, Bool.or_eq_true, decide_eq_true_eq] at clean
      obtain before | ⟨_, found⟩ := clean
      · exact orderly.found before
      · exact found
    · intro clean
      simp only [runRelease, Bool.or_eq_true, decide_eq_true_eq] at clean
      obtain before | ⟨answered, _⟩ := clean
      · exact orderly.harmless before
      · exact Bool.eq_false_iff.mpr fun fatal => inOrder fatal (by_contra fun stranger => (exec_release_stranger stranger).1 answered)

theorem Orderly.step {moment : Moment} (orderly : s.Orderly) (inOrder : InOrder s moment)
    (stepped : watched.step s moment = some t) : t.Orderly := by
  obtain ⟨delay, action⟩ := moment
  cases act_moves stepped with
  | check =>
    refine ⟨orderly.signals, orderly.found, fun _ => fatal_unanswered fun outcome => ?_⟩
    split <;> simp
  | extend => exact orderly.extend inOrder
  | act awaited => exact orderly.react awaited
  | release => exact ⟨orderly.signals, orderly.found, orderly.harmless⟩
  | run => exact orderly.run inOrder
  | other | forceUnlock => exact ⟨orderly.signals, orderly.found, orderly.harmless⟩

end Watched

/-- In every run in which renewal and release keep this order, a cleanly released handle
is never reported lost. -/
theorem clean_release_not_lost {s : Watched} (reach : watched.ReachableWhen InOrder s) : s.NotLost := by
  have orderly : s.Orderly := by
    refine reach.invariant ?_ fun s moment t orderly inOrder stepped => orderly.step inOrder stepped
    rintro s ⟨_, _, poisoned, lost, _, _, _, unclean⟩
    exact ⟨lost.trans poisoned.symm, by simp [unclean], by simp [unclean]⟩
  exact orderly.notLost

instance (s : Watched) (moment : Moment) : Decidable (InOrder s moment) :=
  match moment with
  | ⟨_, .extend .executes⟩ => inferInstanceAs (Decidable (s.clean = false))
  | ⟨_, .extend (.fails message)⟩ => inferInstanceAs (Decidable (s.clean = true →
    (tolerate s.shared.policy s.transientFailures (.error (.backend message))).isSome))
  | ⟨delay, .run .executes⟩ => inferInstanceAs (Decidable (s.fatal = true →
    holder s.shared.key s.db (s.now + delay) ≠ some s.shared.token))
  | ⟨_, .run (.fails _)⟩ | ⟨_, .check⟩ | ⟨_, .act⟩ | ⟨_, .release⟩ | ⟨_, .other _⟩
  | ⟨_, .forceUnlock⟩ => isTrue trivial

/-- A handle granted to `a` at time 0 for 3000 ms. -/
def Watched.granted : Watched where
  now := 0
  db := (Single.acquire "orders" (fenceKeyFor "orders") "a" 3000 30000).exec 0 (fun _ => none) |>.2
  shared := ⟨"orders", "a", ⟨1⟩, .fromMillis 3000, .balanced, false, false, false⟩
  watchdog := .sleeping
  transientFailures := 0
  releasing := false
  clean := false

theorem Watched.granted_initial : watched.initial .granted := by
  have empty : Sound "orders" fun _ => none := ⟨by simp, by simp⟩
  exact ⟨empty.exec_call (.acquire "a" 3000) 0, rfl, rfl, rfl, rfl, rfl, rfl, rfl⟩

/-- A renewal that ends before the release: the handle stays good. -/
theorem clean_release_after_renewal : ∃ s : Watched, s.NotLost ∧ s.clean = true ∧
    s.watchdog = .stopped := by
  obtain ⟨s, reach, facts⟩ := Machine.exists_reachableWhen InOrder
    (fun s : Watched => s.clean = true ∧ s.watchdog = .stopped) Watched.granted_initial
    [⟨1000, .check⟩, ⟨0, .extend .executes⟩, ⟨0, .act⟩, ⟨10, .release⟩, ⟨0, .run .executes⟩,
      ⟨990, .check⟩]
    (by decide)
  exact ⟨s, clean_release_not_lost reach, facts⟩

/-- The watchdog saw the flag unset, then the lock was released, then the renewal ran. -/
theorem clean_release_reported_lost : ¬ ∀ s : Watched, watched.Reachable s → s.NotLost := by
  intro never
  obtain ⟨s, reach, clean, poisoned⟩ := Machine.exists_reachableWhen (fun _ _ => True)
    (fun s : Watched => s.clean = true ∧ s.shared.poisoned = true) Watched.granted_initial
    [⟨1000, .check⟩, ⟨0, .release⟩, ⟨0, .run .executes⟩, ⟨0, .extend .executes⟩, ⟨0, .act⟩]
    (by decide)
  have found := (never s reach clean).1
  rw [poisoned] at found
  contradiction

/-! The order is needed: a renewal that runs after a clean release finds the token gone. -/

theorem Call.event_ne_grant {call : Call} {token : String} (foreign : call.token ≠ token)
    (reply : Except Fault (Nat × Int)) (lease : Nat) : call.event reply ≠ .grant token lease := by
  intro granted
  unfold Call.event at granted
  split at granted
  · unfold acquireEvent at granted
    split at granted <;> cases granted
    exact foreign rfl
  · cases granted
  · cases granted
  · cases granted

/-- Whatever the order: after a clean release the lock is not the handle's. -/
structure Watched.Given (s : Watched) : Prop where
  sound : Sound s.shared.key s.db
  gone : s.clean = true → ∀ instant, s.now ≤ instant → holder s.shared.key s.db instant ≠ some s.shared.token

namespace Watched.Given
variable {s t : Watched}

theorem wait (given : s.Given) (delay : Nat) : (s.wait delay).Given :=
  ⟨given.sound, fun clean instant later => given.gone clean instant (by simp only [Watched.wait] at later; omega)⟩

theorem extend {fate : Fate} (given : s.Given) :
    Given { s with db := (s.fireExtend fate).2, watchdog := .answered (s.fireExtend fate).1 } := by
  cases fate with
  | fails => exact ⟨given.sound, given.gone⟩
  | executes =>
    simp only [fireExtend, HandleShared.extendScript, given.sound.shaped.exec_extend]
    by_cases held : holder s.shared.key s.db s.now = some s.shared.token
    · simp only [if_pos held]
      exact ⟨given.sound.refresh_lock.pexpire_counter,
        fun clean => absurd held (given.gone clean s.now (Nat.le_refl _))⟩
    · simp only [if_neg held]
      exact ⟨given.sound, given.gone⟩

theorem react {outcome : Except Error Bool} (given : s.Given) : (s.react outcome).Given := by
  unfold Watched.react
  split <;> exact ⟨given.sound, given.gone⟩

theorem run {fate : Fate} (given : s.Given) : (s.runRelease fate).Given := by
  cases fate with
  | fails => exact ⟨given.sound, given.gone⟩
  | executes =>
    have sound := given.sound.exec_call (.release s.shared.token) s.now
    simp only [Call.script, Script.state_bind_pure] at sound
    exact ⟨sound, fun _ instant later => holder_release later⟩

theorem other {call : Call} (given : s.Given) (foreign : call.token ≠ s.shared.token) :
    Given { s with db := ((call.script s.shared.key).exec s.now s.db).2 } := by
  refine ⟨given.sound.exec_call call s.now, fun clean => ?_⟩
  exact (call_step given.sound call s.now).absent (given.gone clean) (Call.event_ne_grant foreign _)

theorem step {moment : Moment} (given : s.Given) (stepped : watched.step s moment = some t) :
    t.Given := by
  obtain ⟨delay, action⟩ := moment
  have given := given.wait delay
  cases act_moves stepped with
  | check | release => exact ⟨given.sound, given.gone⟩
  | extend => exact given.extend
  | act => exact given.react
  | run => exact given.run
  | other foreign => exact given.other foreign
  | forceUnlock => exact ⟨given.sound.erase_lock, fun _ instant _ => by simp [holder]⟩

end Watched.Given

/-- A renewal that runs after a clean release makes the watchdog give up. -/
theorem late_renewal_fatal {s : Watched} (reach : watched.Reachable s) (clean : s.clean = true)
    (due : s.watchdog = .checked) (delay : Nat) :
    ∃ t, watched.step s ⟨delay, .extend .executes⟩ = some t ∧ t.fatal = true := by
  have given : s.Given := by
    refine reach.invariant ?_ fun s moment t given stepped => given.step stepped
    rintro s ⟨sound, _, _, _, _, _, _, unclean⟩
    exact ⟨sound, by simp [unclean]⟩
  have gone := given.gone clean (s.now + delay) (Nat.le_add_right _ _)
  refine ⟨_, if_pos due, ?_⟩
  rw [Watched.fatal_answered rfl]
  simp [Watched.wait, HandleShared.extendScript, given.sound.shaped.exec_extend, gone,
    HandleShared.extendReply, tolerate]

end Palisade.Single
