import Mathlib.Algebra.Order.BigOperators.Group.Finset
import Palisade.Transition
import Palisade.Core
import Palisade.Testing.Checker

/-! The deterministic simulator: a virtual-time store and a seeded scheduler that drives
worker state machines. Virtual times and fences are numbers without a bound; the source
keeps them in 64 bits. -/
namespace Palisade.Testing
open Transition

structure Scenario where
  seed : UInt64
  workers : Nat
  /-- Decision points per worker before it stops. -/
  stepsPerWorker : Nat
  ttlMs : Nat
  pauseProbabilityPct : Nat
  /-- The store grants even when the key is live-held. -/
  brokenCas : Bool
  /-- The resource accepts any fence. -/
  brokenFencing : Bool
  deriving DecidableEq

/-- Correct algorithms, aggressive pause faults. -/
def Scenario.clean (seed : UInt64) : Scenario := ⟨seed, 6, 40, 100, 35, false, false⟩

/-- A xorshift64 generator. -/
structure Rng where
  state : UInt64
  deriving DecidableEq

namespace Rng

def new (seed : UInt64) : Rng := ⟨seed ^^^ 0x9E3779B97F4A7C15⟩

def nextU64 (rng : Rng) : UInt64 × Rng :=
  let x := rng.state
  let x := x ^^^ (x <<< 13)
  let x := x ^^^ (x >>> 7)
  let x := x ^^^ (x <<< 17)
  (x, ⟨x⟩)

def below (rng : Rng) (n : Nat) : Nat × Rng :=
  if n = 0 then (0, rng)
  else
    let (x, rng) := rng.nextU64
    (x.toNat % n, rng)

def pct (rng : Rng) (percent : Nat) : Bool × Rng :=
  let (draw, rng) := rng.below 100
  (decide (draw < percent), rng)

end Rng

structure Entry where
  holder : Nat
  expiresMs : Nat
  fence : Nat
  deriving DecidableEq

structure SimStore where
  nowMs : Nat
  entry : Option Entry
  fenceCounter : Nat
  lastAcceptedFence : Nat
  brokenCas : Bool
  brokenFencing : Bool
  deriving DecidableEq

namespace SimStore

/-- The entry has not expired. -/
def live (s : SimStore) : Bool := s.entry.any fun e => decide (s.nowMs < e.expiresMs)

def casGrant (s : SimStore) (worker ttlMs : Nat) : Option Nat × SimStore :=
  if s.live && !s.brokenCas then (none, s)
  else
    let fence := s.fenceCounter + 1
    (some fence, { s with fenceCounter := fence, entry := some ⟨worker, s.nowMs + ttlMs, fence⟩ })

def holdsValidly (s : SimStore) (worker fence : Nat) : Bool :=
  s.entry.any fun e => decide (e.holder = worker ∧ e.fence = fence ∧ s.nowMs < e.expiresMs)

/-- Whether the lock was released, or lost before. -/
def release (s : SimStore) (worker fence : Nat) : Bool × SimStore :=
  if s.holdsValidly worker fence then (true, { s with entry := none }) else (false, s)

def fencedWrite (s : SimStore) (worker fence : Nat) : Bool × SimStore :=
  if s.brokenFencing then (true, s)
  else if !s.holdsValidly worker fence then (false, s)
  else if FencingToken.supersedes ⟨fence⟩ ⟨s.lastAcceptedFence⟩ then
    (true, { s with lastAcceptedFence := fence })
  else (false, s)

end SimStore

inductive State where
  | idle (stepsLeft : Nat)
  | holding (fence releaseAt : Nat) (willPause : Bool) (budget : Nat)
  | paused (fence budget : Nat)
  | done
  deriving DecidableEq

/-- The local variables of `run`; the vectors are indexed by worker. -/
structure Sim where
  rng : Rng
  store : SimStore
  states : Nat → State
  wakeAt : Nat → Nat
  events : List Event

namespace Sim

def start (sc : Scenario) : Sim where
  rng := .new sc.seed
  store := ⟨0, none, 0, 0, sc.brokenCas, sc.brokenFencing⟩
  states _ := .idle sc.stepsPerWorker
  wakeAt _ := 0
  events := []

/-- The worker that wakes first, the lowest of several. -/
def earliest (wakeAt : Nat → Nat) : List Nat → Option Nat
  | [] => none
  | w :: rest =>
    match earliest wakeAt rest with
    | some v => if wakeAt v < wakeAt w then some v else some w
    | none => some w

def next (s : Sim) (workers : Nat) : Option Nat :=
  earliest s.wakeAt ((List.range workers).filter fun w => decide (s.states w ≠ .done))

/-- The clock moves on to the wake time of a worker. -/
def wake (s : Sim) (w : Nat) : Sim :=
  { s with store := { s.store with nowMs := max s.store.nowMs (s.wakeAt w) } }

def set (s : Sim) (w wakeAt : Nat) (state : State) : Sim :=
  { s with
    states := Function.update s.states w state
    wakeAt := Function.update s.wakeAt w wakeAt }

def emit (s : Sim) (w : Nat) (kind : EventKind) (fence : Nat) : Sim :=
  { s with events := s.events ++ [⟨s.store.nowMs, w, kind, fence⟩] }

/-- A worker was granted the lock. -/
def hold (s : Sim) (sc : Scenario) (w fence budget : Nat) : Sim :=
  let (willPause, rng) := s.rng.pct sc.pauseProbabilityPct
  let (extra, rng) := rng.below (sc.ttlMs / 2)
  let hold := 5 + extra
  let releaseAt := s.store.nowMs + hold
  { s with rng }.set w (if willPause then s.store.nowMs + hold / 2 else releaseAt)
    (.holding fence releaseAt willPause budget)

def idleStep (s : Sim) (sc : Scenario) (w : Nat) : Nat → Sim
  | 0 => s.set w (2 ^ 64 - 1) .done
  | budget + 1 =>
    let (draw, rng) := s.rng.below 100
    if draw < 70 then
      match s.store.casGrant w sc.ttlMs with
      | (some fence, store) => ({ s with rng, store }.emit w .grant fence).hold sc w fence budget
      | (none, store) =>
        let (delay, rng) := rng.below 3
        ({ s with rng, store }.emit w .deny 0).set w (s.wakeAt w + 1 + delay) (.idle budget)
    else { s with rng }.set w (s.wakeAt w + 1) (.idle budget)

/-- The worker writes. -/
def write (s : Sim) (w fence : Nat) : Sim :=
  let (writeOk, store) := s.store.fencedWrite w fence
  { s with store }.emit w (if writeOk then .writeAccepted else .writeRejected) fence

def holdingStep (s : Sim) (sc : Scenario) (w fence releaseAt : Nat) (willPause : Bool) (budget : Nat) :
    Sim :=
  if willPause ∧ s.store.nowMs < releaseAt then
    s.set w (releaseAt + sc.ttlMs + 10) (.paused fence budget)
  else if releaseAt ≤ s.store.nowMs then
    let s := s.write w fence
    let (released, store) := s.store.release w fence
    let (delay, rng) := s.rng.below 4
    ({ s with rng, store }.emit w (if released then .releaseOk else .releaseLost) fence).set w
      (s.store.nowMs + delay) (.idle budget)
  else s.set w releaseAt (.holding fence releaseAt willPause budget)

def pausedStep (s : Sim) (w fence budget : Nat) : Sim :=
  let s := s.write w fence
  let (_, store) := s.store.release w fence
  ({ s with store }.emit w .releaseLost fence).set w (s.store.nowMs + 1) (.idle budget)

/-- What a worker does that has been woken. -/
def act (s : Sim) (sc : Scenario) (w : Nat) : Sim :=
  match s.states w with
  | .idle stepsLeft => s.idleStep sc w stepsLeft
  | .holding fence releaseAt willPause budget => s.holdingStep sc w fence releaseAt willPause budget
  | .paused fence budget => s.pausedStep w fence budget
  | .done => s

/-- One round of the loop; none when all workers are done. -/
def step (s : Sim) (sc : Scenario) : Option Sim :=
  (s.next sc.workers).map fun w => (s.wake w).act sc w

/-- How many rounds a worker still has at most. -/
def weight (s : Sim) (w : Nat) : Nat :=
  match s.states w with
  | .idle stepsLeft => 4 * stepsLeft + 1
  | .holding _ releaseAt _ budget => 4 * budget + 3 + if s.wakeAt w < releaseAt then 1 else 0
  | .paused _ budget => 4 * budget + 2
  | .done => 0

variable {s t : Sim} {sc : Scenario} {w : Nat}

/-- Everything a woken worker can do. -/
inductive Acts (sc : Scenario) (w : Nat) (s : Sim) : Sim → Prop where
  | finish : s.states w = .idle 0 → Acts sc w s (s.set w (2 ^ 64 - 1) .done)
  | skip {budget : Nat} {rng : Rng} : s.states w = .idle (budget + 1) →
      Acts sc w s ({ s with rng }.set w (s.wakeAt w + 1) (.idle budget))
  | deny {budget later : Nat} {rng : Rng} : s.states w = .idle (budget + 1) → s.store.live = true →
      Acts sc w s (({ s with rng }.emit w .deny 0).set w later (.idle budget))
  | grant {budget later releaseAt : Nat} {rng : Rng} {willPause : Bool} : s.states w = .idle (budget + 1) →
      (s.store.live = true → s.store.brokenCas = true) → s.store.nowMs ≤ releaseAt →
      Acts sc w s (({ s with
        rng
        store := { s.store with
          fenceCounter := s.store.fenceCounter + 1
          entry := some ⟨w, s.store.nowMs + sc.ttlMs, s.store.fenceCounter + 1⟩ } }.emit w .grant
            (s.store.fenceCounter + 1)).set w later
              (.holding (s.store.fenceCounter + 1) releaseAt willPause budget))
  | freeze {fence releaseAt budget : Nat} {willPause : Bool} :
      s.states w = .holding fence releaseAt willPause budget →
      Acts sc w s (s.set w (releaseAt + sc.ttlMs + 10) (.paused fence budget))
  | leave {fence releaseAt budget later : Nat} {willPause : Bool} {rng : Rng} :
      s.states w = .holding fence releaseAt willPause budget →
      Acts sc w s (({ s.write w fence with
        rng
        store := ((s.write w fence).store.release w fence).2 }.emit w
          (if ((s.write w fence).store.release w fence).1 then .releaseOk else .releaseLost) fence).set w
            later (.idle budget))
  | await {fence releaseAt budget : Nat} {willPause : Bool} :
      s.states w = .holding fence releaseAt willPause budget → s.store.nowMs < releaseAt →
      Acts sc w s (s.set w releaseAt (.holding fence releaseAt willPause budget))
  | resume {fence budget later : Nat} : s.states w = .paused fence budget →
      Acts sc w s (({ s.write w fence with
        store := ((s.write w fence).store.release w fence).2 }.emit w .releaseLost fence).set w later
          (.idle budget))

theorem acts (running : s.states w ≠ .done) : Acts sc w s (s.act sc w) := by
  unfold act
  cases state : s.states w with
  | idle stepsLeft =>
    cases stepsLeft with
    | zero => exact .finish state
    | succ budget =>
      simp only [idleStep, SimStore.casGrant]
      split
      · by_cases refused : (s.store.live && !s.store.brokenCas) = true
        · simp only [refused, if_true]
          exact .deny state (by simp_all)
        · simp only [refused]
          exact .grant state (by simpa using refused) (Nat.le_add_right _ _)
      · exact .skip state
  | holding fence releaseAt willPause budget =>
    simp only [holdingStep]
    split
    · exact .freeze state
    · split
      · exact .leave state
      · exact .await state (by omega)
  | paused fence budget => exact .resume state
  | done => exact absurd state running

theorem weight_set (s : Sim) (w wakeAt : Nat) (state : State) (v : Nat) (other : v ≠ w) :
    (s.set w wakeAt state).weight v = s.weight v := by
  simp only [weight, set, Function.update_of_ne other]

theorem Acts.weight_other (acts : Acts sc w s t) {v : Nat} (other : v ≠ w) : t.weight v = s.weight v := by
  cases acts <;> exact weight_set _ w _ _ v other

theorem Acts.weight_lt (acts : Acts sc w s t) (awake : s.wakeAt w ≤ s.store.nowMs) :
    t.weight w < s.weight w := by
  cases acts with
  | finish state | skip state | deny state _ | freeze state | leave state | resume state =>
    simp only [weight, set, emit, write, Function.update_self, state]
    omega
  | grant state _ _ =>
    simp only [weight, set, emit, Function.update_self, state]
    split <;> omega
  | await state early =>
    have before := Nat.lt_of_le_of_lt awake early
    simp only [weight, set, Function.update_self, state, if_pos before, Nat.lt_irrefl, if_false]
    omega

/-- Events are only appended. -/
theorem Acts.events (acts : Acts sc w s t) : s.events <+: t.events := by
  cases acts with
  | finish _ | skip _ | freeze _ | await _ _ => exact List.prefix_rfl
  | deny _ _ | grant _ _ _ => exact List.prefix_append _ _
  | leave _ | resume _ => exact (List.prefix_append _ _).trans (List.prefix_append _ _)

theorem earliest_mem {wakeAt : Nat → Nat} {workers : List Nat} (found : earliest wakeAt workers = some w) :
    w ∈ workers := by
  induction workers generalizing w with
  | nil => contradiction
  | cons v rest ih =>
    simp only [earliest] at found
    split at found
    · next first later =>
      split at found <;> cases found
      · exact List.mem_cons_of_mem _ (ih later)
      · exact List.mem_cons_self
    · cases found
      exact List.mem_cons_self

theorem next_spec {workers : Nat} (found : s.next workers = some w) : w < workers ∧ s.states w ≠ .done := by
  have member := List.mem_filter.mp (earliest_mem found)
  exact ⟨List.mem_range.mp member.1, of_decide_eq_true member.2⟩

theorem step_acts (stepped : s.step sc = some t) :
    ∃ w, s.next sc.workers = some w ∧ t = (s.wake w).act sc w ∧ Acts sc w (s.wake w) t := by
  obtain ⟨w, found, rfl⟩ := Option.map_eq_some_iff.mp stepped
  have running : (s.wake w).states w ≠ .done := (next_spec found).2
  exact ⟨w, found, rfl, acts running⟩

theorem step_weight (stepped : s.step sc = some t) :
    ∑ w ∈ Finset.range sc.workers, t.weight w < ∑ w ∈ Finset.range sc.workers, s.weight w := by
  obtain ⟨w, found, _, acts⟩ := step_acts stepped
  have less : t.weight w < s.weight w := acts.weight_lt (Nat.le_max_right _ _)
  refine Finset.sum_lt_sum (fun v _ => ?_) ⟨w, Finset.mem_range.mpr (next_spec found).1, less⟩
  by_cases same : v = w
  · rw [same]
    exact Nat.le_of_lt less
  · exact Nat.le_of_eq (acts.weight_other same)

/-- The loop: every round uses up some of the steps of a worker. -/
def run (sc : Scenario) (s : Sim) : Sim :=
  match _ : s.step sc with
  | none => s
  | some t => run sc t
termination_by ∑ w ∈ Finset.range sc.workers, s.weight w
decreasing_by exact step_weight ‹_›

theorem run_step (stepped : s.step sc = some t) : s.run sc = t.run sc := by
  rw [run]
  split
  · next stopped =>
    rw [stepped] at stopped
    contradiction
  · next again =>
    rw [stepped] at again
    cases again
    rfl

theorem run_events : s.events <+: (s.run sc).events := by
  fun_induction run sc s with
  | case1 => exact List.prefix_rfl
  | case2 s t stepped ih =>
    obtain ⟨w, _, _, acts⟩ := step_acts stepped
    exact acts.events.trans ih

end Sim

/-- Runs a scenario to completion; none is the panic of the assertion. -/
def simulate (sc : Scenario) : Option (List Event) :=
  if sc.workers < 2 then none
  else some (((Sim.start sc).run sc).events.mergeSort fun e f => decide (e.tMs ≤ f.tMs))

/-- The loop as a machine: its reachable states are those of the one run. -/
def simulation (sc : Scenario) : Machine Sim Unit where
  initial s := s = Sim.start sc
  step s _ := s.step sc

namespace Sim
variable {s : Sim} {sc : Scenario}

theorem run_reachable (reach : (simulation sc).Reachable s) : (simulation sc).Reachable (s.run sc) := by
  fun_induction run sc s with
  | case1 => exact reach
  | case2 s t stepped ih => exact ih (.next (a := ()) reach trivial stepped)

/-- The run goes through every reachable state. -/
theorem run_of_reachable (reach : (simulation sc).Reachable s) : s.run sc = (start sc).run sc := by
  refine Machine.Reachable.invariant (P := fun s => s.run sc = (start sc).run sc) ?_ ?_ reach
  · rintro s rfl
    rfl
  · rintro s ⟨⟩ t same stepped
    rw [← run_step stepped, same]

end Sim

end Palisade.Testing
