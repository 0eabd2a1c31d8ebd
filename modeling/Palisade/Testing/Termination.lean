import Palisade.Testing.Agreement

/-! The loop of the simulator ends. A worker goes back and forth between its states, but each
round takes something off the rounds it can still have; the clock only moves forward, so the
events are recorded in the order of their times. -/
namespace Palisade.Testing
open Transition

namespace Sim
variable {s : Sim} {sc : Scenario}

theorem earliest_eq_none {wakeAt : Nat → Nat} {workers : List Nat} (none : earliest wakeAt workers = none) :
    workers = [] := by
  cases workers with
  | nil => rfl
  | cons w rest =>
    simp only [earliest] at none
    split at none
    · split at none <;> contradiction
    · contradiction

/-- The loop stops only when all workers are done. -/
theorem done_of_step (stopped : s.step sc = none) {w : Nat} (worker : w < sc.workers) :
    s.states w = .done := by
  have empty := earliest_eq_none (Option.map_eq_none_iff.mp stopped)
  by_contra running
  have member : w ∈ (List.range sc.workers).filter fun w => decide (s.states w ≠ .done) :=
    List.mem_filter.mpr ⟨List.mem_range.mpr worker, decide_eq_true running⟩
  rw [empty] at member
  contradiction

theorem weight_start (sc : Scenario) :
    ∑ w ∈ Finset.range sc.workers, (start sc).weight w = sc.workers * (4 * sc.stepsPerWorker + 1) := by
  have each : ∀ w ∈ Finset.range sc.workers, (start sc).weight w = 4 * sc.stepsPerWorker + 1 :=
    fun _ _ => rfl
  rw [Finset.sum_const_nat each, Finset.card_range]

/-- The run ends where the loop stops. -/
theorem run_eq (reach : (simulation sc).Reachable s) (stopped : s.step sc = none) :
    (start sc).run sc = s := by
  rw [← run_of_reachable reach, run]
  split
  · rfl
  · next again =>
    rw [stopped] at again
    contradiction

end Sim

open Sim

/-- The loop stops after so many rounds with every worker done, and sorting does nothing to the
events. No round is given to a worker that is done, and none of those that wake from a pause
releases a lock. -/
theorem simulator_terminates (sc : Scenario) (crowd : 2 ≤ sc.workers) :
    (∃ rounds s, rounds ≤ sc.workers * (4 * sc.stepsPerWorker + 1) ∧
      (simulation sc).runWhen (fun _ _ => True) (start sc) (List.replicate rounds ()) = some s ∧
      s.step sc = none ∧ (∀ w < sc.workers, s.states w = .done) ∧ Timed s.events ∧
      simulate sc = some s.events) ∧
    ∀ s, (simulation sc).Reachable s → ∀ w, s.next sc.workers = some w → s.states w ≠ .done ∧
      ∀ fence budget, s.states w = .paused fence budget →
        (((s.wake w).write w fence).store.release w fence).1 = false := by
  constructor
  · obtain ⟨rounds, s, within, executed, stopped⟩ :=
      (simulation sc).halts_within () (fun s => ∑ w ∈ Finset.range sc.workers, s.weight w)
        (fun _ _ stepped => step_weight stepped) (start sc)
    have reach : (simulation sc).Reachable s := Machine.runWhen_reachable (.initial rfl) executed
    refine ⟨rounds, s, weight_start sc ▸ within, executed, stopped, fun w => done_of_step stopped,
      (Sound.reachable reach).timed, ?_⟩
    rw [simulate_eq crowd, run_eq reach stopped]
  · intro s reach w turn
    refine ⟨(next_spec turn).2, fun fence budget state => ?_⟩
    exact ((Sound.reachable reach).wake w).lost (Nat.le_max_right _ _) state

theorem clean_scenario_terminates : ∃ s : Sim, (∀ w < 6, s.states w = .done) ∧
    simulate (.clean 0) = some s.events := by
  obtain ⟨⟨_, s, _, _, _, done, _, simulated⟩, _⟩ := simulator_terminates (.clean 0) (by decide)
  exact ⟨s, done, simulated⟩

end Palisade.Testing
