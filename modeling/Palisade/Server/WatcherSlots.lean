import Palisade.Server.Auth
import Palisade.Transition

/-! The watcher quota of one principal. `check_watch` adds itself to the counter first, then
tests the value it found there, and takes the addition back if that was at the ceiling, so
calls that are about to be refused stand in each other's way. The counter is a `usize` that
is never full; lowered from 0 it would wrap around. -/
namespace Palisade.Server
open Transition

/-- `fetch_sub(1)` -/
def fetchSub : Nat → Nat
  | 0 => 2 ^ 64 - 1
  | n + 1 => n

/-- `added` are the calls between their addition and their test, with their keys and the values
they found; `refusing` those that are to take it back. -/
structure WatcherSlots where
  counter : Nat
  added : List (String × Nat)
  refusing : Nat
  guards : Nat
  deriving DecidableEq

namespace WatcherSlots

inductive Action where
  /-- `check_watch` as far as its addition. -/
  | call (key : String)
  | test (key : String) (prev : Nat)
  | undo
  /-- A guard is dropped. -/
  | drop
  deriving DecidableEq

def act (principal : Principal) (s : WatcherSlots) : Action → Option WatcherSlots
  | .call key =>
    match principal.may key principal.cfg.canWatch with
    | .error _ => some s
    | .ok _ => some { s with counter := s.counter + 1, added := (key, s.counter) :: s.added }
  | .test key prev =>
    if (key, prev) ∈ s.added then
      match principal.checkWatch prev key with
      | .error _ => some { s with added := s.added.erase (key, prev), refusing := s.refusing + 1 }
      | .ok _ => some { s with added := s.added.erase (key, prev), guards := s.guards + 1 }
    else none
  | .undo =>
    if 0 < s.refusing then some { s with counter := fetchSub s.counter, refusing := s.refusing - 1 } else none
  | .drop =>
    if 0 < s.guards then some { s with counter := fetchSub s.counter, guards := s.guards - 1 } else none

end WatcherSlots

def watching (principal : Principal) : Machine WatcherSlots WatcherSlots.Action where
  initial s := s = ⟨0, [], 0, 0⟩
  step s action := s.act principal action

namespace WatcherSlots
variable {principal : Principal} {s t : WatcherSlots} {key : String} {prev : Nat}

/-- A call that is let in found the counter below the ceiling. -/
theorem below_of_checkWatch (passed : principal.checkWatch prev key = .ok ())
    (limited : 0 < principal.cfg.maxWatchers.toNat) : prev < principal.cfg.maxWatchers.toNat := by
  unfold Principal.checkWatch at passed
  cases allowed : principal.may key principal.cfg.canWatch with
  | error status => simp [allowed, bind, Except.bind] at passed
  | ok =>
    by_contra full
    simp [allowed, limited, Nat.le_of_not_lt full, bind, Except.bind] at passed

/-- A call that nothing interrupts is answered by `check_watch` at the counter as it was; if it
is refused it leaves no trace. -/
theorem check_alone (allowed : principal.may key principal.cfg.canWatch = .ok ()) :
    ∃ middle, s.act principal (.call key) = some middle ∧
      (principal.checkWatch s.counter key = .ok () → middle.act principal (.test key s.counter) =
        some { s with counter := s.counter + 1, guards := s.guards + 1 }) ∧
      ∀ status, principal.checkWatch s.counter key = .error status → ∃ refused,
        middle.act principal (.test key s.counter) = some refused ∧ refused.act principal .undo = some s := by
  refine ⟨{ s with counter := s.counter + 1, added := (key, s.counter) :: s.added }, by simp [act, allowed], ?_, ?_⟩
  · intro passed
    simp [act, passed]
  · intro status refused
    exact ⟨{ s with counter := s.counter + 1, refusing := s.refusing + 1 }, by simp [act, refused],
      by simp [act, fetchSub]⟩

/-- The calls under way that will get a guard. -/
def admitted (principal : Principal) (s : WatcherSlots) : Nat :=
  s.added.countP fun call => decide (call.2 < principal.cfg.maxWatchers.toNat)

/-- The counter is made up of the guards and the calls under way; the guards and the calls that
will get one are within the quota. -/
structure Inv (principal : Principal) (s : WatcherSlots) : Prop where
  counted : s.counter = s.guards + s.added.length + s.refusing
  bounded : 0 < principal.cfg.maxWatchers.toNat →
    s.guards + s.admitted principal ≤ principal.cfg.maxWatchers.toNat

namespace Inv
variable (inv : s.Inv principal)
include inv

theorem call (key : String) :
    Inv principal { s with counter := s.counter + 1, added := (key, s.counter) :: s.added } where
  counted := by
    have counted := inv.counted
    simp only [List.length_cons]
    omega
  bounded limited := by
    have before := inv.bounded limited
    simp only [admitted, List.countP_cons, decide_eq_true_eq] at before ⊢
    split
    · next below =>
      -- whoever is in or will be is in the counter that the call found
      have counted := inv.counted
      have fewer : s.admitted principal ≤ s.added.length := List.countP_le_length
      simp only [admitted] at fewer
      omega
    · exact before

theorem welcome {call : String × Nat} (member : call ∈ s.added)
    (passed : 0 < principal.cfg.maxWatchers.toNat → call.2 < principal.cfg.maxWatchers.toNat) :
    Inv principal { s with added := s.added.erase call, guards := s.guards + 1 } where
  counted := by
    have counted := inv.counted
    have left := List.length_erase_add_one member
    simp only
    omega
  bounded limited := by
    have before := inv.bounded limited
    have left := countP_erase_add (fun call => decide (call.2 < principal.cfg.maxWatchers.toNat)) member
    rw [if_pos (decide_eq_true (passed limited))] at left
    simp only [admitted] at before ⊢
    omega

theorem refuse {call : String × Nat} (member : call ∈ s.added) :
    Inv principal { s with added := s.added.erase call, refusing := s.refusing + 1 } where
  counted := by
    have counted := inv.counted
    have left := List.length_erase_add_one member
    simp only
    omega
  bounded limited := by
    have before := inv.bounded limited
    have left := countP_erase_add (fun call => decide (call.2 < principal.cfg.maxWatchers.toNat)) member
    simp only [admitted] at before ⊢
    omega

/-- Whoever lowers the counter is in it. -/
theorem positive (due : 0 < s.refusing ∨ 0 < s.guards) : 0 < s.counter := by
  have counted := inv.counted
  omega

theorem fetchSub_counter (due : 0 < s.refusing ∨ 0 < s.guards) : fetchSub s.counter + 1 = s.counter := by
  obtain ⟨n, found⟩ := Nat.exists_eq_succ_of_ne_zero (inv.positive due).ne'
  rw [found, fetchSub]

theorem undo (due : 0 < s.refusing) :
    Inv principal { s with counter := fetchSub s.counter, refusing := s.refusing - 1 } where
  counted := by
    have counted := inv.counted
    have lowered := inv.fetchSub_counter (.inl due)
    simp only
    omega
  bounded := inv.bounded

theorem drop (due : 0 < s.guards) :
    Inv principal { s with counter := fetchSub s.counter, guards := s.guards - 1 } where
  counted := by
    have counted := inv.counted
    have lowered := inv.fetchSub_counter (.inr due)
    simp only
    omega
  bounded limited := by
    have before := inv.bounded limited
    simp only [admitted] at before ⊢
    omega

theorem step {action : Action} (stepped : s.act principal action = some t) : t.Inv principal := by
  cases action with
  | call key =>
    simp only [act] at stepped
    split at stepped <;> cases stepped
    · exact inv
    · exact inv.call key
  | test key prev =>
    simp only [act] at stepped
    split at stepped <;> [rename_i member; contradiction]
    split at stepped <;> cases stepped
    · exact inv.refuse member
    · exact inv.welcome member (below_of_checkWatch ‹_›)
  | undo =>
    obtain ⟨due, ⟨⟩⟩ := Option.ite_none_right_eq_some.mp stepped
    exact inv.undo due
  | drop =>
    obtain ⟨due, ⟨⟩⟩ := Option.ite_none_right_eq_some.mp stepped
    exact inv.drop due

end Inv

theorem inv_reachable (reach : (watching principal).Reachable s) : s.Inv principal := by
  refine reach.invariant ?_ fun _ _ _ inv stepped => inv.step stepped
  rintro s rfl
  exact ⟨rfl, fun _ => Nat.zero_le _⟩

end WatcherSlots

/-- The guards are never more than the quota; the counter is never lowered from 0, whether by a
refused call or by a guard; and while no call is under way it is the number of guards. -/
theorem watcher_slots_counted {principal : Principal} {s : WatcherSlots}
    (reach : (watching principal).Reachable s) :
    (0 < principal.cfg.maxWatchers.toNat → s.guards ≤ principal.cfg.maxWatchers.toNat) ∧
    (0 < s.refusing ∨ 0 < s.guards → 0 < s.counter) ∧
    (s.added = [] → s.refusing = 0 → s.counter = s.guards) := by
  have inv := WatcherSlots.inv_reachable reach
  refine ⟨?_, inv.positive, ?_⟩
  · intro limited
    have bounded := inv.bounded limited
    omega
  · intro tested undone
    simpa [tested, undone] using inv.counted

/-- A second watcher is being refused while the first one is let in. -/
theorem second_watcher_refused : ∃ s : WatcherSlots, s.counter = 2 ∧ s.refusing = 1 ∧ s.guards ≤ 1 := by
  let watcher : Principal := makePrincipal ⟨"w", "t", [""], true, true, true, true, false, 0, 1⟩
  obtain ⟨s, reach, counter, refusing⟩ := Machine.exists_reachableWhen (fun _ _ => True)
    (fun s : WatcherSlots => s.counter = 2 ∧ s.refusing = 1) (m := watching watcher) rfl
    [.call "k", .call "k", .test "k" 1, .test "k" 0] (by decide)
  exact ⟨s, counter, refusing, (watcher_slots_counted reach).1 (by decide)⟩

end Palisade.Server
