import Mathlib.Data.Set.Card
import Palisade.Server.Registry
import Palisade.Transition

/-! Threads at the registry. The lock of `holders` is held throughout `try_acquire`, that of
`counts` only while it is read and again while it is raised; a release lowers the count
under the second lock alone. So decrements run between the check of the quota and the
registration, and any number of acquisitions between the two halves of a release. -/
namespace Palisade.Server
open Transition

/-- `registering` is the key and principal of a `try_acquire` past its check, which has the
lock of `holders`; `releasing` are the owners taken out whose counts are still to be lowered. -/
structure Registrations where
  registry : HeldRegistry
  registering : Option (String × String)
  releasing : List String

namespace Registrations

inductive Action where
  /-- `try_acquire` as far as its check; it is over unless there is something to register. -/
  | check (key principal : String)
  | register
  | remove (key : String)
  | decrement (owner : String)
  deriving DecidableEq

def act (maxKeys : String → Nat) (s : Registrations) : Action → Option Registrations
  | .check key principal =>
    if s.registering = none then
      if (s.registry.holders key).isSome ∨ s.registry.Full principal (maxKeys principal) then some s
      else some { s with registering := some (key, principal) }
    else none
  | .register =>
    match s.registering with
    | some (key, principal) =>
      some { s with registry := s.registry.insert key principal, registering := none }
    | none => none
  | .remove key =>
    if s.registering = none then
      let (owner, registry) := s.registry.removeHolder key
      some { s with registry, releasing := owner.toList ++ s.releasing }
    else none
  | .decrement owner =>
    if owner ∈ s.releasing then
      some { s with registry := s.registry.decrement owner, releasing := s.releasing.erase owner }
    else none

end Registrations

/-- The registry starts empty. -/
def registrations (maxKeys : String → Nat) : Machine Registrations Registrations.Action where
  initial s := (∀ key, s.registry.holders key = none) ∧ (∀ principal, s.registry.counts principal = none) ∧
    s.registering = none ∧ s.releasing = []
  step s action := s.act maxKeys action

/-- Everything a step can do. -/
inductive Registrations.Moves (maxKeys : String → Nat) (s : Registrations) : Registrations → Prop where
  | stayed : Moves maxKeys s s
  | checked {key principal : String} : s.registering = none → s.registry.holders key = none →
      ¬ s.registry.Full principal (maxKeys principal) →
      Moves maxKeys s { s with registering := some (key, principal) }
  | registered {key principal : String} : s.registering = some (key, principal) →
      Moves maxKeys s { s with registry := s.registry.insert key principal, registering := none }
  | missing {key : String} : s.registering = none → s.registry.holders key = none →
      Moves maxKeys s { s with registry := (s.registry.removeHolder key).2 }
  | removed {key owner : String} : s.registering = none → s.registry.holders key = some owner →
      Moves maxKeys s
        { s with registry := (s.registry.removeHolder key).2, releasing := owner :: s.releasing }
  | decremented {owner : String} : owner ∈ s.releasing →
      Moves maxKeys s
        { s with registry := s.registry.decrement owner, releasing := s.releasing.erase owner }

/-- A count without releases under way is the number of keys. -/
theorem HeldRegistry.Tallied.count_eq {r : HeldRegistry} {owed : String → Nat} (tallied : r.Tallied owed)
    {principal : String} (settled : owed principal = 0) :
    (r.count principal : ℕ∞) = Set.encard {key | r.holders key = some principal} := by
  obtain ⟨keys, nodup, mapped, counted⟩ := tallied principal
  have same : {key | r.holders key = some principal} = ↑keys.toFinset := by
    ext key
    simp [mapped]
  rw [same, Set.encard_coe_eq_coe_finsetCard, List.toFinset_card_of_nodup nodup, counted, settled, Nat.add_zero]

namespace Registrations
variable {maxKeys : String → Nat} {s t : Registrations} {action : Action}

theorem act_moves (stepped : s.act maxKeys action = some t) : s.Moves maxKeys t := by
  cases action with
  | check key principal =>
    simp only [act] at stepped
    split at stepped <;> [rename_i idle; contradiction]
    split at stepped <;> cases stepped
    · exact .stayed
    · next passed =>
      simp only [not_or, Bool.not_eq_true, Option.isSome_eq_false_iff, Option.isNone_iff_eq_none] at passed
      exact .checked idle passed.1 passed.2
  | register =>
    simp only [act] at stepped
    split at stepped <;> cases stepped
    exact .registered ‹_›
  | remove key =>
    obtain ⟨idle, ⟨⟩⟩ := Option.ite_none_right_eq_some.mp stepped
    cases found : s.registry.holders key with
    | none =>
      simp only [Option.toList_none, List.nil_append]
      exact .missing idle found
    | some owner =>
      simp only [Option.toList_some, List.singleton_append]
      exact .removed idle found
  | decrement owner =>
    obtain ⟨due, ⟨⟩⟩ := Option.ite_none_right_eq_some.mp stepped
    exact .decremented due

/-- A call of `try_acquire` that nothing interrupts does what the function says. -/
theorem tryAcquire_steps (idle : s.registering = none) (key principal : String) :
    ∃ middle, s.act maxKeys (.check key principal) = some middle ∧
      (middle = s ∧ (s.registry.tryAcquire key principal (maxKeys principal)).2 = s.registry ∨
        middle.act maxKeys .register = some
          { s with registry := (s.registry.tryAcquire key principal (maxKeys principal)).2 }) := by
  have done := s.registry.acquired key principal (maxKeys principal)
  generalize s.registry.tryAcquire key principal (maxKeys principal) = answer at done
  obtain ⟨allowed, registry⟩ := answer
  simp only at done
  cases done with
  | tracked found => exact ⟨s, by simp [act, idle, found], .inl ⟨rfl, rfl⟩⟩
  | refused free full => exact ⟨s, by simp [act, idle, full], .inl ⟨rfl, rfl⟩⟩
  | inserted free room =>
    exact ⟨_, by simp [act, idle, free, room]; rfl, .inr (by simp [act, idle])⟩

/-- Each count is that of the keys and of the releases under way, none of the counts is above
its quota, and what is about to be registered has room. -/
structure Inv (maxKeys : String → Nat) (s : Registrations) : Prop where
  tallied : s.registry.Tallied fun principal => s.releasing.count principal
  bounded : s.registry.Bounded maxKeys
  room : ∀ key principal, s.registering = some (key, principal) →
    s.registry.holders key = none ∧ ¬ s.registry.Full principal (maxKeys principal)

theorem inv_initial (first : (registrations maxKeys).initial s) : s.Inv maxKeys := by
  obtain ⟨holders, counts, registering, releasing⟩ := first
  constructor
  · intro principal
    exact ⟨[], List.nodup_nil, by simp [holders], by simp [HeldRegistry.count, counts, releasing]⟩
  · intro principal _
    simp [HeldRegistry.count, counts]
  · simp [registering]

theorem Inv.step (inv : s.Inv maxKeys) (moved : s.Moves maxKeys t) : t.Inv maxKeys := by
  cases moved with
  | stayed => exact inv
  | checked idle free room =>
    refine ⟨inv.tallied, inv.bounded, ?_⟩
    rintro _ _ ⟨⟩
    exact ⟨free, room⟩
  | registered pending =>
    obtain ⟨free, room⟩ := inv.room _ _ pending
    exact ⟨inv.tallied.insert free, inv.bounded.insert room, nofun⟩
  | missing idle free => exact ⟨inv.tallied.missing free, inv.bounded, by simp [idle]⟩
  | @removed _ owner idle held =>
    refine ⟨(inv.tallied.remove held).congr ?_, inv.bounded, by simp [idle]⟩
    intro principal
    by_cases same : principal = owner
    · subst same
      rw [Function.update_self, List.count_cons_self]
    · rw [Function.update_of_ne same, List.count_cons_of_ne (Ne.symm same)]
  | @decremented owner due =>
    refine ⟨(inv.tallied.decrement (List.count_pos_iff.mpr due)).congr ?_, inv.bounded.decrement, ?_⟩
    · intro principal
      by_cases same : principal = owner
      · subst same
        rw [Function.update_self, List.count_erase_self]
      · rw [Function.update_of_ne same, List.count_erase_of_ne same]
    · intro key principal pending
      obtain ⟨free, room⟩ := inv.room key principal pending
      have kept : (s.registry.decrement owner).holders key = none := by
        rw [HeldRegistry.decrement_holders, free]
      -- a count that was lowered leaves the more room
      exact ⟨kept, fun full => room ⟨full.1, full.2.trans HeldRegistry.count_decrement_le⟩⟩

theorem inv_reachable (reach : (registrations maxKeys).Reachable s) : s.Inv maxKeys :=
  reach.invariant (fun _ => inv_initial) fun _ _ _ inv stepped => inv.step (act_moves stepped)

end Registrations

/-- At every moment no count is above a quota, and the count that a release is about to lower
is positive. While no call is under way, each count is the number of keys of its principal. -/
theorem registrations_counted {maxKeys : String → Nat} {s : Registrations}
    (reach : (registrations maxKeys).Reachable s) :
    (s.registering = none → s.releasing = [] → ∀ principal,
      (s.registry.count principal : ℕ∞) = Set.encard {key | s.registry.holders key = some principal}) ∧
    (∀ owner ∈ s.releasing, ∃ n, s.registry.counts owner = some (n + 1)) ∧
    ∀ principal, 0 < maxKeys principal → s.registry.count principal ≤ maxKeys principal := by
  have inv := Registrations.inv_reachable reach
  refine ⟨?_, ?_, inv.bounded⟩
  · intro _ quiet principal
    exact inv.tallied.count_eq (by simp [quiet])
  · intro owner due
    exact inv.tallied.positive (List.count_pos_iff.mpr due)

/-- A key is taken out while another is about to be registered. -/
theorem release_meets_registration : ∃ s : Registrations, s.registering = some ("b", "p") ∧
    s.releasing = ["p"] ∧ (∃ n, s.registry.counts "p" = some (n + 1)) ∧ s.registry.count "p" ≤ 2 := by
  obtain ⟨s, reach, pending, due⟩ := Machine.exists_reachableWhen (fun _ _ => True)
    (fun s : Registrations => s.registering = some ("b", "p") ∧ s.releasing = ["p"])
    (m := registrations fun _ => 2) (s := ⟨⟨fun _ => none, fun _ => none⟩, none, []⟩)
    ⟨fun _ => rfl, fun _ => rfl, rfl, rfl⟩ [.check "a" "p", .register, .remove "a", .check "b" "p"] (by decide)
  obtain ⟨_, positive, bounded⟩ := registrations_counted reach
  exact ⟨s, pending, due, positive "p" (by simp [due]), bounded "p" (by decide)⟩

end Palisade.Server
