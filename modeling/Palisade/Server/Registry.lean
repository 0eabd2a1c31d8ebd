import Mathlib.Data.List.Nodup
import Mathlib.Logic.Function.Basic

/-! The registry of held keys behind the quota `max_keys`. It maps each key to the
principal it was granted to and counts the keys of each principal. A grant is registered
in one critical section; a release takes the key out in one and lowers the count in
another. -/
namespace Palisade.Server

structure HeldRegistry where
  holders : String → Option String
  counts : String → Option Nat

namespace HeldRegistry

def count (r : HeldRegistry) (principal : String) : Nat := (r.counts principal).getD 0

/-- At the ceiling `maxKeys`; 0 is no ceiling. -/
def Full (r : HeldRegistry) (principal : String) (maxKeys : Nat) : Prop :=
  0 < maxKeys ∧ maxKeys ≤ r.count principal

instance (r : HeldRegistry) (principal : String) (maxKeys : Nat) : Decidable (r.Full principal maxKeys) :=
  inferInstanceAs (Decidable (_ ∧ _))

def insert (r : HeldRegistry) (key principal : String) : HeldRegistry where
  holders := Function.update r.holders key (some principal)
  counts := Function.update r.counts principal (some (r.count principal + 1))

/-- A key that is tracked already is let through for whoever asks. -/
def tryAcquire (r : HeldRegistry) (key principal : String) (maxKeys : Nat) : Bool × HeldRegistry :=
  if (r.holders key).isSome then (true, r)
  else if r.Full principal maxKeys then (false, r)
  else (true, r.insert key principal)

/-- The first half of `release`: the principal whose slot is to be freed, if any. -/
def removeHolder (r : HeldRegistry) (key : String) : Option String × HeldRegistry :=
  (r.holders key, { r with holders := Function.update r.holders key none })

/-- The second half of `release`. -/
def decrement (r : HeldRegistry) (owner : String) : HeldRegistry :=
  match r.counts owner with
  | some n => { r with counts := Function.update r.counts owner (some (n - 1)) }
  | none => r

def Bounded (r : HeldRegistry) (maxKeys : String → Nat) : Prop :=
  ∀ principal, 0 < maxKeys principal → r.count principal ≤ maxKeys principal

/-- The count of a principal is the number of its keys, and of the releases that have
taken a key of it out and not lowered the count yet. -/
def Tallied (r : HeldRegistry) (owed : String → Nat) : Prop :=
  ∀ principal, ∃ keys : List String, keys.Nodup ∧
    (∀ key, key ∈ keys ↔ r.holders key = some principal) ∧
    r.count principal = keys.length + owed principal

variable {r : HeldRegistry} {owed : String → Nat} {key principal : String}

theorem Tallied.congr {other : String → Nat} (tallied : r.Tallied owed)
    (same : ∀ principal, other principal = owed principal) : r.Tallied other := by
  have equal : other = owed := funext same
  rwa [equal]

theorem removeHolder_of_ne {other : String} (distinct : other ≠ key) :
    (r.removeHolder key).2.holders other = r.holders other := Function.update_of_ne distinct _ _

@[simp] theorem removeHolder_self : (r.removeHolder key).2.holders key = none := Function.update_self _ _ _

@[simp] theorem decrement_holders : (r.decrement principal).holders = r.holders := by
  unfold HeldRegistry.decrement
  split
  · rfl
  · rfl

/-- A decrement lowers at most the count of its own principal. -/
theorem count_decrement_le {owner : String} : (r.decrement owner).count principal ≤ r.count principal := by
  unfold HeldRegistry.decrement
  split
  · next n found =>
    by_cases same : principal = owner
    · subst same
      simp only [count, found, Function.update_self, Option.getD_some]
      omega
    · simp only [count, Function.update_of_ne same, Nat.le_refl]
  · exact Nat.le_refl _

variable {maxKeys : String → Nat}

theorem Bounded.insert (bounded : r.Bounded maxKeys) (room : ¬ r.Full principal (maxKeys principal)) :
    (r.insert key principal).Bounded maxKeys := by
  intro owner limited
  by_cases same : owner = principal
  · subst same
    simp only [Full, not_and, Nat.not_le] at room
    simp only [count, HeldRegistry.insert, Function.update_self, Option.getD_some]
    exact room limited
  · simpa only [count, HeldRegistry.insert, Function.update_of_ne same] using bounded owner limited

theorem Bounded.decrement (bounded : r.Bounded maxKeys) : (r.decrement principal).Bounded maxKeys := by
  intro owner limited
  exact Nat.le_trans count_decrement_le (bounded owner limited)

/-- What registering a grant can do. -/
inductive Acquired (r : HeldRegistry) (key principal : String) (maxKeys : Nat) :
    Bool → HeldRegistry → Prop where
  | tracked : r.holders key = some other → Acquired r key principal maxKeys true r
  | refused : r.holders key = none → r.Full principal maxKeys → Acquired r key principal maxKeys false r
  | inserted : r.holders key = none → ¬ r.Full principal maxKeys →
      Acquired r key principal maxKeys true (r.insert key principal)

theorem acquired (r : HeldRegistry) (key principal : String) (maxKeys : Nat) :
    r.Acquired key principal maxKeys (r.tryAcquire key principal maxKeys).1
      (r.tryAcquire key principal maxKeys).2 := by
  unfold tryAcquire
  cases found : r.holders key with
  | some other => exact .tracked found
  | none =>
    simp only [Option.isSome_none, Bool.false_eq_true, if_false]
    split
    · exact .refused found ‹_›
    · exact .inserted found ‹_›

theorem Tallied.insert (tallied : r.Tallied owed) (free : r.holders key = none) :
    (r.insert key principal).Tallied owed := by
  intro owner
  obtain ⟨keys, nodup, mapped, counted⟩ := tallied owner
  have absent : key ∉ keys := by
    intro member
    rw [(mapped key).mp member] at free
    contradiction
  by_cases same : owner = principal
  · subst same
    refine ⟨key :: keys, List.nodup_cons.mpr ⟨absent, nodup⟩, fun name => ?_, ?_⟩
    · by_cases here : name = key
      · simp [HeldRegistry.insert, here]
      · simp [HeldRegistry.insert, here, mapped]
    · simp only [HeldRegistry.insert, count, Function.update_self, Option.getD_some, List.length_cons] at counted ⊢
      omega
  · refine ⟨keys, nodup, fun name => ?_, ?_⟩
    · by_cases here : name = key
      · subst here
        simp [HeldRegistry.insert, absent, Ne.symm same]
      · simp [HeldRegistry.insert, here, mapped]
    · simpa only [HeldRegistry.insert, count, Function.update_of_ne same] using counted

theorem Tallied.remove (tallied : r.Tallied owed) (held : r.holders key = some principal) :
    (r.removeHolder key).2.Tallied (Function.update owed principal (owed principal + 1)) := by
  intro owner
  obtain ⟨keys, nodup, mapped, counted⟩ := tallied owner
  refine ⟨keys.erase key, nodup.erase key, fun name => ?_, ?_⟩
  · rw [nodup.mem_erase_iff, mapped]
    by_cases here : name = key
    · simp [removeHolder, here]
    · simp [removeHolder, here]
  · have counted : (r.removeHolder key).2.count owner = keys.length + owed owner := counted
    by_cases same : owner = principal
    · subst same
      have member := (mapped key).mpr held
      have some : 0 < keys.length := List.length_pos_of_mem member
      rw [Function.update_self, List.length_erase_of_mem member]
      omega
    · have absent : key ∉ keys := by
        intro member
        rw [(mapped key).mp member] at held
        exact same (Option.some.inj held)
      rw [Function.update_of_ne same, List.erase_of_not_mem absent, counted]

theorem Tallied.missing (tallied : r.Tallied owed) (free : r.holders key = none) :
    (r.removeHolder key).2.Tallied owed := by
  have same : (r.removeHolder key).2 = r := by
    simp only [removeHolder, ← free, Function.update_eq_self]
  rwa [same]

/-- The count of a principal with a release under way is there to be lowered. -/
theorem Tallied.positive (tallied : r.Tallied owed) (due : 0 < owed principal) :
    ∃ n, r.counts principal = some (n + 1) := by
  obtain ⟨keys, _, _, counted⟩ := tallied principal
  cases stored : r.counts principal with
  | none =>
    simp only [count, stored, Option.getD_none] at counted
    omega
  | some count =>
    simp only [HeldRegistry.count, stored, Option.getD_some] at counted
    exact ⟨count - 1, congrArg some (by omega)⟩

theorem Tallied.decrement (tallied : r.Tallied owed) (due : 0 < owed principal) :
    (r.decrement principal).Tallied (Function.update owed principal (owed principal - 1)) := by
  obtain ⟨n, found⟩ := tallied.positive due
  intro owner
  obtain ⟨keys, nodup, mapped, counted⟩ := tallied owner
  refine ⟨keys, nodup, fun name => ?_, ?_⟩
  · simp only [HeldRegistry.decrement, found, mapped]
  · by_cases same : owner = principal
    · subst same
      simp only [HeldRegistry.decrement, count, found, Option.getD_some, Function.update_self] at counted ⊢
      omega
    · simpa only [HeldRegistry.decrement, count, found, Function.update_of_ne same] using counted

end HeldRegistry

end Palisade.Server
