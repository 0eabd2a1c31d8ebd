import Mathlib.Data.List.Pairwise
import Mathlib.Data.Finset.Card

/-! Machines driven by a schedule of actions. A step is a partial function of
the state and the action; it is undefined where the action is not enabled.
Invariants are proved once per step and lifted to every state of every run,
including runs restricted by a condition on each of their steps. -/
namespace Transition
variable {S A : Type}

structure Machine (S A : Type) where
  initial : S → Prop
  step : S → A → Option S

/-- States of the runs whose every step meets `ok`, judged in the state before it. -/
inductive Machine.ReachableWhen (m : Machine S A) (ok : S → A → Prop) : S → Prop where
  | initial : m.initial s → ReachableWhen m ok s
  | next : ReachableWhen m ok s → ok s a → m.step s a = some t → ReachableWhen m ok t

def Machine.Reachable (m : Machine S A) : S → Prop := m.ReachableWhen fun _ _ => True

namespace Machine
variable {m : Machine S A} {ok : S → A → Prop}

theorem ReachableWhen.invariant {P : S → Prop} (start : ∀ s, m.initial s → P s)
    (preserves : ∀ s a t, P s → ok s a → m.step s a = some t → P t)
    (reach : m.ReachableWhen ok s) : P s := by
  induction reach with
  | initial first => exact start _ first
  | next _ allowed stepped ih => exact preserves _ _ _ ih allowed stepped

theorem Reachable.invariant {P : S → Prop} (start : ∀ s, m.initial s → P s)
    (preserves : ∀ s a t, P s → m.step s a = some t → P t) (reach : m.Reachable s) : P s :=
  ReachableWhen.invariant start (fun s a t held _ => preserves s a t held) reach

theorem ReachableWhen.mono {weaker : S → A → Prop} (allows : ∀ s a, ok s a → weaker s a)
    (reach : m.ReachableWhen ok s) : m.ReachableWhen weaker s := by
  induction reach with
  | initial first => exact .initial first
  | next _ allowed stepped ih => exact .next ih (allows _ _ allowed) stepped

/-- Executes a schedule, undefined as soon as one action is not enabled or is
not allowed. -/
def runWhen (m : Machine S A) (ok : S → A → Prop) [∀ s a, Decidable (ok s a)] (s : S) :
    List A → Option S
  | [] => some s
  | a :: rest => if ok s a then (m.step s a).bind fun t => m.runWhen ok t rest else none

theorem runWhen_reachable [∀ s a, Decidable (ok s a)] (reach : m.ReachableWhen ok s)
    (executed : m.runWhen ok s schedule = some t) : m.ReachableWhen ok t := by
  induction schedule generalizing s with
  | nil =>
    cases executed
    exact reach
  | cons a rest ih =>
    rw [runWhen] at executed
    split at executed
    · obtain ⟨middle, stepped, executed⟩ := Option.bind_eq_some_iff.mp executed
      exact ih (.next reach ‹_› stepped) executed
    · contradiction

/-- A schedule whose execution ends in a state with a decidable property. -/
theorem exists_reachableWhen (ok : S → A → Prop) [∀ s a, Decidable (ok s a)] (P : S → Prop)
    [DecidablePred P] (start : m.initial s) (schedule : List A)
    (found : (m.runWhen ok s schedule).any (fun t => decide (P t)) = true) :
    ∃ t, m.ReachableWhen ok t ∧ P t := by
  obtain ⟨t, executed, holds⟩ := Option.any_eq_true _ _ |>.mp found
  exact ⟨t, runWhen_reachable (.initial start) executed, of_decide_eq_true holds⟩

/-- An action that lowers a measure whenever it is taken can be repeated only so often. -/
theorem halts_within (a : A) (measure : S → Nat)
    (lowers : ∀ s t, m.step s a = some t → measure t < measure s) (s : S) :
    ∃ rounds t, rounds ≤ measure s ∧
      m.runWhen (fun _ _ => True) s (List.replicate rounds a) = some t ∧ m.step t a = none := by
  induction bound : measure s using Nat.strong_induction_on generalizing s with
  | h bound ih =>
    subst bound
    cases stepped : m.step s a with
    | none => exact ⟨0, s, Nat.zero_le _, rfl, stepped⟩
    | some next =>
      have less := lowers s next stepped
      obtain ⟨rounds, t, within, executed, stopped⟩ := ih _ less next rfl
      refine ⟨rounds + 1, t, by omega, ?_, stopped⟩
      rw [List.replicate_succ, runWhen, if_pos trivial, stepped]
      exact executed

end Machine

/-- What a table says after one of its entries was written. -/
theorem update_eq_some {K V : Type} [DecidableEq K] {table : K → Option V} {key other : K}
    {entry : Option V} {value : V} (found : Function.update table key entry other = some value) :
    (other = key ∧ entry = some value) ∨ (other ≠ key ∧ table other = some value) := by
  by_cases same : other = key
  · subst same
    rw [Function.update_self] at found
    exact .inl ⟨rfl, found⟩
  · rw [Function.update_of_ne same] at found
    exact .inr ⟨same, found⟩

/-- What a list holds after an entry was appended. -/
theorem concat_eq_some {entries : List S} {last found : S} {i : Nat}
    (here : (entries ++ [last])[i]? = some found) :
    entries[i]? = some found ∨ i = entries.length ∧ found = last := by
  obtain inside | beyond := Nat.lt_or_ge i entries.length
  · exact .inl ((List.getElem?_append_left inside).symm.trans here)
  · rw [List.getElem?_append_right beyond, List.getElem?_singleton] at here
    obtain ⟨start, ⟨⟩⟩ := Option.ite_none_right_eq_some.mp here
    exact .inr ⟨by omega, rfl⟩

/-- What a list holds after one of its entries was replaced. -/
theorem set_eq_some {entries : List S} {old next found : S} {i j : Nat} (here : entries[i]? = some old)
    (there : (entries.set i next)[j]? = some found) :
    (j = i ∧ found = next) ∨ (j ≠ i ∧ entries[j]? = some found) := by
  by_cases same : j = i
  · subst same
    have inside := (List.getElem?_eq_some_iff.mp here).1
    exact .inl ⟨rfl, Option.some.inj (there.symm.trans (List.getElem?_set_self inside))⟩
  · exact .inr ⟨same, (List.getElem?_set_ne fun eq => same eq.symm).symm.trans there⟩

/-- What is counted in a list after an entry was taken out. -/
theorem countP_erase_add [BEq S] [LawfulBEq S] (p : S → Bool) {entries : List S} {entry : S} (member : entry ∈ entries) :
    (entries.erase entry).countP p + (if p entry then 1 else 0) = entries.countP p := by
  rw [(List.perm_cons_erase member).countP_eq p, List.countP_cons]

/-- Entries at different places have different names. -/
def Distinct {K : Type} (name : S → K) (entries : List S) : Prop :=
  ∀ (i j : Nat) (first second : S), entries[i]? = some first → entries[j]? = some second →
    name first = name second → i = j

theorem Distinct.concat {K : Type} {name : S → K} {entries : List S} (distinct : Distinct name entries)
    {last : S} (fresh : ∀ entry ∈ entries, name entry ≠ name last) : Distinct name (entries ++ [last]) := by
  intro i j first second left right same
  obtain here | ⟨rfl, rfl⟩ := concat_eq_some left
  · obtain there | ⟨rfl, rfl⟩ := concat_eq_some right
    · exact distinct i j first second here there same
    · exact absurd same (fresh first (List.mem_of_getElem? here))
  · obtain there | ⟨rfl, rfl⟩ := concat_eq_some right
    · exact absurd same.symm (fresh second (List.mem_of_getElem? there))
    · rfl

theorem Distinct.set {K : Type} {name : S → K} {entries : List S} (distinct : Distinct name entries)
    {old next : S} {i : Nat} (here : entries[i]? = some old) (kept : name next = name old) :
    Distinct name (entries.set i next) := by
  have before {k : Nat} {found : S} (there : (entries.set i next)[k]? = some found) :
      ∃ entry, entries[k]? = some entry ∧ name entry = name found := by
    obtain ⟨rfl, rfl⟩ | ⟨_, before⟩ := set_eq_some here there
    · exact ⟨old, here, kept.symm⟩
    · exact ⟨found, before, rfl⟩
  intro j k first second left right same
  obtain ⟨first', left, first_name⟩ := before left
  obtain ⟨second', right, second_name⟩ := before right
  exact distinct j k first' second' left right (first_name.trans (same.trans second_name.symm))

/-- Two different entries of a history come in one order or the other. -/
theorem ordered {R : S → S → Prop} {history : List S} (related : history.Pairwise R)
    (differ : a ≠ b) (left : a ∈ history) (right : b ∈ history) : R a b ∨ R b a := by
  have symmetric : Std.Symm fun x y => R x y ∨ R y x := ⟨fun _ _ => Or.symm⟩
  have either : history.Pairwise fun x y => R x y ∨ R y x := related.imp Or.inl
  exact either.forall left right differ

end Transition

namespace Majority

/-- Two majorities of the first `n` indices share a member. -/
theorem overlap {n : Nat} {first second : List Nat}
    (nodup₁ : first.Nodup) (nodup₂ : second.Nodup)
    (bound₁ : ∀ i ∈ first, i < n) (bound₂ : ∀ i ∈ second, i < n)
    (quorum₁ : n / 2 + 1 ≤ first.length) (quorum₂ : n / 2 + 1 ≤ second.length) :
    ∃ i, i ∈ first ∧ i ∈ second := by
  have range₁ : first.toFinset ⊆ Finset.range n := by
    intro i member
    exact Finset.mem_range.mpr (bound₁ i (List.mem_toFinset.mp member))
  have range₂ : second.toFinset ⊆ Finset.range n := by
    intro i member
    exact Finset.mem_range.mpr (bound₂ i (List.mem_toFinset.mp member))
  have crowded : (Finset.range n).card < first.toFinset.card + second.toFinset.card := by
    rw [Finset.card_range, List.toFinset_card_of_nodup nodup₁, List.toFinset_card_of_nodup nodup₂]
    omega
  obtain ⟨i, shared⟩ := Finset.inter_nonempty_of_card_lt_card_add_card range₁ range₂ crowded
  obtain ⟨mem₁, mem₂⟩ := Finset.mem_inter.mp shared
  exact ⟨i, List.mem_toFinset.mp mem₁, List.mem_toFinset.mp mem₂⟩

end Majority
