import Palisade.Transition

/-! An exclusive register that is held for a term at a time. What the register
holds is a forecast: its holder at each instant to come if nobody touches it
again. A ledger records, independently of the register, the last term each
party was given and has not handed back; the register backs the ledger when
every recorded term that is still running is forecast to run to its end. -/
namespace Lease
variable {τ : Type}

abbrev Forecast (τ : Type) := Nat → Option τ

inductive Event (τ : Type) where
  | grant (who : τ) (lease : Nat)
  | renew (who : τ) (lease : Nat)
  | free (who : τ)
  | idle

/-- From `now` on, `who` holds the register up to `stop` and nobody afterwards. -/
def Forecast.Until (forecast : Forecast τ) (now : Nat) (who : τ) (stop : Nat) : Prop :=
  ∀ instant, now ≤ instant → forecast instant = if instant < stop then some who else none

def Forecast.Holds (forecast : Forecast τ) (who : τ) (start stop : Nat) : Prop :=
  ∀ instant, start ≤ instant → instant < stop → forecast instant = some who

/-- The effect of one operation at `now`; the past of a forecast is immaterial. -/
inductive Step (now : Nat) (before after : Forecast τ) : Event τ → Prop where
  | grant : before now = none → after.Until now who (now + lease) →
      Step now before after (.grant who lease)
  | renew : before now = some who → after.Until now who (now + lease) →
      Step now before after (.renew who lease)
  | free : before now = some who → (∀ instant, now ≤ instant → after instant = none) →
      Step now before after (.free who)
  | idle : (∀ instant, now ≤ instant → after instant = before instant) →
      Step now before after .idle

theorem Forecast.Until.holds {forecast : Forecast τ} (runs : forecast.Until now who stop)
    (short : bound ≤ stop) : forecast.Holds who now bound := by
  intro instant later inside
  rw [runs instant later, if_pos (lt_of_lt_of_le inside short)]

theorem Forecast.holds_elapsed {forecast : Forecast τ} (elapsed : stop ≤ start) :
    forecast.Holds who start stop :=
  fun _ later inside => absurd inside (not_lt.mpr (le_trans elapsed later))

theorem Forecast.Holds.later {forecast : Forecast τ} (holds : forecast.Holds who start stop)
    (later : start ≤ next) : forecast.Holds who next stop :=
  fun instant after inside => holds instant (le_trans later after) inside

/-- A party is given the register only if it is free or already its own. -/
theorem Step.taken {before after : Forecast τ} (step : Step now before after event)
    (taken : event = .grant who lease ∨ event = .renew who lease) :
    (∀ owner, before now = some owner → owner = who) ∧ after.Until now who (now + lease) := by
  rcases taken with rfl | rfl
  · cases step with
    | grant unheld runs => exact ⟨by simp [unheld], runs⟩
  · cases step with
    | renew held runs => exact ⟨by simp [held], runs⟩

/-- A running term survives every step that neither frees it nor renews it for
less: no other party can be granted the register before the term ends. -/
theorem Step.holds {before after : Forecast τ} (step : Step now before after event)
    (holds : before.Holds who now stop) (kept : event ≠ .free who)
    (renewed : ∀ lease, event = .renew who lease → stop ≤ now + lease) :
    after.Holds who now stop := by
  rcases le_or_gt stop now with elapsed | running
  · exact Forecast.holds_elapsed elapsed
  · have held := holds now le_rfl running
    cases step with
    | grant unheld =>
      rw [unheld] at held
      contradiction
    | renew owner runs =>
      obtain rfl := Option.some.inj (owner.symm.trans held)
      exact runs.holds (renewed _ rfl)
    | free owner =>
      obtain rfl := Option.some.inj (owner.symm.trans held)
      contradiction
    | idle same =>
      intro instant later inside
      rw [same instant later, holds instant later inside]

/-- Nobody comes to hold the register without being granted it. -/
theorem Step.absent {before after : Forecast τ} (step : Step now before after event)
    (absent : ∀ instant, now ≤ instant → before instant ≠ some who)
    (ungranted : ∀ lease, event ≠ .grant who lease) (instant : Nat) (later : now ≤ instant) :
    after instant ≠ some who := by
  cases step with
  | grant _ runs =>
    rw [runs instant later]
    split
    · rintro ⟨⟩
      exact ungranted _ rfl
    · simp
  | renew owner runs =>
    rw [runs instant later]
    split
    · rintro ⟨⟩
      exact absent now le_rfl owner
    · simp
  | free _ clear =>
    rw [clear instant later]
    simp
  | idle same =>
    rw [same instant later]
    exact absent instant later

/-- The last grant or renewal of a party: when it ran and for how long. -/
structure Term where
  start : Nat
  lease : Nat
  deriving DecidableEq

def Term.ends (term : Term) : Nat := term.start + term.lease

abbrev Ledger (τ : Type) := τ → Option Term

variable [DecidableEq τ]

def Ledger.record (ledger : Ledger τ) (now : Nat) : Event τ → Ledger τ
  | .grant who lease | .renew who lease => Function.update ledger who (some ⟨now, lease⟩)
  | .free who => Function.update ledger who none
  | .idle => ledger

def Backed (ledger : Ledger τ) (forecast : Forecast τ) (now : Nat) : Prop :=
  ∀ who term, ledger who = some term → forecast.Holds who now term.ends

omit [DecidableEq τ] in
theorem Backed.later {ledger : Ledger τ} {forecast : Forecast τ}
    (backed : Backed ledger forecast now) (later : now ≤ next) : Backed ledger forecast next :=
  fun who term recorded => (backed who term recorded).later later

theorem Backed.step {ledger : Ledger τ} {before after : Forecast τ}
    (backed : Backed ledger before now) (step : Step now before after event) :
    Backed (ledger.record now event) after now := by
  intro who term recorded
  have others (kept : event ≠ .free who) (fresh : ∀ lease, event ≠ .renew who lease)
      (old : ledger who = some term) : after.Holds who now term.ends :=
    step.holds (backed who term old) kept fun lease same => absurd same (fresh lease)
  cases step with
  | grant unheld runs =>
    rcases Transition.update_eq_some recorded with ⟨rfl, given⟩ | ⟨_, old⟩
    · cases given
      exact runs.holds le_rfl
    · exact others (by simp) (by simp) old
  | renew owner runs =>
    rcases Transition.update_eq_some recorded with ⟨rfl, given⟩ | ⟨distinct, old⟩
    · cases given
      exact runs.holds le_rfl
    · exact others (by simp) (by simp [distinct.symm]) old
  | free owner clear =>
    rcases Transition.update_eq_some recorded with ⟨rfl, given⟩ | ⟨distinct, old⟩
    · contradiction
    · exact others (by simp [distinct.symm]) (by simp) old
  | idle unchanged => exact others (by simp) (by simp) recorded

end Lease
