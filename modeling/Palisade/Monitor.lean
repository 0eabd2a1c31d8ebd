import Mathlib.Data.List.Induction

/-! Monitors: single passes over a history that stop at the first event they reject. A
monitor whose state tracks what it has seen accepts a history exactly when every event
of it is admitted after its past. -/
namespace Monitor
variable {S E V : Type}

/-- Runs the loop from a state, up to the first rejection. -/
def watch (observe : S → E → Except V S) (s : S) : List E → Except V S
  | [] => .ok s
  | e :: rest => (observe s e).bind fun t => watch observe t rest

/-- Something holds of every event together with its past. -/
def Always (P : List E → E → Prop) (history : List E) : Prop :=
  ∀ past e rest, history = past ++ e :: rest → P past e

variable {observe : S → E → Except V S} {s t : S} {P : List E → E → Prop} {history : List E} {e : E}

theorem watch_append (first second : List E) : watch observe s (first ++ second) =
    (watch observe s first).bind fun t => watch observe t second := by
  induction first generalizing s with
  | nil => rfl
  | cons e rest ih =>
    simp only [List.cons_append, watch]
    cases observe s e with
    | error v => rfl
    | ok t => exact ih

theorem watch_concat : watch observe s (history ++ [e]) =
    (watch observe s history).bind fun t => observe t e := by
  rw [watch_append]
  congr 1
  funext t
  simp only [watch]
  cases observe t e <;> rfl

theorem watch_rejects {more : List E} {v : V} (rejected : watch observe s history = .error v) :
    watch observe s (history ++ more) = .error v := by
  rw [watch_append, rejected]
  rfl

@[simp] theorem always_nil : Always P [] := by
  intro past e rest split
  simp at split

theorem always_cons : Always P (e :: history) ↔ P [] e ∧ Always (fun past => P (e :: past)) history := by
  constructor
  · intro always
    refine ⟨always [] e history rfl, fun past x rest split => always (e :: past) x rest ?_⟩
    rw [split, List.cons_append]
  · rintro ⟨first, always⟩ past x rest split
    cases past with
    | nil =>
      cases split
      exact first
    | cons y past =>
      obtain ⟨rfl, apart⟩ := List.cons.inj split
      exact always past x rest apart

theorem concat_eq_append_cons {past rest : List E} {x : E} : history ++ [e] = past ++ x :: rest ↔
    (past = history ∧ x = e ∧ rest = []) ∨ ∃ front, rest = front ++ [e] ∧ history = past ++ x :: front := by
  constructor
  · intro split
    rcases List.eq_nil_or_concat rest with rfl | ⟨front, y, rfl⟩
    · obtain ⟨rfl, ⟨⟩⟩ := List.append_inj' split rfl
      exact .inl ⟨rfl, rfl, rfl⟩
    · rw [List.concat_eq_append, ← List.cons_append, ← List.append_assoc] at split
      obtain ⟨rfl, ⟨⟩⟩ := List.append_inj' split rfl
      exact .inr ⟨front, List.concat_eq_append, rfl⟩
  · rintro (⟨rfl, rfl, rfl⟩ | ⟨front, rfl, rfl⟩)
    · rfl
    · rw [List.append_assoc, List.cons_append]

theorem always_concat : Always P (history ++ [e]) ↔ Always P history ∧ P history e := by
  constructor
  · intro always
    refine ⟨fun past x rest split => always past x (rest ++ [e]) ?_, always history e [] rfl⟩
    exact concat_eq_append_cons.mpr (.inr ⟨rest, rfl, split⟩)
  · rintro ⟨always, last⟩ past x rest split
    obtain ⟨rfl, rfl, _⟩ | ⟨front, _, split⟩ := concat_eq_append_cons.mp split
    · exact last
    · exact always past x front split

variable {A : Type} {f : A → Option E} {line : List A}

/-- An event of a selection, with its past, comes from one of the whole line. -/
theorem filterMap_eq_append_cons {past rest : List E} : line.filterMap f = past ++ e :: rest ↔
    ∃ before a since, line = before ++ a :: since ∧ f a = some e ∧ before.filterMap f = past ∧
      since.filterMap f = rest := by
  constructor
  · intro split
    obtain ⟨first, second, rfl, rfl, selected⟩ := List.filterMap_eq_append_iff.mp split
    obtain ⟨skipped, a, since, rfl, none, found, rfl⟩ := List.filterMap_eq_cons_iff.mp selected
    refine ⟨first ++ skipped, a, since, (List.append_assoc _ _ _).symm, found, ?_, rfl⟩
    rw [List.filterMap_append, List.filterMap_eq_nil_iff.mpr none, List.append_nil]
  · rintro ⟨before, a, since, rfl, found, rfl, rfl⟩
    rw [List.filterMap_append, List.filterMap_cons_some found]

/-- What one observation makes of an event: it is admitted and tracked, or neither. -/
inductive Judged (Tracks : List E → S → Prop) (Admits : List E → E → Prop) (past : List E) (e : E) :
    Except V S → Prop where
  | admitted {t : S} : Admits past e → Tracks (past ++ [e]) t → Judged Tracks Admits past e (.ok t)
  | rejected {v : V} : ¬ Admits past e → Judged Tracks Admits past e (.error v)

section
variable {Valid : List E → Prop} {Tracks : List E → S → Prop} {Admits : List E → E → Prop}

theorem watch_judges (shorter : ∀ past e, Valid (past ++ [e]) → Valid past) (start : Tracks [] s)
    (judged : ∀ past e t, Valid (past ++ [e]) → Tracks past t → Judged Tracks Admits past e (observe t e))
    (valid : Valid history) :
    (∃ t, watch observe s history = .ok t ∧ Tracks history t ∧ Always Admits history) ∨
      (∃ v, watch observe s history = .error v) ∧ ¬ Always Admits history := by
  induction history using List.reverseRecOn with
  | nil => exact .inl ⟨s, rfl, start, always_nil⟩
  | append_singleton past e ih =>
    rw [watch_concat, always_concat]
    obtain ⟨t, watched, tracks, always⟩ | ⟨⟨v, watched⟩, never⟩ := ih (shorter past e valid)
    · have step := judged past e t valid tracks
      rw [watched, Except.bind]
      generalize observe t e = result at step ⊢
      cases step with
      | admitted admits next => exact .inl ⟨_, rfl, next, always, admits⟩
      | rejected refuses => exact .inr ⟨⟨_, rfl⟩, fun all => refuses all.2⟩
    · exact .inr ⟨⟨v, by rw [watched]; rfl⟩, fun all => never all.1⟩

end

end Monitor
