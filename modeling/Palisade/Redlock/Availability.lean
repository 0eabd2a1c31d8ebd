import Palisade.Redlock.Rollback

/-! When a round with a failed minority still returns a handle. -/
namespace Palisade.Redlock.Attempt
open Redis Single
variable {a : Attempt} {n : Nat}

/-- A member grants or answers "held" at once, refuses the connection, or gives
no answer. -/
inductive Behaves (a : Attempt) (i : Nat) : Prop where
  | grants (outcome : a.outcome i = .replied ran 0) (granted : a.grants i = true)
  | held (outcome : a.outcome i = .replied ran 0) (denied : a.answer i ran = .ok (0, fence))
  | refuses (outcome : a.outcome i = .failed took message)
  | blackholed (outcome : a.outcome i = .blackholed)

/-- A majority grants, the allocator node among it, and its counter answers. -/
structure MinorityFailure (a : Attempt) (n : Nat) : Prop where
  valid : LockOptions.validate ⟨a.ttl⟩ = .ok ()
  members : ∀ i < n, a.Behaves i
  allocatorNode : a.grants 0 = true
  majority : quorum n ≤ ((List.range n).filter a.grants).length
  serves : a.Serves

/-- Members that refuse the connection. -/
def refusing (a : Attempt) (i : Nat) : Bool :=
  match a.outcome i with
  | .failed _ _ => true
  | _ => false

/-- Members that give no answer. -/
def silent (a : Attempt) (i : Nat) : Bool :=
  match a.outcome i with
  | .blackholed => true
  | _ => false

theorem grants_answer (granted : a.grants i = true) (outcome : a.outcome i = .replied ran took) :
    ∃ answer, a.answer i ran = .ok answer := by
  cases answered : a.answer i ran with
  | ok answer => exact ⟨answer, rfl⟩
  | error fault => simp [grants, outcome, answered] at granted

/-- The round ends at the first member that refuses, and at the first silent one
whose slice outlasts the response timeout. -/
theorem Behaves.errs_iff (member : a.Behaves i) : a.errs i = false ↔
    a.refusing i = false ∧ (slice a.ttlMs ≤ responseTimeout ∨ a.silent i = false) := by
  cases member with
  | grants outcome granted =>
    obtain ⟨answer, answered⟩ := grants_answer granted outcome
    simp [errs, refusing, silent, outcome, answered]
  | held outcome denied => simp [errs, refusing, silent, outcome, denied]
  | refuses outcome => simp [errs, refusing, outcome]
  | blackholed outcome => simp [errs, refusing, silent, outcome]

theorem Behaves.cost_eq (member : a.Behaves i) (fine : a.errs i = false) :
    a.cost i = if a.silent i then slice a.ttlMs else 0 := by
  have patient := member.errs_iff.mp fine
  cases member with
  | grants outcome => simp [cost, silent, outcome]
  | held outcome => simp [cost, silent, outcome]
  | refuses outcome => simp [refusing, outcome] at patient
  | blackholed outcome => simpa [cost, silent, outcome] using patient.2

theorem cost_sum {indices : List Nat}
    (each : ∀ i ∈ indices, a.cost i = if a.silent i then slice a.ttlMs else 0) :
    (indices.map a.cost).sum = indices.countP a.silent * slice a.ttlMs := by
  induction indices with
  | nil => simp
  | cons i rest ih =>
    have tail := ih fun j member => each j (List.mem_cons_of_mem _ member)
    have head := each i (by simp)
    rw [List.map_cons, List.sum_cons, tail, head, List.countP_cons]
    split
    · rw [Nat.add_mul, Nat.one_mul, Nat.add_comm]
    · simp

/-- The round returns a handle exactly when no member refuses the connection, no
silent one outlasts the response timeout, and the slices of the silent ones stay
below nine tenths of the lease. -/
theorem minority_failure_tolerated_iff (minority : a.MinorityFailure n) :
    (∃ handle round, a.tryLock n = (.ok handle, round)) ↔
      (∀ i < n, a.refusing i = false) ∧
      (slice a.ttlMs ≤ responseTimeout ∨ ∀ i < n, a.silent i = false) ∧
      (List.range n).countP a.silent * slice a.ttlMs * 10 ^ 6 * 10 < a.ttl.nanos * 9 := by
  have passes : (∀ i < n, a.errs i = false) ↔ (∀ i < n, a.refusing i = false) ∧
      (slice a.ttlMs ≤ responseTimeout ∨ ∀ i < n, a.silent i = false) := by
    rw [forall₂_congr fun i inside => (minority.members i inside).errs_iff, forall₂_and]
    by_cases short : slice a.ttlMs ≤ responseTimeout <;> simp [short]
  have budget (fine : ∀ i < n, a.errs i = false) : a.Quorate n ↔
      (List.range n).countP a.silent * slice a.ttlMs * 10 ^ 6 * 10 < a.ttl.nanos * 9 := by
    have spent : ((List.range n).map a.cost).sum = _ := cost_sum fun i member =>
      (minority.members i (List.mem_range.mp member)).cost_eq (fine i (List.mem_range.mp member))
    simp [Quorate, elapsedOk, spent, minority.majority]
  rw [← and_assoc, ← passes]
  rcases a.tryLock_cases n minority.valid with ⟨⟨bad, inside, err⟩, error, failed⟩ |
    ⟨fine, short, failed⟩ | ⟨fine, quorate, ended⟩
  · refine iff_of_false (by simp [failed]) ?_
    rintro ⟨fine, _⟩
    simp [fine bad inside] at err
  · refine iff_of_false (by simp [failed]) ?_
    rintro ⟨_, inTime⟩
    exact short ((budget fine).mpr inTime)
  · refine iff_of_true ?_ ⟨fine, (budget fine).mp quorate⟩
    rcases a.allocateFence_cases (a.visitedAll a.start (List.range n))
      (by simp only [visitedAll, if_pos (first_of_majority quorate.1)]) with ⟨_, fence, after, served⟩ | ⟨unserved, _⟩
    · rw [ended, served]
      exact ⟨_, _, rfl⟩
    · exact absurd minority.serves unserved

/-- Three free nodes, the last of them blackholed, and the given lease. -/
def oneSilent (ttl : Duration) : Attempt where
  key := "orders"
  token := "t"
  ttl := ttl
  nodes _ := fun _ => none
  outcome i := if i = 2 then .blackholed else .replied 0 0
  allocator := .ok 0
  undo _ := 0

theorem oneSilent_minority {ttl : Duration} (valid : LockOptions.validate ⟨ttl⟩ = .ok ())
    (first : (oneSilent ttl).grants 0 = true) (second : (oneSilent ttl).grants 1 = true)
    (served : (oneSilent ttl).Serves) : (oneSilent ttl).MinorityFailure 3 := by
  refine ⟨valid, ?_, first, ?_, served⟩
  · intro i inside
    match i with
    | 0 => exact .grants rfl first
    | 1 => exact .grants rfl second
    | 2 => exact .blackholed rfl
    | _ + 3 => omega
  · simp [List.range_succ, List.filter_cons, first, second, quorum]

/-- A lease of one second affords the slice of one silent member. -/
theorem oneSilent_tolerated : ∃ handle round,
    (oneSilent (.fromMillis 1000)).tryLock 3 = (.ok handle, round) :=
  (minority_failure_tolerated_iff (oneSilent_minority rfl (by decide) (by decide)
    ⟨0, 1, rfl, by decide⟩)).mpr ⟨by decide, .inl (by decide), by decide⟩

/-- A lease of ten seconds does not: its slice outlasts the response timeout. -/
example : ((oneSilent (.fromMillis 10000)).tryLock 3).1 = .error (.backend "redlock node 2: timed out") := rfl

/-- Nor does a lease of 100 ms: the slice is never below 100 ms. -/
theorem oneSilent_not_tolerated : ¬ ∀ (a : Attempt) (n : Nat), 3 ≤ n → a.MinorityFailure n →
    ∃ handle round, a.tryLock n = (.ok handle, round) := by
  intro always
  have minority : (oneSilent (.fromMillis 100)).MinorityFailure 3 :=
    oneSilent_minority rfl (by decide) (by decide) ⟨0, 1, rfl, by decide⟩
  obtain ⟨handle, round, granted⟩ := always _ 3 le_rfl minority
  have denied : ((oneSilent (.fromMillis 100)).tryLock 3).1 = .error (.held "orders") := rfl
  rw [granted] at denied
  contradiction

end Palisade.Redlock.Attempt
