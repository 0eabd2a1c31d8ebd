import Palisade.Redlock.TryLock

/-! What a failed round leaves on the nodes, once every request it sent has
been executed. -/
namespace Palisade.Redlock.Attempt
open Redis Single
variable {a : Attempt} {n instant : Nat}

/-- If the call fails, no node stores its token at `instant`. -/
def LeavesNothing (a : Attempt) (n instant : Nat) : Prop :=
  ∀ error round, a.tryLock n = (.error error, round) →
    ∀ i < n, holder a.key (a.settle round i) instant ≠ some a.token

/-- The acquire script takes the key of node `i`: it is free when the script runs. -/
def Takes (a : Attempt) (i ran : Nat) : Prop :=
  a.ttlMs ≠ 0 ∧ (a.nodes i).lookup ran a.key = none

/-- The allocator's counter can be reached and incremented. -/
def Serves (a : Attempt) : Prop :=
  ∃ ran value, a.allocator = .ok ran ∧
    ((Script.incr allocatorKey).exec ran (a.visited 0)).1 = .ok value

/-- The round ends in the rollback: no node errs, and the quorum or the time is missing. -/
def RollsBack (a : Attempt) (n : Nat) : Prop :=
  (∀ i < n, a.errs i = false) ∧ ¬ a.Quorate n

/-- The options are refused, the round succeeds, or every contacted node whose
key the script took is covered by the rollback, unless its lease is over. -/
def Clean (a : Attempt) (n instant : Nat) : Prop :=
  LockOptions.validate ⟨a.ttl⟩ ≠ .ok () ∨
  ((∀ i < n, a.errs i = false) ∧ a.Quorate n ∧ a.Serves) ∨
  ∀ i ∈ a.contacted (List.range n), ∀ ran, a.ranAt i = some ran → a.Takes i ran →
    ran + a.ttlMs ≤ instant ∨ a.RollsBack n ∧ a.grants i = true

/-- The token is new, and all requests of the round have run by `instant`. -/
structure Executed (a : Attempt) (n instant : Nat) : Prop where
  fresh : ∀ i < n, ∀ stop, a.nodes i a.key ≠ some ⟨.string (.raw a.token), stop⟩
  acquires : ∀ i < n, ∀ ran, a.ranAt i = some ran → ran ≤ instant
  releases : ∀ i < n, a.undo i ≤ instant

theorem contacted_nodup (a : Attempt) {indices : List Nat} (nodup : indices.Nodup) :
    (a.contacted indices).Nodup := by
  induction indices with
  | nil => exact nodup
  | cons i rest ih =>
    obtain ⟨notLater, nodup⟩ := List.nodup_cons.mp nodup
    rw [contacted]
    split
    · exact List.nodup_singleton i
    · exact List.nodup_cons.mpr ⟨fun member => notLater (a.contacted_subset rest member), ih nodup⟩

theorem holder_nodes (executed : a.Executed n instant) (inside : i < n) :
    holder a.key (a.nodes i) instant ≠ some a.token := by
  intro held
  obtain ⟨stop, found⟩ := holder_eq_some.mp held
  exact executed.fresh i inside stop (Keyspace.lookup_eq_some.mp found).1

theorem holder_ranOn (executed : a.Executed n instant) (inside : i < n) :
    holder a.key (a.ranOn i) instant = some a.token ↔
      ∃ ran, a.ranAt i = some ran ∧ a.Takes i ran ∧ instant < ran + a.ttlMs := by
  unfold ranOn
  cases sent : a.ranAt i with
  | none => simpa using holder_nodes executed inside
  | some ran =>
    simp only [Option.some.injEq, exists_eq_left']
    exact holder_acquire (fenceKeyFor_ne a.key).symm (executed.acquires i inside ran sent)
      (executed.fresh i inside)

/-- Without a rollback, a contacted node is left as its own request makes it. -/
theorem settle_visited (a : Attempt) {indices : List Nat} (nodup : indices.Nodup) (j : Nat) :
    a.settle (a.visitedAll a.start indices) j = if j ∈ indices then a.ranOn j else a.nodes j := by
  rw [a.settle_spec nodup (by simp [visitedAll, start])]
  by_cases member : j ∈ indices <;> cases outcome : a.outcome j <;>
    simp [visitedAll, start, visited, ranOn, ranAt, outcome, member]

theorem settle_rolledBack (a : Attempt) {indices : List Nat} (nodup : indices.Nodup) (j : Nat) :
    a.settle { a.visitedAll a.start indices with
        nodes := (indices.filter a.grants).foldl a.releaseNode (a.visitedAll a.start indices).nodes } j =
      if j ∈ indices then
        if a.grants j then ((release a.key a.token).exec (a.undo j) (a.ranOn j)).2 else a.ranOn j
      else a.nodes j := by
  rw [a.settle_spec nodup (by simp [visitedAll, start])]
  have undone : (indices.filter a.grants).foldl a.releaseNode (a.visitedAll a.start indices).nodes j =
      if j ∈ indices ∧ a.grants j = true then
        ((release a.key a.token).exec (a.undo j) (a.visited j)).2
      else (a.visitedAll a.start indices).nodes j := by
    have folded := foldl_update (f := fun i db => ((release a.key a.token).exec (a.undo i) db).2)
      (nodup.filter a.grants) (a.visitedAll a.start indices).nodes j
    simp only [List.mem_filter] at folded
    apply folded.trans
    by_cases covered : j ∈ indices ∧ a.grants j = true
    · rw [if_pos covered, if_pos covered]
      simp [visitedAll, covered.1]
    · rw [if_neg covered, if_neg covered]
  simp only [undone]
  by_cases member : j ∈ indices <;> by_cases granted : a.grants j = true <;>
    cases outcome : a.outcome j <;>
    simp_all [visitedAll, start, visited, ranOn, ranAt, grants]

theorem incr_fault {key : String} {db : Keyspace} {fault : Fault} {after : Keyspace}
    (ran : (Script.incr key).exec now db = (.error fault, after)) : after = db := by
  simp only [Script.incr, Script.exec_bind, Script.exec_read] at ran
  split at ran <;> simp_all

/-- A round that fails at the allocator leaves the nodes as it visited them. -/
theorem allocateFence_cases (a : Attempt) (round : Round) (visited : round.nodes 0 = a.visited 0) :
    (a.Serves ∧ ∃ fence after, a.allocateFence round = (.ok fence, after)) ∨
    (¬ a.Serves ∧ ∃ error, a.allocateFence round = (.error error, round)) := by
  cases reached : a.allocator with
  | error message =>
    refine .inr ⟨?_, ?_⟩
    · rintro ⟨ran, value, answered, _⟩
      simp [reached] at answered
    · simp only [allocateFence, reached]
      exact ⟨_, rfl⟩
  | ok ran =>
    rcases executed : (Script.incr allocatorKey).exec ran (a.visited 0) with ⟨reply, db⟩
    cases reply with
    | ok value =>
      refine .inl ⟨⟨ran, value, reached, by rw [executed]⟩, ?_⟩
      simp only [allocateFence, reached, visited, executed]
      exact ⟨_, _, rfl⟩
    | error fault =>
      refine .inr ⟨?_, ?_⟩
      · rintro ⟨_, value, answered, served⟩
        cases reached.symm.trans answered
        simp [executed] at served
      · have same : Function.update round.nodes 0 db = round.nodes := by
          rw [incr_fault executed, ← visited, Function.update_eq_self]
        simp only [allocateFence, reached, visited, executed, same]
        exact ⟨_, rfl⟩

theorem leavesNothing_of_error {error : Error} {round : Round}
    (failed : a.tryLock n = (.error error, round)) : a.LeavesNothing n instant ↔
      ∀ i < n, holder a.key (a.settle round i) instant ≠ some a.token := by
  constructor
  · exact fun leaves => leaves error round failed
  · intro leaves other after same
    rw [failed] at same
    cases same
    exact leaves

/-- A round without a rollback is clean when every lease it took is over. -/
theorem unreleased_iff (executed : a.Executed n instant) (kept : ¬ a.RollsBack n)
    {indices : List Nat} (inside : ∀ i ∈ indices, i < n) :
    (∀ i < n, holder a.key (if i ∈ indices then a.ranOn i else a.nodes i) instant ≠ some a.token) ↔
    ∀ i ∈ indices, ∀ ran, a.ranAt i = some ran → a.Takes i ran →
      ran + a.ttlMs ≤ instant ∨ a.RollsBack n ∧ a.grants i = true := by
  constructor
  · intro leaves i member ran sent takes
    have unheld := leaves i (inside i member)
    rw [if_pos member, Ne, holder_ranOn executed (inside i member)] at unheld
    exact .inl (Nat.le_of_not_lt fun running => unheld ⟨ran, sent, takes, running⟩)
  · intro covered i bound
    by_cases member : i ∈ indices
    · rw [if_pos member, Ne, holder_ranOn executed bound]
      rintro ⟨ran, sent, takes, running⟩
      rcases covered i member ran sent takes with elapsed | rolled
      · omega
      · exact kept rolled.1
    · rw [if_neg member]
      exact holder_nodes executed bound

theorem rolledBack_iff (executed : a.Executed n instant) (rolled : a.RollsBack n) :
    (∀ i < n, holder a.key
      (if a.grants i then ((release a.key a.token).exec (a.undo i) (a.ranOn i)).2 else a.ranOn i)
      instant ≠ some a.token) ↔
    ∀ i < n, ∀ ran, a.ranAt i = some ran → a.Takes i ran →
      ran + a.ttlMs ≤ instant ∨ a.RollsBack n ∧ a.grants i = true := by
  refine forall₂_congr fun i inside => ?_
  by_cases granted : a.grants i = true
  · rw [if_pos granted]
    exact iff_of_true (holder_release (executed.releases i inside))
      fun _ _ _ => .inr ⟨rolled, granted⟩
  · rw [if_neg granted, Ne, holder_ranOn executed inside]
    constructor
    · intro unheld ran sent takes
      exact .inl (Nat.le_of_not_lt fun running => unheld ⟨ran, sent, takes, running⟩)
    · rintro covered ⟨ran, sent, takes, running⟩
      rcases covered ran sent takes with elapsed | ⟨_, grants⟩
      · omega
      · exact granted grants

/-- A failed call leaves its token on no node exactly when the round is clean:
an error at a node, an unreachable allocator and a grant whose answer came late
each leave behind whatever was taken. -/
theorem failed_leaves_nothing_iff (executed : a.Executed n instant) :
    a.LeavesNothing n instant ↔ a.Clean n instant := by
  have range := List.nodup_range (n := n)
  unfold Clean
  by_cases valid : LockOptions.validate ⟨a.ttl⟩ = .ok ()
  · simp only [valid, ne_eq, not_true, false_or]
    rcases a.tryLock_cases n valid with ⟨⟨bad, inside, errs⟩, error, failed⟩ |
      ⟨fine, short, failed⟩ | ⟨fine, quorate, ended⟩
    · have unfine : ¬ ∀ i < n, a.errs i = false := fun fine => by simp [fine bad inside] at errs
      have inRange (i : Nat) (member : i ∈ a.contacted (List.range n)) : i < n :=
        List.mem_range.mp (a.contacted_subset _ member)
      rw [leavesNothing_of_error failed, or_iff_right fun succeeds => unfine succeeds.1,
        ← unreleased_iff executed (fun rolled => unfine rolled.1) inRange]
      simp only [a.settle_visited (a.contacted_nodup range)]
    · rw [leavesNothing_of_error failed, or_iff_right fun succeeds => short succeeds.2.1,
        a.contacted_all (by simpa using fine)]
      simp only [a.settle_rolledBack range, List.mem_range]
      rw [← rolledBack_iff executed ⟨fine, short⟩]
      refine forall₂_congr fun i inside => ?_
      rw [if_pos inside]
    · rcases a.allocateFence_cases (a.visitedAll a.start (List.range n))
        (by simp only [visitedAll, if_pos (first_of_majority quorate.1)]) with ⟨serves, fence, after, served⟩ |
        ⟨unserved, error, refused⟩
      · refine iff_of_true ?_ (.inl ⟨fine, quorate, serves⟩)
        intro error round failed
        rw [ended, served] at failed
        simp at failed
      · rw [refused] at ended
        rw [leavesNothing_of_error ended, or_iff_right fun succeeds => unserved succeeds.2.2,
          a.contacted_all (by simpa using fine),
          ← unreleased_iff executed (fun rolled => rolled.2 quorate) fun _ => List.mem_range.mp]
        simp only [a.settle_visited range]
  · refine iff_of_true ?_ (.inl valid)
    intro error round failed i inside
    cases refused : LockOptions.validate ⟨a.ttl⟩ with
    | ok => exact absurd refused valid
    | error reason =>
      simp only [tryLock, refused, Prod.mk.injEq] at failed
      rw [← failed.2]
      exact holder_nodes executed inside

/-- A ring where a majority is held by `x` and node 0 is free. -/
def contended : Attempt where
  key := "orders"
  token := "t"
  ttl := .fromMillis 1000
  nodes i := if i = 0 then fun _ => none else
    Keyspace.put (fun _ => none) "orders" ⟨.string (.raw "x"), some 500⟩
  outcome _ := .replied 0 0
  allocator := .ok 0
  undo _ := 0

theorem contended_leaves_nothing : contended.LeavesNothing 3 0 := by
  have executed : contended.Executed 3 0 := by
    refine ⟨?_, ?_, fun _ _ => le_rfl⟩
    · intro i _ stop
      by_cases first : i = 0
      · simp [contended, first]
      · simp [contended, first]
    · intro i _ ran sent
      cases sent
      exact le_rfl
  refine (failed_leaves_nothing_iff executed).mpr (.inr (.inr ?_))
  intro i member ran sent takes
  cases sent
  have free := takes.2
  have rolls : contended.RollsBack 3 := ⟨by decide, by decide⟩
  by_cases first : i = 0
  · subst first
    exact .inr ⟨rolls, by decide⟩
  · simp [contended, first] at free

/-- Three free nodes: the first grants, the connection to the second is refused. -/
def refused : Attempt where
  key := "orders"
  token := "t"
  ttl := .fromMillis 1000
  nodes _ := fun _ => none
  outcome i := if i = 1 then .failed 0 "connection refused" else .replied 0 0
  allocator := .ok 0
  undo _ := 0

/-- The call fails at node 1 and node 0 keeps the token. -/
theorem refused_leaves_token :
    ¬ ∀ (a : Attempt) (n instant : Nat), 3 ≤ n → a.Executed n instant → a.LeavesNothing n instant := by
  intro always
  have executed : refused.Executed 3 0 := by
    refine ⟨by simp [refused], ?_, fun _ _ => le_rfl⟩
    intro i _ ran sent
    by_cases second : i = 1
    · simp [refused, ranAt, second] at sent
    · simp only [refused, ranAt, if_neg second, Option.some.injEq] at sent
      omega
  have left := always refused 3 0 le_rfl executed _ _ rfl 0 (by decide)
  exact left (by decide)

end Palisade.Redlock.Attempt
