import Mathlib.Algebra.GroupWithZero.Nat
import Palisade.Single.Scripts

/-! One acquisition round of the quorum lock, as `RedlockManager::try_lock`
computes it from what its nodes do. Each node is an independent instance; the
round visits them one after the other. -/
namespace Palisade.Redlock
open Redis Single

/-- Grants needed out of `n` nodes. -/
def quorum (n : Nat) : Nat := n / 2 + 1

/-- The well-known counter on node 0 that all fences come from. -/
def allocatorKey : String := "__palisade__:fence-allocator"

/-- Per-node bound of a round, in milliseconds. -/
def slice (ttlMs : Nat) : Nat := max (ttlMs / 4) 100

/-- How long a connection waits for a response, in milliseconds: `connect` keeps the
default of the client library. -/
def responseTimeout : Nat := 500

/-- The round took less than nine tenths of the lease. The source compares the
two durations as floating-point seconds; here the comparison is exact. -/
def elapsedOk (elapsedMs : Nat) (ttl : Duration) : Bool :=
  decide (elapsedMs * 10 ^ 6 * 10 < ttl.nanos * 9)

/-- What becomes of the acquire request sent to one node. Instants are those of
the node's clock; `took` is how long the caller waited. -/
inductive Outcome where
  /-- The script ran and its answer, a status or an error, came in time. -/
  | replied (ran took : Nat)
  /-- The connection failed and the script did not run. -/
  | failed (took : Nat) (message : String)
  /-- The script ran, but the caller gave up before its answer came. -/
  | late (ran : Nat)
  /-- The request was lost, and the caller gave up. -/
  | blackholed
  deriving DecidableEq

structure Handle where
  key : String
  token : String
  fence : FencingToken
  ttl : Duration
  deriving DecidableEq

/-- The locals of the round: the nodes it acts on, the nodes it acquired, the
time it has taken and the requests it stopped waiting for. -/
structure Round where
  nodes : Nat → Keyspace
  acquired : List Nat
  elapsed : Nat
  inFlight : List (Nat × Nat)

/-- A request of one call: what it acquires and how its nodes behave. -/
structure Attempt where
  key : String
  token : String
  ttl : Duration
  nodes : Nat → Keyspace
  outcome : Nat → Outcome
  /-- When the allocator's `INCR` runs, or why it cannot be reached. -/
  allocator : Except String Nat
  /-- When the rollback release of a node runs. -/
  undo : Nat → Nat

namespace Attempt

def ttlMs (a : Attempt) : Nat := a.ttl.asMillisU64

/-- The acquire script as sent to every node; `ttl_ms * 10` is a `u64`. -/
def acquireScript (a : Attempt) : Script (Nat × Int) :=
  acquire a.key (fenceKeyFor a.key) a.token a.ttlMs (a.ttlMs * 10 % 2 ^ 64)

/-- Nobody answers: the slice elapses, which counts as a failed node, unless it is longer than the
response timeout, whose error comes first. -/
def giveUp (a : Attempt) (i : Nat) (round : Round) : Except Error Unit × Round :=
  if responseTimeout < slice a.ttlMs then
    (.error (.backend s!"redlock node {i}: timed out"), { round with elapsed := round.elapsed + responseTimeout })
  else (.ok (), { round with elapsed := round.elapsed + slice a.ttlMs })

/-- The body of the loop over the ring. -/
def visit (a : Attempt) (i : Nat) (round : Round) : Except Error Unit × Round :=
  match a.outcome i with
  | .replied ran took =>
    let (reply, db) := a.acquireScript.exec ran (round.nodes i)
    let round := { round with
      nodes := Function.update round.nodes i db
      elapsed := round.elapsed + took }
    match reply with
    | .ok (1, _) | .ok (2, _) => (.ok (), { round with acquired := round.acquired ++ [i] })
    | .ok _ => (.ok (), round)
    | .error fault => (.error (.backend s!"redlock node {i}: {fault.text}"), round)
  | .failed took message =>
    (.error (.backend s!"redlock node {i}: {message}"), { round with elapsed := round.elapsed + took })
  | .late ran => a.giveUp i { round with inFlight := round.inFlight ++ [(i, ran)] }
  | .blackholed => a.giveUp i round

/-- The loop returns at the first error, without a rollback. -/
def acquireLoop (a : Attempt) : List Nat → Round → Except Error Unit × Round
  | [], round => (.ok (), round)
  | i :: rest, round =>
    match a.visit i round with
    | (.ok (), round) => a.acquireLoop rest round
    | (.error error, round) => (.error error, round)

/-- `INCR` on the allocator node. -/
def allocateFence (a : Attempt) (round : Round) : Except Error FencingToken × Round :=
  match a.allocator with
  | .error message => (.error (.backend s!"fence allocation failed: {message}"), round)
  | .ok ran =>
    let (reply, db) := (Script.incr allocatorKey).exec ran (round.nodes 0)
    let round := { round with nodes := Function.update round.nodes 0 db }
    match reply with
    | .ok value => (.ok ⟨value.toNat⟩, round)
    | .error fault => (.error (.backend s!"fence allocation failed: {fault.text}"), round)

def releaseNode (a : Attempt) (nodes : Nat → Keyspace) (i : Nat) : Nat → Keyspace :=
  Function.update nodes i ((release a.key a.token).exec (a.undo i) (nodes i)).2

def start (a : Attempt) : Round := ⟨a.nodes, [], 0, []⟩

/-- `RedlockManager::try_lock` over `n` nodes. -/
def tryLock (a : Attempt) (n : Nat) : Except Error Handle × Round :=
  match LockOptions.validate ⟨a.ttl⟩ with
  | .error error => (.error error, a.start)
  | .ok () =>
    match a.acquireLoop (List.range n) a.start with
    | (.error error, round) => (.error error, round)
    | (.ok (), round) =>
      if quorum n ≤ round.acquired.length ∧ elapsedOk round.elapsed a.ttl = true then
        match a.allocateFence round with
        | (.ok fence, round) => (.ok ⟨a.key, a.token, fence, a.ttl⟩, round)
        | (.error error, round) => (.error error, round)
      else
        (.error (.held a.key), { round with nodes := round.acquired.foldl a.releaseNode round.nodes })

/-- The nodes once the requests the round gave up on have run as well. -/
def settle (a : Attempt) (round : Round) : Nat → Keyspace :=
  round.inFlight.foldl (fun nodes (i, ran) =>
    Function.update nodes i (a.acquireScript.exec ran (nodes i)).2) round.nodes

/-! The round in terms of its inputs alone: nodes do not interact, so each is
described by its own outcome and its own store. -/

/-- The answer node `i` gives when its script runs at `ran`. -/
def answer (a : Attempt) (i ran : Nat) : Except Fault (Nat × Int) :=
  (a.acquireScript.exec ran (a.nodes i)).1

/-- The round ends at node `i` with an error. -/
def errs (a : Attempt) (i : Nat) : Bool :=
  match a.outcome i with
  | .replied ran _ => match a.answer i ran with
    | .ok _ => false
    | .error _ => true
  | .failed _ _ => true
  | .late _ | .blackholed => decide (responseTimeout < slice a.ttlMs)

/-- Node `i` grants and the caller learns of it in time. -/
def grants (a : Attempt) (i : Nat) : Bool :=
  match a.outcome i with
  | .replied ran _ => match a.answer i ran with
    | .ok (1, _) | .ok (2, _) => true
    | _ => false
  | _ => false

def cost (a : Attempt) (i : Nat) : Nat :=
  match a.outcome i with
  | .replied _ took | .failed took _ => took
  | .late _ | .blackholed => min (slice a.ttlMs) responseTimeout

/-- The request to node `i` that the round gives up on. -/
def pending (a : Attempt) (i : Nat) : List (Nat × Nat) :=
  match a.outcome i with
  | .late ran => [(i, ran)]
  | _ => []

/-- Node `i` after the round's visit. -/
def visited (a : Attempt) (i : Nat) : Keyspace :=
  match a.outcome i with
  | .replied ran _ => (a.acquireScript.exec ran (a.nodes i)).2
  | _ => a.nodes i

/-- The nodes a loop contacts: up to and including the first that errs. -/
def contacted (a : Attempt) : List Nat → List Nat
  | [] => []
  | i :: rest => i :: if a.errs i then [] else a.contacted rest

/-- The round after visiting the given nodes. -/
def visitedAll (a : Attempt) (round : Round) (indices : List Nat) : Round where
  nodes i := if i ∈ indices then a.visited i else round.nodes i
  acquired := round.acquired ++ indices.filter a.grants
  elapsed := round.elapsed + (indices.map a.cost).sum
  inFlight := round.inFlight ++ indices.flatMap a.pending

theorem visitedAll_single (a : Attempt) (round : Round) (i : Nat) : a.visitedAll round [i] =
    ⟨Function.update round.nodes i (a.visited i), round.acquired ++ [i].filter a.grants,
      round.elapsed + a.cost i, round.inFlight ++ a.pending i⟩ := by
  have nodes : (fun j => if j ∈ [i] then a.visited j else round.nodes j) =
      Function.update round.nodes i (a.visited i) := by
    funext j
    by_cases here : j = i
    · subst here
      simp
    · simp [here]
  simp only [visitedAll, nodes]
  simp

theorem visitedAll_cons (a : Attempt) (round : Round) (i : Nat) (rest : List Nat) :
    a.visitedAll (a.visitedAll round [i]) rest = a.visitedAll round (i :: rest) := by
  have nodes : (fun j => if j ∈ rest then a.visited j else
      if j ∈ [i] then a.visited j else round.nodes j) =
      fun j => if j ∈ i :: rest then a.visited j else round.nodes j := by
    funext j
    by_cases here : j = i <;> by_cases later : j ∈ rest <;> simp [here, later]
  simp only [visitedAll, nodes, Round.mk.injEq, true_and]
  refine ⟨?_, ?_, ?_⟩
  · by_cases granted : a.grants i = true <;> simp [granted]
  · simp [Nat.add_assoc]
  · simp

theorem giveUp_spec (a : Attempt) (i : Nat) (round : Round) : ∃ result,
    a.giveUp i round = (result, { round with elapsed := round.elapsed + min (slice a.ttlMs) responseTimeout }) ∧
      (result = .ok () ↔ decide (responseTimeout < slice a.ttlMs) = false) := by
  unfold giveUp
  split
  · next longer =>
    rw [min_eq_right longer.le]
    exact ⟨_, rfl, by simp [longer]⟩
  · next shorter =>
    rw [min_eq_left (Nat.le_of_not_lt shorter)]
    exact ⟨_, rfl, by simp [shorter]⟩

theorem visit_spec (a : Attempt) {round : Round} {i : Nat} (untouched : round.nodes i = a.nodes i) :
    ∃ result, a.visit i round = (result, a.visitedAll round [i]) ∧
      (result = .ok () ↔ a.errs i = false) := by
  have same : Function.update round.nodes i (a.nodes i) = round.nodes := by
    rw [← untouched, Function.update_eq_self]
  rw [visitedAll_single]
  cases outcome : a.outcome i with
  | replied ran took =>
    rcases ran : a.acquireScript.exec ran (a.nodes i) with ⟨reply, db⟩
    match reply with
    | .ok (0, fence) | .ok (1, fence) | .ok (2, fence) | .ok (status + 3, fence) | .error fault =>
      simp [visit, visited, errs, grants, cost, pending, answer, outcome, untouched, ran]
  | failed took message => simp [visit, visited, errs, grants, cost, pending, outcome, same]
  | late ran =>
    obtain ⟨result, ended, fine⟩ := a.giveUp_spec i { round with inFlight := round.inFlight ++ [(i, ran)] }
    refine ⟨result, ?_, by simpa only [errs, outcome] using fine⟩
    simp [visit, visited, grants, cost, pending, outcome, same, ended]
  | blackholed =>
    obtain ⟨result, ended, fine⟩ := a.giveUp_spec i round
    refine ⟨result, ?_, by simpa only [errs, outcome] using fine⟩
    simp [visit, visited, grants, cost, pending, outcome, same, ended]

theorem contacted_subset (a : Attempt) (indices : List Nat) : a.contacted indices ⊆ indices := by
  induction indices with
  | nil => exact List.Subset.refl _
  | cons i rest ih =>
    rw [contacted]
    split
    · simp
    · exact List.cons_subset_cons _ ih

/-- The loop in closed form: it contacts nodes up to the first that errs, and
succeeds when none does. -/
theorem acquireLoop_spec (a : Attempt) {indices : List Nat} (nodup : indices.Nodup) {round : Round}
    (untouched : ∀ i ∈ indices, round.nodes i = a.nodes i) :
    ∃ result, a.acquireLoop indices round = (result, a.visitedAll round (a.contacted indices)) ∧
      (result = .ok () ↔ ∀ i ∈ indices, a.errs i = false) := by
  induction indices generalizing round with
  | nil => exact ⟨.ok (), by simp [acquireLoop, contacted, visitedAll], by simp⟩
  | cons i rest ih =>
    obtain ⟨notLater, nodup⟩ := List.nodup_cons.mp nodup
    obtain ⟨first, ran, ended⟩ := a.visit_spec (untouched i (by simp))
    rw [acquireLoop, ran, contacted]
    cases first with
    | error error =>
      have err : a.errs i = true := by simpa using ended
      exact ⟨.error error, by simp [err], by simp [err]⟩
    | ok =>
      have fine : a.errs i = false := ended.mp rfl
      have others : ∀ j ∈ rest, (a.visitedAll round [i]).nodes j = a.nodes j := by
        intro j member
        have other : j ≠ i := fun same => notLater (same ▸ member)
        simp [visitedAll, other, untouched j (List.mem_cons_of_mem _ member)]
      obtain ⟨result, looped, outcome⟩ := ih nodup others
      refine ⟨result, ?_, ?_⟩
      · simp only [looped, fine, Bool.false_eq_true, if_false, visitedAll_cons]
      · simpa [fine] using outcome

theorem contacted_all (a : Attempt) {indices : List Nat} (fine : ∀ i ∈ indices, a.errs i = false) :
    a.contacted indices = indices := by
  induction indices with
  | nil => rfl
  | cons i rest ih =>
    rw [contacted, fine i (by simp), ih fun j member => fine j (List.mem_cons_of_mem _ member)]
    simp

/-- Enough nodes grant and the visits stay within the budget. -/
def Quorate (a : Attempt) (n : Nat) : Prop :=
  quorum n ≤ ((List.range n).filter a.grants).length ∧
    elapsedOk ((List.range n).map a.cost).sum a.ttl = true

instance (a : Attempt) (n : Nat) : Decidable (a.Quorate n) := inferInstanceAs (Decidable (_ ∧ _))

theorem first_of_majority {a : Attempt} {n : Nat}
    (majority : quorum n ≤ ((List.range n).filter a.grants).length) : 0 ∈ List.range n := by
  have grants := List.length_filter_le a.grants (List.range n)
  simp only [quorum, List.length_range] at grants majority
  exact List.mem_range.mpr (by omega)

/-- The exits of a round with valid options: an error at some node, the
rollback, and the allocation. -/
theorem tryLock_cases (a : Attempt) (n : Nat) (valid : LockOptions.validate ⟨a.ttl⟩ = .ok ()) :
    ((∃ i < n, a.errs i = true) ∧
      ∃ error, a.tryLock n = (.error error, a.visitedAll a.start (a.contacted (List.range n)))) ∨
    ((∀ i < n, a.errs i = false) ∧ ¬ a.Quorate n ∧
      a.tryLock n = (.error (.held a.key), { a.visitedAll a.start (List.range n) with
        nodes := ((List.range n).filter a.grants).foldl a.releaseNode
          (a.visitedAll a.start (List.range n)).nodes })) ∨
    ((∀ i < n, a.errs i = false) ∧ a.Quorate n ∧
      a.tryLock n = match a.allocateFence (a.visitedAll a.start (List.range n)) with
        | (.ok fence, round) => (.ok ⟨a.key, a.token, fence, a.ttl⟩, round)
        | (.error error, round) => (.error error, round)) := by
  obtain ⟨result, looped, ended⟩ := a.acquireLoop_spec (List.nodup_range (n := n))
    (show ∀ i ∈ List.range n, a.start.nodes i = a.nodes i from fun _ _ => rfl)
  simp only [List.mem_range] at ended
  cases result with
  | error error =>
    refine .inl ⟨?_, error, by simp only [tryLock, valid, looped]⟩
    simpa using ended
  | ok =>
    have fine := ended.mp rfl
    rw [a.contacted_all (by simpa using fine)] at looped
    have acquired : (a.visitedAll a.start (List.range n)).acquired = (List.range n).filter a.grants := by
      simp [visitedAll, start]
    have elapsed : (a.visitedAll a.start (List.range n)).elapsed = ((List.range n).map a.cost).sum := by
      simp [visitedAll, start]
    by_cases quorate : a.Quorate n
    · refine .inr (.inr ⟨fine, quorate, ?_⟩)
      simp only [tryLock, valid, looped, acquired, elapsed]
      exact if_pos quorate
    · refine .inr (.inl ⟨fine, quorate, ?_⟩)
      simp only [tryLock, valid, looped, acquired, elapsed]
      exact if_neg quorate

/-- When the acquire script runs on node `i`, if it does at all. -/
def ranAt (a : Attempt) (i : Nat) : Option Nat :=
  match a.outcome i with
  | .replied ran _ | .late ran => some ran
  | .failed _ _ | .blackholed => none

/-- Node `i` once its acquire request has run or is known not to. -/
def ranOn (a : Attempt) (i : Nat) : Keyspace :=
  match a.ranAt i with
  | some ran => (a.acquireScript.exec ran (a.nodes i)).2
  | none => a.nodes i

theorem foldl_update {f : Nat → Keyspace → Keyspace} {indices : List Nat} (nodup : indices.Nodup)
    (nodes : Nat → Keyspace) (j : Nat) :
    indices.foldl (fun nodes i => Function.update nodes i (f i (nodes i))) nodes j =
      if j ∈ indices then f j (nodes j) else nodes j := by
  induction indices generalizing nodes with
  | nil => simp
  | cons i rest ih =>
    obtain ⟨notLater, nodup⟩ := List.nodup_cons.mp nodup
    rw [List.foldl_cons, ih nodup]
    by_cases here : j = i
    · subst here
      simp [notLater]
    · simp [here]

/-- What running the abandoned requests does to a node the round visited. -/
theorem settle_spec (a : Attempt) {round : Round} {indices : List Nat} (nodup : indices.Nodup)
    (abandoned : round.inFlight = indices.flatMap a.pending) (j : Nat) :
    a.settle round j =
      match a.outcome j with
      | .late ran => if j ∈ indices then (a.acquireScript.exec ran (round.nodes j)).2 else round.nodes j
      | _ => round.nodes j := by
  let f (i : Nat) (db : Keyspace) : Keyspace :=
    match a.outcome i with
    | .late ran => (a.acquireScript.exec ran db).2
    | _ => db
  have single (nodes : Nat → Keyspace) (i : Nat) :
      (a.pending i).foldl (fun nodes (i, ran) =>
        Function.update nodes i (a.acquireScript.exec ran (nodes i)).2) nodes =
      Function.update nodes i (f i (nodes i)) := by
    cases outcome : a.outcome i <;> simp [pending, f, outcome]
  have whole : a.settle round =
      indices.foldl (fun nodes i => Function.update nodes i (f i (nodes i))) round.nodes := by
    rw [settle, abandoned]
    generalize round.nodes = nodes
    clear abandoned nodup
    induction indices generalizing nodes with
    | nil => rfl
    | cons i rest ih => rw [List.flatMap_cons, List.foldl_append, single, ih, List.foldl_cons]
  rw [whole, foldl_update nodup]
  cases outcome : a.outcome j <;> simp [f, outcome]

end Attempt
end Palisade.Redlock
