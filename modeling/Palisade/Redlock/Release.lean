import Palisade.Redlock.TryLock

/-! `run_release` of the quorum lock: one pass over the ring, each node reached or
not. The call succeeds as soon as one node gave the lock up. -/
namespace Palisade.Redlock
open Redis Single

/-- How the nodes behave during one pass, and how long before its end each ran the script. -/
structure Pass where
  fate : Nat → Fate
  lag : Nat → Nat

/-- The locals of the loop. -/
structure Departure where
  nodes : Nat → Keyspace
  releasedAny : Bool
  sawNotOwner : Bool

namespace Handle
variable (h : Handle) (pass : Pass) (now : Nat)

/-- `release_node`: the status, or nothing where the request failed. -/
def releaseNode (i : Nat) (db : Keyspace) : Option Nat × Keyspace :=
  match pass.fate i with
  | .executes =>
    let (reply, db) := (release h.key h.token).exec (now - pass.lag i) db
    (reply.toOption, db)
  | .fails _ => (none, db)

def releaseLoop : List Nat → Departure → Departure
  | [], departure => departure
  | i :: rest, departure =>
    let (status, db) := h.releaseNode pass now i (departure.nodes i)
    releaseLoop rest {
      nodes := Function.update departure.nodes i db
      releasedAny := departure.releasedAny || decide (status = some 1)
      sawNotOwner := departure.sawNotOwner || decide (status = some 0) }

/-- `run_release` over `n` nodes, ending at `now`. -/
def runRelease (n : Nat) (nodes : Nat → Keyspace) : Except Error Unit × (Nat → Keyspace) :=
  let departure := h.releaseLoop pass now (List.range n) ⟨nodes, false, false⟩
  if departure.releasedAny then (.ok (), departure.nodes)
  else if departure.sawNotOwner then (.error (.lost h.key h.fence.value), departure.nodes)
  else (.error (.backend "release failed on all nodes"), departure.nodes)

/-- Node `i` records the token. -/
def recordedOn (nodes : Nat → Keyspace) (instant i : Nat) : Bool :=
  decide (holder h.key (nodes i) instant = some h.token)

/-- A quorum of the nodes records the token: it is the holder. -/
def Records (n : Nat) (nodes : Nat → Keyspace) (instant : Nat) : Prop :=
  quorum n ≤ (List.range n).countP (h.recordedOn nodes instant)

/-- Node `i` runs the script and records the token as it does. -/
def frees (nodes : Nat → Keyspace) (i : Nat) : Bool :=
  decide (pass.fate i = .executes) && h.recordedOn nodes (now - pass.lag i) i

/-- Node `i` is not reached and records the token. -/
def keeps (nodes : Nat → Keyspace) (instant i : Nat) : Bool :=
  decide (pass.fate i ≠ .executes) && h.recordedOn nodes instant i

variable {h pass now} {nodes : Nat → Keyspace}

theorem releaseNode_status (i : Nat) :
    (h.releaseNode pass now i (nodes i)).1 = some 1 ↔ h.frees pass now nodes i = true := by
  cases fate : pass.fate i with
  | fails => simp [releaseNode, frees, fate]
  | executes =>
    simp only [releaseNode, frees, recordedOn, fate, exec_release, holder_eq_some, Bool.and_eq_true,
      decide_eq_true_eq, true_and]
    match (nodes i).lookup (now - pass.lag i) h.key with
    | none => simp [Except.toOption]
    | some ⟨.string payload, stop⟩ => by_cases own : payload = .raw h.token <;> simp [own, Except.toOption]
    | some ⟨.hash _, _⟩ | some ⟨.zset _, _⟩ | some ⟨.list _, _⟩ => simp [Except.toOption]

theorem holder_releaseNode (i : Nat) {instant : Nat} (later : now ≤ instant) :
    (holder h.key (h.releaseNode pass now i (nodes i)).2 instant = some h.token) ↔
      h.keeps pass nodes instant i = true := by
  cases fate : pass.fate i with
  | fails => simp [releaseNode, keeps, recordedOn, fate]
  | executes =>
    have gone : holder h.key ((release h.key h.token).exec (now - pass.lag i) (nodes i)).2 instant ≠
        some h.token := holder_release (by omega)
    simpa [releaseNode, keeps, fate] using gone

theorem releaseLoop_nodes {indices : List Nat} (nodup : indices.Nodup) (departure : Departure) (i : Nat) :
    (h.releaseLoop pass now indices departure).nodes i =
      if i ∈ indices then (h.releaseNode pass now i (departure.nodes i)).2 else departure.nodes i := by
  induction indices generalizing departure with
  | nil => rfl
  | cons j rest ih =>
    obtain ⟨fresh, nodup⟩ := List.nodup_cons.mp nodup
    rw [releaseLoop, ih nodup]
    by_cases here : i = j
    · subst here
      simp [fresh]
    · simp [here]

theorem frees_congr {after : Nat → Keyspace} {i : Nat} (same : after i = nodes i) :
    h.frees pass now after i = h.frees pass now nodes i := by
  simp only [frees, recordedOn, same]

theorem releaseLoop_releasedAny {indices : List Nat} (nodup : indices.Nodup) (departure : Departure) :
    (h.releaseLoop pass now indices departure).releasedAny = true ↔
      departure.releasedAny = true ∨ ∃ i ∈ indices, h.frees pass now departure.nodes i = true := by
  induction indices generalizing departure with
  | nil => simp [releaseLoop]
  | cons j rest ih =>
    obtain ⟨fresh, nodup⟩ := List.nodup_cons.mp nodup
    have same (i : Nat) (member : i ∈ rest) (db : Keyspace) :
        h.frees pass now (Function.update departure.nodes j db) i = h.frees pass now departure.nodes i := by
      refine frees_congr (Function.update_of_ne ?_ _ _)
      rintro rfl
      exact fresh member
    rw [releaseLoop, ih nodup]
    simp only [Bool.or_eq_true, decide_eq_true_eq, releaseNode_status, List.exists_mem_cons_iff, or_assoc]
    refine or_congr_right (or_congr_right ?_)
    exact exists_congr fun i => and_congr_right fun member => by rw [same i member]

theorem runRelease_nodes (n : Nat) (i : Nat) : (h.runRelease pass now n nodes).2 i =
    if i < n then (h.releaseNode pass now i (nodes i)).2 else nodes i := by
  have loop : (h.releaseLoop pass now (List.range n) ⟨nodes, false, false⟩).nodes i = _ :=
    releaseLoop_nodes List.nodup_range _ i
  simp only [List.mem_range] at loop
  rw [← loop]
  simp only [runRelease]
  split
  · rfl
  · split <;> rfl

/-- The call succeeds where one node gave the lock up, whatever the others did. -/
theorem runRelease_ok (n : Nat) : (h.runRelease pass now n nodes).1 = .ok () ↔
    ∃ i < n, h.frees pass now nodes i = true := by
  have loop : (h.releaseLoop pass now (List.range n) ⟨nodes, false, false⟩).releasedAny = true ↔ _ :=
    releaseLoop_releasedAny List.nodup_range _
  simp only [List.mem_range, Bool.false_eq_true, false_or] at loop
  rw [← loop]
  simp only [runRelease]
  split
  · simp [*]
  · split <;> simp [*]

/-- After the call the token is recorded exactly where the request failed. -/
theorem records_runRelease (n : Nat) {instant : Nat} (later : now ≤ instant) :
    h.Records n (h.runRelease pass now n nodes).2 instant ↔
      quorum n ≤ (List.range n).countP (h.keeps pass nodes instant) := by
  have same : (List.range n).countP (h.recordedOn (h.runRelease pass now n nodes).2 instant) =
      (List.range n).countP (h.keeps pass nodes instant) := by
    refine List.countP_congr fun i member => ?_
    rw [recordedOn, runRelease_nodes, if_pos (List.mem_range.mp member), decide_eq_true_eq]
    exact holder_releaseNode i later
  rw [Records, same]

end Handle

end Palisade.Redlock
