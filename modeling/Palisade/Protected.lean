import Mathlib.Data.List.Sort
import Palisade.Fences
import Palisade.FencedRows

/-! Locks and the rows they protect. Anybody takes and leaves locks by any primitives; writers
send fenced updates with a fence that was granted for the key of the rows, however long ago. -/
namespace Palisade.Protected
open Sql Transition Fences FencedRows Records

structure State where
  ledger : Ledger
  rows : FencedRows.State

inductive Action (N : Type) where
  | lock (action : Counters.Action N)
  | write (request : Request)

section
variable {N : Type} (exceeds : Option Redis.Payload → N → Bool) (key table idCol : String) (start : Table)

def protecting : Machine State (Action N) where
  initial s := (issuing exceeds).initial s.ledger ∧ (fencing table idCol start).initial s.rows
  step s
    | .lock action => ((issuing exceeds).step s.ledger action).map fun ledger => { s with ledger }
    | .write request => ((fencing table idCol start).step s.rows request).map fun rows => { s with rows }

/-- The counter of the key lasts, and a write carries a fence of the key. -/
def Allowed (s : State) : Action N → Prop
  | .lock action => s.ledger.Lasting key action
  | .write request => request.Plain table idCol ∧ request.fence ∈ s.ledger.issued key

end

section
variable {N : Type} {exceeds : Option Redis.Payload → N → Bool} {key table idCol : String} {start : Table}

/-- Both sides run on their own, and the writes carry fences of the key. -/
structure Inv (exceeds : Option Redis.Payload → N → Bool) (key table idCol : String) (start : Table) (s : State) : Prop where
  ledger : (issuing exceeds).ReachableWhen (Ledger.Lasting key) s.ledger
  rows : (fencing table idCol start).ReachableWhen (fun _ r => r.Plain table idCol) s.rows
  granted : ∀ r ∈ s.rows.requests, r.fence ∈ s.ledger.issued key

theorem requests_step {s t : FencedRows.State} {r : Request} (stepped : (fencing table idCol start).step s r = some t) :
    ∀ other ∈ t.requests, other ∈ s.requests ∨ other = r := by
  cases stepped
  intro other
  split <;> simp +contextual

theorem issued_step {s t : Ledger} {action : Counters.Action N} (stepped : (issuing exceeds).step s action = some t)
    (key : String) : s.issued key ⊆ t.issued key := by
  cases stepped
  show s.issued key ⊆ Function.update s.issued action.key _ key
  by_cases same : key = action.key
  · subst same
    rw [Function.update_self]
    exact List.subset_append_right _ _
  · rw [Function.update_of_ne same]
    exact fun _ => id

theorem inv_reachable {s : State} (reach : (protecting exceeds table idCol start).ReachableWhen (Allowed key table idCol) s) :
    Inv exceeds key table idCol start s := by
  refine reach.invariant ?_ ?_
  · rintro s ⟨ledger, rows⟩
    exact ⟨.initial ledger, .initial rows, by rw [rows]; simp⟩
  · rintro s action t ⟨ledger, rows, granted⟩ allowed stepped
    cases action with
    | lock action =>
      simp only [protecting, Option.map_eq_some_iff] at stepped
      obtain ⟨after, moved, rfl⟩ := stepped
      exact ⟨.next ledger allowed moved, rows, fun r member => issued_step moved key (granted r member)⟩
    | write request =>
      simp only [protecting, Option.map_eq_some_iff] at stepped
      obtain ⟨after, moved, rfl⟩ := stepped
      refine ⟨ledger, .next rows allowed.1 moved, fun r member => ?_⟩
      rcases requests_step moved r member with before | rfl
      · exact granted r before
      · exact allowed.2

/-- A row is what those of its writes made of it that exceeded all before, and these come in the
order of the grants whose fences they carry, at most one for each grant: a holder that lost its
lock writes before its successor or not at all. -/
theorem writes_in_grant_order {s : State}
    (reach : (protecting exceeds table idCol start).ReachableWhen (Allowed key table idCol) s) {i : Nat} {first : Row}
    (here : start.rows[i]? = some first) (fresh : first lastFence = .number 0) :
    s.rows.table.rows[i]? =
        some ((records 0 (concerning idCol first s.rows.requests)).foldl (fun row change => change.2.write row) first) ∧
      ((records 0 (concerning idCol first s.rows.requests)).map Prod.fst).Sublist (s.ledger.issued key).reverse := by
  obtain ⟨ledger, rows, granted⟩ := inv_reachable reach
  obtain ⟨row, found, shows⟩ := (shows_reachable rows).2 i first 0 here fresh
  obtain ⟨n, level⟩ := level_reachable ledger
  refine ⟨by rw [found, shows.made, written, foldl_advance], ?_⟩
  have increasing := List.pairwise_map.mpr (records_increasing 0 (concerning idCol first s.rows.requests))
  have counted : (s.ledger.issued key).reverse.Pairwise (· < ·) := by
    rw [List.pairwise_reverse, level.issued]
    exact countdown_decreasing n
  have among : ((records 0 (concerning idCol first s.rows.requests)).map Prod.fst) ⊆ (s.ledger.issued key).reverse := by
    intro fence member
    obtain ⟨change, kept, rfl⟩ := List.mem_map.mp member
    obtain ⟨r, mine, rfl⟩ := List.mem_map.mp (records_subset kept)
    exact List.mem_reverse.mpr (granted r (List.mem_of_mem_filter mine))
  have once := increasing.imp fun less => ne_of_lt less
  exact List.sublist_of_subperm_of_pairwise (List.subperm_of_subset once among) increasing counted

/-- The locks run on their own before the first write. -/
theorem locks_reachable {ledger : Ledger} (reach : (issuing exceeds).ReachableWhen (Ledger.Lasting key) ledger) :
    (protecting exceeds table idCol start).ReachableWhen (Allowed key table idCol) ⟨ledger, ⟨start, []⟩⟩ := by
  induction reach with
  | initial fresh => exact .initial ⟨fresh, rfl⟩
  | @next _ action _ before allowed stepped ih =>
    have permitted : Allowed key table idCol ⟨_, ⟨start, []⟩⟩ (.lock action) := allowed
    exact .next ih permitted (congrArg (Option.map fun ledger => State.mk ledger ⟨start, []⟩) stepped)

/-- Then writes are run with the fences that were granted. -/
theorem writes_reachable {s : State} {requests : List Request} (first : FencePg.assertIdentifier table = .ok ())
    (second : FencePg.assertIdentifier idCol = .ok ())
    (reach : (protecting exceeds table idCol start).ReachableWhen (Allowed key table idCol) s)
    (served : ∀ r ∈ requests, r.Served table idCol s.rows.table.columns ∧ r.fence ∈ s.ledger.issued key) :
    ∃ t, (protecting exceeds table idCol start).ReachableWhen (Allowed key table idCol) t ∧ t.ledger = s.ledger ∧
      t.rows.requests = s.rows.requests ++ requests := by
  induction requests generalizing s with
  | nil => exact ⟨s, reach, rfl, (List.append_nil _).symm⟩
  | cons r rest ih =>
    obtain ⟨⟨own, granted⟩, later⟩ := List.forall_mem_cons.mp served
    have permitted : Allowed key table idCol s (.write r : Action N) := ⟨own.plain, granted⟩
    have stepped : (protecting exceeds table idCol start).step s (.write r) =
        some ⟨s.ledger, ⟨r.take idCol s.rows.table, s.rows.requests ++ [r]⟩⟩ :=
      congrArg (Option.map (State.mk s.ledger)) (fencing_step start first second own)
    obtain ⟨t, reach, same, ran⟩ := ih (.next reach permitted stepped) later
    exact ⟨t, reach, same, by rw [ran, List.append_assoc, List.singleton_append]⟩

end

/-- The holder of fence 1 stalls, and another takes the lock. -/
def stalled : List (Counters.Action Int) :=
  [⟨0, "orders", .mutex (.mutex (.acquire "a" 1000))⟩, ⟨2000, "orders", .reentrant "b" (.acquire 1000)⟩]

/-- The next holder writes, and the write of the first comes late. -/
def late : List Request := [setStatus "sent" 2, setStatus "paid" 1]

theorem stalled_in_order : ∃ s : State, s.rows.requests.map Request.fence = [2, 1] ∧
    s.rows.table.rows[0]? = some ((setStatus "sent" 2).write order) ∧
      ((records 0 (concerning "id" order s.rows.requests)).map Prod.fst).Sublist [1, 2] := by
  obtain ⟨ledger, reach, issued⟩ := (issuing Semantic.above).exists_reachableWhen (Ledger.Lasting "orders")
    (fun ledger => ledger.issued "orders" = [2, 1]) (s := ⟨0, fun _ => none, fun _ => []⟩)
    ⟨fun _ => rfl, fun _ => rfl⟩ stalled (by decide +kernel)
  have served : ∀ r ∈ late, r.Served "orders" "id" orders.columns ∧ r.fence ∈ ledger.issued "orders" := by
    simp only [late, List.forall_mem_cons, issued]
    exact ⟨⟨status_served rfl, by decide⟩, ⟨status_served rfl, by decide⟩, List.forall_mem_nil _⟩
  obtain ⟨s, reach, same, ran⟩ := writes_reachable orders_names.1 orders_names.2 (locks_reachable reach) served
  have opening : orders.rows[0]? = some order := rfl
  obtain ⟨shown, ordered⟩ := writes_in_grant_order reach opening (by decide +kernel)
  have second : records 0 (concerning "id" order late) = [(2, setStatus "sent" 2)] := rfl
  rw [same, issued] at ordered
  rw [ran, List.nil_append, second] at shown
  exact ⟨s, by rw [ran]; rfl, shown, ordered⟩

end Palisade.Protected
