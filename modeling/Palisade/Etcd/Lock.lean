import Mathlib.Logic.Function.Basic
import Palisade.Core

/-! The etcd backend's handle over the part of an etcd store it uses. A key is attached
to a lease, and the store deletes it when that lease ends or is revoked. -/
namespace Palisade.Etcd

structure KeyValue where
  value : String
  lease : Int
  deriving DecidableEq

/-- The keys, and the instant at which each lease that was not revoked ends. -/
structure Store where
  keys : String → Option KeyValue
  leases : Int → Option Nat

namespace Store

def alive (store : Store) (now : Nat) (lease : Int) : Bool :=
  (store.leases lease).any fun stop => decide (now < stop)

def get (store : Store) (now : Nat) (key : String) : Option KeyValue :=
  (store.keys key).filter fun kv => store.alive now kv.lease

def delete (store : Store) (key : String) : Store :=
  { store with keys := Function.update store.keys key none }

def revoke (store : Store) (lease : Int) : Store where
  keys key := (store.keys key).filter fun kv => decide (kv.lease ≠ lease)
  leases := Function.update store.leases lease none

variable {store : Store} {now later : Nat} {key : String} {kv : KeyValue}

theorem get_eq_some : store.get now key = some kv ↔
    store.keys key = some kv ∧ store.alive now kv.lease = true := by
  simp [get, Option.filter_eq_some_iff]

theorem get_earlier (order : now ≤ later) (found : store.get later key = some kv) :
    store.get now key = some kv := by
  obtain ⟨stored, alive⟩ := get_eq_some.mp found
  refine get_eq_some.mpr ⟨stored, ?_⟩
  obtain ⟨stop, ends, running⟩ := (Option.any_eq_true _ _).mp alive
  refine (Option.any_eq_true _ _).mpr ⟨stop, ends, ?_⟩
  simp only [decide_eq_true_eq] at running ⊢
  omega

@[simp] theorem get_delete : (store.delete key).get now key = none := by
  simp [get, delete]

/-- Revoking a lease brings no key back. -/
theorem get_of_revoke {lease : Int} (found : (store.revoke lease).get now key = some kv) :
    store.get now key = some kv := by
  obtain ⟨stored, alive⟩ := get_eq_some.mp found
  obtain ⟨stored, other⟩ := Option.filter_eq_some_iff.mp stored
  rw [decide_eq_true_eq] at other
  refine get_eq_some.mpr ⟨stored, ?_⟩
  simpa [Store.alive, revoke, other] using alive

end Store

/-- State shared by the clones of a handle. -/
structure HandleShared where
  key : String
  token : String
  fence : FencingToken
  leaseId : Int
  gone : Bool
  poisoned : Bool
  lost : Bool
  deriving DecidableEq

/-- What becomes of the two requests of a release. -/
structure Attempt where
  txn : Fate
  revoke : Fate
  deriving DecidableEq

namespace HandleShared
variable (h : HandleShared)

/-- The transaction of a release: delete the key if its value is the token. A
comparison with the value of an absent key does not hold. -/
def releaseTxn (now : Nat) (store : Store) : Bool × Store :=
  match store.get now h.key with
  | some kv => if kv.value = h.token then (true, store.delete h.key) else (false, store)
  | none => (false, store)

/-- A failed revocation is only logged. -/
def releaseInner (now : Nat) (attempt : Attempt) (store : Store) : Except Error Bool × Store :=
  match attempt.txn with
  | .fails message => (.error (.backend s!"release txn failed: {message}"), store)
  | .executes =>
    match h.releaseTxn now store with
    | (false, store) => (.ok false, store)
    | (true, store) =>
      match attempt.revoke with
      | .executes => (.ok true, store.revoke h.leaseId)
      | .fails _ => (.ok true, store)

def markLost : HandleShared := { h with poisoned := true, lost := true }

/-- What `release` makes of the outcome. -/
def releaseReply : Except Error Bool → Except Error Unit × HandleShared
  | .error error => (.error error, h)
  | .ok true => (.ok (), h)
  | .ok false => (.error (.lost h.key h.fence.value), h.markLost)

/-- The store records the token as the holder. -/
def Records (store : Store) (instant : Nat) : Prop :=
  ∃ kv, store.get instant h.key = some kv ∧ kv.value = h.token

variable {h} {store : Store} {now instant : Nat}

theorem Records.earlier (order : now ≤ instant) (recorded : h.Records store instant) :
    h.Records store now := by
  obtain ⟨kv, found, own⟩ := recorded
  exact ⟨kv, Store.get_earlier order found, own⟩

theorem records_releaseTxn (later : now ≤ instant) : ¬ h.Records (h.releaseTxn now store).2 instant := by
  unfold releaseTxn
  split
  · split
    · rintro ⟨kv, found, _⟩
      simp at found
    · rintro ⟨kv, found, own⟩
      rename_i seen other
      cases Option.some.inj (seen.symm.trans (Store.get_earlier later found))
      exact other own
  · rintro ⟨kv, found, _⟩
    have seen := Store.get_earlier later found
    simp_all

/-- Once the transaction ran the token is recorded no more, revoked or not. -/
theorem records_releaseInner {attempt : Attempt} (later : now ≤ instant) :
    h.Records (h.releaseInner now attempt store).2 instant ↔
      attempt.txn ≠ .executes ∧ h.Records store instant := by
  have gone : ¬ h.Records (h.releaseTxn now store).2 instant := records_releaseTxn later
  unfold releaseInner
  cases reached : attempt.txn with
  | fails message => simp
  | executes =>
    rcases ran : h.releaseTxn now store with ⟨succeeded, after⟩
    rw [ran] at gone
    cases succeeded with
    | false => simpa using gone
    | true =>
      cases attempt.revoke with
      | fails message => simpa using gone
      | executes =>
        simp only [ne_eq, not_true, false_and, iff_false]
        rintro ⟨kv, found, own⟩
        exact gone ⟨kv, Store.get_of_revoke found, own⟩

end HandleShared

end Palisade.Etcd
