import Mathlib.Data.List.AList
import Mathlib.Logic.Function.Basic

/-! The data of one Redis instance: a map from keys to typed values, each with
an optional expiry instant in milliseconds of the instance's clock. Expiry is
lazy. An entry whose instant has come stays in the map and is invisible to
every command, exactly as if it had been deleted at that instant. -/
namespace Redis

/-- A string object is integer-encoded or raw. Redis encodes every decimal
integer, so a raw text is never one and never equals the text of an `int`. -/
inductive Payload where
  | raw (text : String)
  | int (value : Int)
  deriving DecidableEq

abbrev Hash := AList fun _ : String => Payload

/-- Members with their scores. -/
abbrev ZSet := AList fun _ : String => Nat

-- The library's instance is a rewrite and does not evaluate.
instance decidableEqAList {β : String → Type} [∀ key, DecidableEq (β key)] : DecidableEq (AList β) :=
  fun left right => decidable_of_iff (left.entries = right.entries) ⟨AList.ext, congrArg AList.entries⟩

inductive Value where
  | string (payload : Payload)
  | hash (fields : Hash)
  | zset (members : ZSet)
  | list (items : List String)
  deriving DecidableEq

structure Entry where
  value : Value
  expireAt : Option Nat
  deriving DecidableEq

/-- A key set with `PX d` at time `t` is gone from `t + d` on. -/
def Entry.expired (entry : Entry) (now : Nat) : Bool :=
  entry.expireAt.any fun instant => decide (instant ≤ now)

@[simp] theorem Entry.expired_some (value : Value) (instant now : Nat) :
    (Entry.mk value (some instant)).expired now = decide (instant ≤ now) := rfl

@[simp] theorem Entry.expired_none (value : Value) (now : Nat) :
    (Entry.mk value none).expired now = false := rfl

theorem Entry.expired_mono {entry : Entry} (expired : entry.expired now = true)
    (later : now ≤ next) : entry.expired next = true := by
  obtain ⟨value, instant⟩ := entry
  cases instant with
  | none => simp at expired
  | some instant =>
    simp only [expired_some, decide_eq_true_eq] at expired ⊢
    omega

abbrev Keyspace := String → Option Entry

namespace Keyspace
variable {db : Keyspace} {now : Nat} {key other : String} {entry : Entry}

/-- The entry a command issued at `now` sees. -/
def lookup (db : Keyspace) (now : Nat) (key : String) : Option Entry :=
  (db key).filter fun entry => !entry.expired now

def put (db : Keyspace) (key : String) (entry : Entry) : Keyspace :=
  Function.update db key (some entry)

def erase (db : Keyspace) (key : String) : Keyspace :=
  Function.update db key none

@[simp] theorem put_self : db.put key entry key = some entry := Function.update_self ..

@[simp] theorem erase_self : db.erase key key = none := Function.update_self ..

theorem put_of_ne (distinct : other ≠ key) : db.put key entry other = db other :=
  Function.update_of_ne distinct ..

theorem erase_of_ne (distinct : other ≠ key) : db.erase key other = db other :=
  Function.update_of_ne distinct ..

theorem lookup_eq_some : db.lookup now key = some entry ↔
    db key = some entry ∧ entry.expired now = false := by
  simp [lookup, Option.filter_eq_some_iff]

theorem lookup_eq_none : db.lookup now key = none ↔
    ∀ entry, db key = some entry → entry.expired now = true := by
  simp [lookup, Option.filter_eq_none_iff]

/-- Time only takes entries away. -/
theorem lookup_earlier {later : Nat} (order : now ≤ later) (found : db.lookup later key = some entry) :
    db.lookup now key = some entry := by
  obtain ⟨stored, live⟩ := lookup_eq_some.mp found
  refine lookup_eq_some.mpr ⟨stored, ?_⟩
  cases expired : entry.expired now with
  | false => rfl
  | true => simp [Entry.expired_mono expired order] at live

theorem lookup_later (db : Keyspace) (key : String) {later : Nat} (order : now ≤ later) :
    db.lookup later key = db.lookup now key ∨ db.lookup later key = none := by
  cases found : db.lookup later key with
  | none => exact .inr rfl
  | some entry => exact .inl (lookup_earlier order found).symm

theorem lookup_missing {later : Nat} (order : now ≤ later) (missing : db.lookup now key = none) :
    db.lookup later key = none := by
  rcases lookup_later db key order with same | gone
  · exact same.trans missing
  · exact gone

theorem lookup_congr {db next : Keyspace} (same : next key = db key) :
    next.lookup now key = db.lookup now key := by
  simp only [lookup, same]

@[simp] theorem lookup_put_self : (db.put key entry).lookup now key =
    if entry.expired now then none else some entry := by
  cases expired : entry.expired now <;> simp [lookup, expired]

theorem lookup_put_live {value : Value} {stop : Nat} (live : now < stop) :
    (db.put key ⟨value, some stop⟩).lookup now key = some ⟨value, some stop⟩ := by
  simp [live]

theorem live_of_lookup {value : Value} {stop : Nat}
    (found : db.lookup now key = some ⟨value, some stop⟩) : now < stop := by
  simpa using (lookup_eq_some.mp found).2

@[simp] theorem lookup_erase_self : (db.erase key).lookup now key = none := by
  simp [lookup]

/-- What `PEXPIRE key ms` leaves of a live value. A deadline that is not in the
future deletes the key. -/
def refresh (db : Keyspace) (now : Nat) (key : String) (value : Value) (ms : Nat) : Keyspace :=
  if ms = 0 then db.erase key else db.put key ⟨value, some (now + ms)⟩

theorem refresh_of_ne {value : Value} {ms : Nat} (distinct : other ≠ key) :
    db.refresh now key value ms other = db other := by
  unfold refresh
  split
  · exact erase_of_ne distinct
  · exact put_of_ne distinct

/-- The entry `PEXPIRE` leaves. -/
def refreshed (now : Nat) (value : Value) (ms : Nat) : Option Entry :=
  if ms = 0 then none else some ⟨value, some (now + ms)⟩

theorem refreshed_eq_some {value : Value} {ms : Nat} : refreshed now value ms = some entry ↔
    ms ≠ 0 ∧ entry = ⟨value, some (now + ms)⟩ := by
  unfold refreshed
  split <;> simp_all [eq_comm]

theorem refresh_self {value : Value} {ms : Nat} :
    db.refresh now key value ms key = refreshed now value ms := by
  unfold refresh refreshed
  split <;> simp

/-- A refreshed value is visible for exactly `ms` more milliseconds. -/
theorem lookup_refresh {value : Value} {ms instant : Nat} (later : now ≤ instant) :
    (db.refresh now key value ms).lookup instant key =
      if instant < now + ms then some ⟨value, some (now + ms)⟩ else none := by
  unfold refresh
  by_cases zero : ms = 0
  · rw [if_pos zero, lookup_erase_self, if_neg (by omega)]
  · rw [if_neg zero, lookup_put_self]
    by_cases inside : instant < now + ms
    · simp [inside]
    · simp [inside, Nat.le_of_not_lt inside]

theorem put_put {next : Entry} : (db.put key entry).put key next = db.put key next :=
  Function.update_idem ..

theorem erase_put : (db.put key entry).erase key = db.erase key := Function.update_idem ..

theorem refresh_put {value : Value} {ms : Nat} :
    (db.put key entry).refresh now key value ms = db.refresh now key value ms := by
  unfold refresh put erase
  split <;> simp

end Keyspace
end Redis
