import Palisade.Redis.Keyspace

/-! Lua scripts as programs over one keyspace. A script runs atomically at one
instant. A command that fails raises a fault: the rest of the script is
abandoned and the effects of its earlier commands stay. Counters and times are
unbounded: the limits that Redis sets to them as signed 64-bit numbers are not
modelled. -/
namespace Redis

inductive Fault where
  | wrongType
  | notInteger
  | hashNotInteger
  | invalidExpire
  /-- A Lua concatenation with an absent script argument. -/
  | nilConcat
  /-- A command given an absent script key or argument. -/
  | nilArgument
  /-- A Lua comparison of nil with a number. -/
  | nilCompare
  deriving DecidableEq

/-- The reply as the client library displays it: `ResponseError` stands for the code `ERR`. The
script and the line that Redis names beside the message are left out. -/
def Fault.text : Fault → String
  | .wrongType => "WRONGTYPE: Operation against a key holding the wrong kind of value"
  | .notInteger => "ResponseError: value is not an integer or out of range"
  | .hashNotInteger => "ResponseError: hash value is not an integer"
  | .invalidExpire => "ResponseError: invalid expire time in 'set' command"
  | .nilConcat => "ResponseError: attempt to concatenate field '?' (a nil value)"
  | .nilArgument => "ResponseError: Lua redis lib command arguments must be strings or integers"
  | .nilCompare => "ResponseError: attempt to compare nil with number"

structure Script (α : Type) where
  exec : Nat → Keyspace → Except Fault α × Keyspace

namespace Script
variable {α β : Type} {now : Nat} {db : Keyspace} {key : String}

instance : Monad Script where
  pure a := ⟨fun _ db => (.ok a, db)⟩
  bind script next := ⟨fun now db =>
    match script.exec now db with
    | (.ok a, db) => (next a).exec now db
    | (.error fault, db) => (.error fault, db)⟩

@[simp] theorem exec_pure (a : α) : (pure a : Script α).exec now db = (.ok a, db) := rfl

@[simp] theorem exec_bind (script : Script α) (next : α → Script β) :
    (script >>= next).exec now db =
      match script.exec now db with
      | (.ok a, db) => (next a).exec now db
      | (.error fault, db) => (.error fault, db) := rfl

/-- Dressing up the answer of a script leaves what it does to the store. -/
theorem state_bind_pure (script : Script α) (f : α → β) :
    ((script >>= fun a => pure (f a)).exec now db).2 = (script.exec now db).2 := by
  rw [exec_bind]
  rcases script.exec now db with ⟨reply, after⟩
  cases reply <;> rfl

theorem exec_bind_pure {script : Script α} {f : α → β} {after : Keyspace}
    (ran : script.exec now db = (.ok a, after)) :
    (script >>= fun a => pure (f a)).exec now db = (.ok (f a), after) := by
  simp only [exec_bind, ran, exec_pure]

@[simp] theorem exec_ite (condition : Prop) [Decidable condition] (yes no : Script α) :
    (if condition then yes else no).exec now db =
      if condition then yes.exec now db else no.exec now db := by
  split <;> rfl

def fail (fault : Fault) : Script α := ⟨fun _ db => (.error fault, db)⟩

/-- An element of `KEYS` or `ARGV`, which reads as nil beyond its end. -/
def required (argument : Option α) (fault : Fault) : Script α :=
  match argument with
  | some value => pure value
  | none => fail fault

@[simp] theorem exec_fail (fault : Fault) :
    (fail fault : Script α).exec now db = (.error fault, db) := rfl

/-- `TIME`, in whole milliseconds. -/
def time : Script Nat := ⟨fun now db => (.ok now, db)⟩

@[simp] theorem exec_time : time.exec now db = (.ok now, db) := rfl

def read (key : String) : Script (Option Entry) := ⟨fun now db => (.ok (db.lookup now key), db)⟩

@[simp] theorem exec_read : (read key).exec now db = (.ok (db.lookup now key), db) := rfl

def write (key : String) (entry : Entry) : Script Unit := ⟨fun _ db => (.ok (), db.put key entry)⟩

@[simp] theorem exec_write (entry : Entry) :
    (write key entry).exec now db = (.ok (), db.put key entry) := rfl

def remove (key : String) : Script Unit := ⟨fun _ db => (.ok (), db.erase key)⟩

@[simp] theorem exec_remove : (remove key).exec now db = (.ok (), db.erase key) := rfl

/-! Generic commands. -/

/-- `EXISTS key`, as a truth value. -/
def existsKey (key : String) : Script Bool := do
  return (← read key).isSome

@[simp] theorem exec_existsKey :
    (existsKey key).exec now db = (.ok (db.lookup now key).isSome, db) := rfl

/-- `DEL key`: the number of keys removed. -/
def del (key : String) : Script Nat := do
  match ← read key with
  | none => return 0
  | some _ =>
    remove key
    return 1

theorem exec_del : (del key).exec now db =
    match db.lookup now key with
    | none => (.ok 0, db)
    | some _ => (.ok 1, db.erase key) := by
  cases found : db.lookup now key <;> simp [del, found]

/-- `PEXPIRE key ms`. A deadline that is not in the future deletes the key. -/
def pexpire (key : String) (ms : Nat) : Script Nat := do
  match ← read key with
  | none => return 0
  | some entry =>
    if ms = 0 then
      remove key
      return 1
    let now ← time
    write key { entry with expireAt := some (now + ms) }
    return 1

theorem exec_pexpire (ms : Nat) : (pexpire key ms).exec now db =
    match db.lookup now key with
    | none => (.ok 0, db)
    | some entry => (.ok 1, db.refresh now key entry.value ms) := by
  cases found : db.lookup now key with
  | none => simp [pexpire, found]
  | some entry => by_cases zero : ms = 0 <;> simp [pexpire, Keyspace.refresh, found, zero]

/-! Strings. -/

def get (key : String) : Script (Option Payload) := do
  match ← read key with
  | none => return none
  | some ⟨.string payload, _⟩ => return some payload
  | some _ => fail .wrongType

theorem exec_get_string {payload : Payload} {expireAt : Option Nat}
    (found : db.lookup now key = some ⟨.string payload, expireAt⟩) :
    (get key).exec now db = (.ok (some payload), db) := by
  simp [get, found]

theorem exec_get_none (missing : db.lookup now key = none) :
    (get key).exec now db = (.ok none, db) := by
  simp [get, missing]

/-- `SET key value NX PX ms`: whether the key was set. The expiry is validated
before the key is looked at. -/
def setNxPx (key : String) (payload : Payload) (ms : Nat) : Script Bool := do
  if ms = 0 then
    fail .invalidExpire
  else
    match ← read key with
    | some _ => return false
    | none =>
      let now ← time
      write key ⟨.string payload, some (now + ms)⟩
      return true

theorem exec_setNxPx (payload : Payload) (ms : Nat) : (setNxPx key payload ms).exec now db =
    if ms = 0 then (.error .invalidExpire, db)
    else match db.lookup now key with
      | some _ => (.ok false, db)
      | none => (.ok true, db.put key ⟨.string payload, some (now + ms)⟩) := by
  by_cases zero : ms = 0
  · simp [setNxPx, zero]
  · cases found : db.lookup now key <;> simp [setNxPx, zero, found]

/-- `SET key value NX`: whether the key was set, without an expiry. -/
def setNx (key : String) (payload : Payload) : Script Bool := do
  match ← read key with
  | some _ => return false
  | none =>
    write key ⟨.string payload, none⟩
    return true

theorem exec_setNx (payload : Payload) : (setNx key payload).exec now db =
    match db.lookup now key with
    | some _ => (.ok false, db)
    | none => (.ok true, db.put key ⟨.string payload, none⟩) := by
  cases found : db.lookup now key <;> simp [setNx, found]

/-- `SET key value PX ms`. The expiry is a text of the command. -/
def setPx (key : String) (payload px : Payload) : Script Unit := do
  match px with
  | .raw _ => fail .notInteger
  | .int ms =>
    if ms ≤ 0 then
      fail .invalidExpire
    else
      let now ← time
      write key ⟨.string payload, some (now + ms.toNat)⟩

theorem exec_setPx (payload : Payload) {ms : Nat} (positive : 0 < ms) :
    (setPx key payload (.int ms)).exec now db =
      (.ok (), db.put key ⟨.string payload, some (now + ms)⟩) := by
  simp [setPx, Nat.ne_of_gt positive]

/-- `INCR key`. A missing key counts from zero; the expiry is kept. -/
def incr (key : String) : Script Int := do
  match ← read key with
  | none =>
    write key ⟨.string (.int 1), none⟩
    return 1
  | some ⟨.string (.int value), expireAt⟩ =>
    write key ⟨.string (.int (value + 1)), expireAt⟩
    return value + 1
  | some ⟨.string (.raw _), _⟩ => fail .notInteger
  | some _ => fail .wrongType

theorem exec_incr : (incr key).exec now db =
    match db.lookup now key with
    | none => (.ok 1, db.put key ⟨.string (.int 1), none⟩)
    | some ⟨.string (.int value), expireAt⟩ =>
      (.ok (value + 1), db.put key ⟨.string (.int (value + 1)), expireAt⟩)
    | some ⟨.string (.raw _), _⟩ => (.error .notInteger, db)
    | some _ => (.error .wrongType, db) := by
  match found : db.lookup now key with
  | none => simp [incr, found]
  | some ⟨.string (.int _), _⟩ | some ⟨.string (.raw _), _⟩ => simp [incr, found]
  | some ⟨.hash _, _⟩ | some ⟨.zset _, _⟩ | some ⟨.list _, _⟩ => simp [incr, found]

/-- `DECR key`, like `INCR`. -/
def decr (key : String) : Script Int := do
  match ← read key with
  | none =>
    write key ⟨.string (.int (-1)), none⟩
    return -1
  | some ⟨.string (.int value), expireAt⟩ =>
    write key ⟨.string (.int (value - 1)), expireAt⟩
    return value - 1
  | some ⟨.string (.raw _), _⟩ => fail .notInteger
  | some _ => fail .wrongType

theorem exec_decr_int {value : Int} {expireAt : Option Nat}
    (found : db.lookup now key = some ⟨.string (.int value), expireAt⟩) :
    (decr key).exec now db =
      (.ok (value - 1), db.put key ⟨.string (.int (value - 1)), expireAt⟩) := by
  simp [decr, found]

/-! Framing: a script leaves a key alone when no run of it changes the key's entry. -/

def Leaves (script : Script α) (key : String) : Prop :=
  ∀ now db, (script.exec now db).2 key = db key

theorem leaves_pure (a : α) : (pure a : Script α).Leaves key := fun _ _ => rfl

theorem leaves_fail (fault : Fault) : (fail fault : Script α).Leaves key := fun _ _ => rfl

theorem leaves_bind {script : Script α} {next : α → Script β} (first : script.Leaves key)
    (rest : ∀ a, (next a).Leaves key) : (script >>= next).Leaves key := by
  intro now db
  rw [exec_bind]
  have before := first now db
  split
  · rename_i a after ran
    rw [rest a now after]
    simpa only [ran] using before
  · rename_i fault after ran
    simpa only [ran] using before

theorem leaves_write {other : String} {entry : Entry} (distinct : key ≠ other) :
    (write other entry).Leaves key := fun _ _ => Keyspace.put_of_ne distinct

theorem leaves_pexpire {other : String} {ms : Nat} (distinct : key ≠ other) :
    (pexpire other ms).Leaves key := by
  intro now db
  rw [exec_pexpire]
  cases found : db.lookup now other with
  | none => rfl
  | some entry => exact Keyspace.refresh_of_ne distinct

theorem leaves_incr {other : String} (distinct : key ≠ other) : (incr other).Leaves key := by
  refine leaves_bind (fun _ _ => rfl) fun entry => ?_
  match entry with
  | none => exact leaves_bind (leaves_write distinct) fun _ => leaves_pure _
  | some ⟨.string (.int _), _⟩ => exact leaves_bind (leaves_write distinct) fun _ => leaves_pure _
  | some ⟨.string (.raw _), _⟩ => exact leaves_fail _
  | some ⟨.hash _, _⟩ => exact leaves_fail _
  | some ⟨.zset _, _⟩ => exact leaves_fail _
  | some ⟨.list _, _⟩ => exact leaves_fail _

end Script
end Redis
