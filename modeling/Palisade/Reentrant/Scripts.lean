import Palisade.Redis.Collections
import Palisade.Core
import Palisade.Single.Scripts

/-! The reentrant mutex scripts. One hash holds the owner's token and the number
of holds; the expiry of the hash is all there is of the leases. Every script is
also stated as a function of that record, and the store is shown to follow it.
The grant script is also passed a retention for the fence counter, which it does
not use. -/
namespace Palisade.Reentrant
open Redis Single

/-- `reentrant_acquire.lua` -/
def acquire (key fenceKey token : String) (ttl : Nat) : Script (Int × Int) := do
  if (← Script.existsKey key) = false then
    Script.hset key [("owner", .raw token), ("count", .int 1)]
    let _ ← Script.pexpire key ttl
    return (1, ← Script.incr fenceKey)
  if (← Script.hget key "owner") = some (.raw token) then
    let _ ← Script.hincrby key "count" 1
    let _ ← Script.pexpire key ttl
    return (2, ← Script.incr fenceKey)
  return (0, 0)

/-- `reentrant_release.lua` -/
def releaseOne (key token : String) (refresh : Nat) : Script Int := do
  if (← Script.existsKey key) = false then
    return -1
  if (← Script.hget key "owner") ≠ some (.raw token) then
    return -1
  let count ← Script.hincrby key "count" (-1)
  if count ≤ 0 then
    let _ ← Script.del key
    return 0
  if 0 < refresh then
    let _ ← Script.pexpire key refresh
  return count

/-- `reentrant_release_all.lua` -/
def releaseAll (key token : String) : Script Int := do
  if (← Script.existsKey key) = false then
    return -1
  if (← Script.hget key "owner") = some (.raw token) then
    let _ ← Script.del key
    return 1
  return -1

/-- `reentrant_extend.lua` -/
def extend (key token : String) (ttl : Nat) : Script Int := do
  if (← Script.existsKey key) = false then
    return -1
  if (← Script.hget key "owner") = some (.raw token) then
    let _ ← Script.pexpire key ttl
    return 1
  return -1

inductive Command where
  | acquire (ttl : Nat)
  | releaseOne (refresh : Nat)
  | releaseAll
  | extend (ttl : Nat)
  deriving DecidableEq

/-- The script invocation with the arguments the Rust callers pass; the answer
is a status and, for a grant, its fence. -/
def Command.script (key token : String) : Command → Script (Int × Int)
  | .acquire ttl => Reentrant.acquire key (fenceKeyFor key) token ttl
  | .releaseOne refresh => do return (← Reentrant.releaseOne key token refresh, 0)
  | .releaseAll => do return (← Reentrant.releaseAll key token, 0)
  | .extend ttl => do return (← Reentrant.extend key token ttl, 0)

/-! The record in the hash. -/

structure Record where
  owner : String
  count : Int
  stop : Nat
  deriving DecidableEq

/-- The record is visible until its expiry. -/
def live (now : Nat) (record : Option Record) : Option Record :=
  record.filter fun r => decide (now < r.stop)

theorem live_eq_some {now : Nat} {record : Option Record} {r : Record} :
    live now record = some r ↔ record = some r ∧ now < r.stop := by
  simp [live, Option.filter_eq_some_iff]

theorem live_eq_none {now : Nat} {record : Option Record} :
    live now record = none ↔ ∀ r, record = some r → r.stop ≤ now := by
  simp [live, Option.filter_eq_none_iff]

/-- A record whose expiry is set anew; an expiry that is not in the future deletes it. -/
def leased (now ttl : Nat) (owner : String) (count : Int) : Option Record :=
  if ttl = 0 then none else some ⟨owner, count, now + ttl⟩

theorem leased_eq_some {now ttl : Nat} {owner : String} {count : Int} {r : Record} :
    leased now ttl owner count = some r ↔ ttl ≠ 0 ∧ r = ⟨owner, count, now + ttl⟩ := by
  unfold leased
  split <;> simp_all [eq_comm]

/-- The status each script answers at `now`, and the record it leaves. -/
def Command.apply (now : Nat) (token : String) (command : Command) (record : Option Record) :
    Int × Option Record :=
  match command, live now record with
  | .acquire ttl, none => (1, leased now ttl token 1)
  | .acquire ttl, some r =>
    if r.owner = token then (2, leased now ttl token (r.count + 1)) else (0, record)
  | .releaseOne refresh, some r =>
    if r.owner = token then
      if r.count - 1 ≤ 0 then (0, none)
      else (r.count - 1, some ⟨token, r.count - 1, if 0 < refresh then now + refresh else r.stop⟩)
    else (-1, record)
  | .releaseAll, some r => if r.owner = token then (1, none) else (-1, record)
  | .extend ttl, some r => if r.owner = token then (1, leased now ttl token r.count) else (-1, record)
  | _, none => (-1, record)

/-- Everything a script can do to the record. -/
inductive Outcome (now : Nat) (token : String) (record : Option Record) :
    Command → Int → Option Record → Prop where
  | opened : live now record = none →
      Outcome now token record (.acquire ttl) 1 (leased now ttl token 1)
  | reentered : live now record = some ⟨token, count, stop⟩ →
      Outcome now token record (.acquire ttl) 2 (leased now ttl token (count + 1))
  | denied : live now record = some r → r.owner ≠ token →
      Outcome now token record (.acquire ttl) 0 record
  | emptied : live now record = some ⟨token, count, stop⟩ → count - 1 ≤ 0 →
      Outcome now token record (.releaseOne refresh) 0 none
  | reduced : live now record = some ⟨token, count, stop⟩ → 0 < count - 1 →
      Outcome now token record (.releaseOne refresh) (count - 1)
        (some ⟨token, count - 1, if 0 < refresh then now + refresh else stop⟩)
  | cleared : live now record = some ⟨token, count, stop⟩ →
      Outcome now token record .releaseAll 1 none
  | extended : live now record = some ⟨token, count, stop⟩ →
      Outcome now token record (.extend ttl) 1 (leased now ttl token count)
  | missed : (∀ r, live now record = some r → r.owner ≠ token) → (∀ ttl, command ≠ .acquire ttl) →
      Outcome now token record command (-1) record

theorem Command.outcome {now : Nat} {token : String} {command : Command}
    {record after : Option Record} {status : Int}
    (applied : command.apply now token record = (status, after)) :
    Outcome now token record command status after := by
  cases seen : live now record with
  | none =>
    cases command with
    | acquire ttl =>
      simp only [apply, seen, Prod.mk.injEq] at applied
      obtain ⟨rfl, rfl⟩ := applied
      exact .opened seen
    | releaseOne | releaseAll | extend =>
      simp only [apply, seen, Prod.mk.injEq] at applied
      obtain ⟨rfl, rfl⟩ := applied
      exact .missed (by simp [seen]) (by simp)
  | some r =>
    obtain ⟨owner, count, stop⟩ := r
    by_cases same : owner = token
    · subst same
      cases command with
      | acquire ttl =>
        simp only [apply, seen, if_true, Prod.mk.injEq] at applied
        obtain ⟨rfl, rfl⟩ := applied
        exact .reentered seen
      | releaseOne refresh =>
        simp only [apply, seen, if_true] at applied
        split at applied <;> cases applied
        · exact .emptied seen ‹_›
        · exact .reduced seen (by omega)
      | releaseAll =>
        simp only [apply, seen, if_true, Prod.mk.injEq] at applied
        obtain ⟨rfl, rfl⟩ := applied
        exact .cleared seen
      | extend ttl =>
        simp only [apply, seen, if_true, Prod.mk.injEq] at applied
        obtain ⟨rfl, rfl⟩ := applied
        exact .extended seen
    · cases command with
      | acquire ttl =>
        simp only [apply, seen, same, if_false, Prod.mk.injEq] at applied
        obtain ⟨rfl, rfl⟩ := applied
        exact .denied seen same
      | releaseOne | releaseAll | extend =>
        simp only [apply, seen, same, if_false, Prod.mk.injEq] at applied
        obtain ⟨rfl, rfl⟩ := applied
        refine .missed ?_ (by simp)
        rintro r found rfl
        rw [seen] at found
        cases found
        exact same rfl

/-- The hash fields of a record. -/
structure Fields (fields : Hash) (owner : String) (count : Int) : Prop where
  owner : fields.lookup "owner" = some (.raw owner)
  count : fields.lookup "count" = some (.int count)

def recordAt (key : String) (db : Keyspace) : Option Record :=
  match db key with
  | some ⟨.hash fields, some stop⟩ =>
    match fields.lookup "owner", fields.lookup "count" with
    | some (.raw owner), some (.int count) => some ⟨owner, count, stop⟩
    | _, _ => none
  | _ => none

/-- What the scripts ever store under the two keys. -/
structure Sound (key : String) (db : Keyspace) : Prop where
  lock : ∀ entry, db key = some entry → ∃ fields owner count stop,
    entry = ⟨.hash fields, some stop⟩ ∧ Fields fields owner count
  counter : Counts key db

section
variable {key token owner : String} {db after : Keyspace} {now ttl stop : Nat} {count : Int}
  {fields : Hash}

theorem recordAt_hash (stored : db key = some ⟨.hash fields, some stop⟩)
    (shape : Fields fields owner count) : recordAt key db = some ⟨owner, count, stop⟩ := by
  simp [recordAt, stored, shape.owner, shape.count]

theorem recordAt_eq_some {r : Record} (stored : recordAt key db = some r) :
    ∃ fields, db key = some ⟨.hash fields, some r.stop⟩ ∧ Fields fields r.owner r.count := by
  unfold recordAt at stored
  split at stored <;> [skip; contradiction]
  split at stored <;> cases stored
  exact ⟨_, ‹_›, ‹_›, ‹_›⟩

theorem recordAt_none (missing : db key = none) : recordAt key db = none := by
  simp [recordAt, missing]

theorem Fields.insert_count (shape : Fields fields owner count) (changed : Int) :
    Fields (fields.insert "count" (.int changed)) owner changed where
  owner := (AList.lookup_insert_ne (by decide)).trans shape.owner
  count := AList.lookup_insert _

theorem recordAt_refreshed (shape : Fields fields owner count)
    (left : after key = Keyspace.refreshed now (.hash fields) ttl) :
    recordAt key after = leased now ttl owner count := by
  unfold Keyspace.refreshed at left
  unfold leased
  split at left
  · rw [if_pos ‹_›, recordAt_none left]
  · rw [if_neg ‹_›, recordAt_hash left shape]

namespace Sound

theorem lookup (sound : Sound key db) (now : Nat) :
    (db.lookup now key = none ∧ live now (recordAt key db) = none) ∨
      ∃ fields owner count stop, db.lookup now key = some ⟨.hash fields, some stop⟩ ∧
        Fields fields owner count ∧ live now (recordAt key db) = some ⟨owner, count, stop⟩ := by
  cases stored : db key with
  | none => exact .inl ⟨by simp [Keyspace.lookup, stored], by simp [recordAt, stored, live]⟩
  | some entry =>
    obtain ⟨fields, owner, count, stop, rfl, shape⟩ := sound.lock entry stored
    have record := recordAt_hash stored shape
    by_cases running : now < stop
    · refine .inr ⟨fields, owner, count, stop, ?_, shape, live_eq_some.mpr ⟨record, running⟩⟩
      exact Keyspace.lookup_eq_some.mpr ⟨stored, by simpa using running⟩
    · refine .inl ⟨by simp [Keyspace.lookup, stored, Nat.le_of_not_lt running], ?_⟩
      simpa [live, record] using running

theorem refreshed (counts : Counts key after) (shape : Fields fields owner count)
    (left : after key = Keyspace.refreshed now (.hash fields) ttl) : Sound key after := by
  refine ⟨?_, counts⟩
  intro entry stored
  rw [left] at stored
  obtain ⟨_, rfl⟩ := Keyspace.refreshed_eq_some.mp stored
  exact ⟨fields, owner, count, now + ttl, rfl, shape⟩

theorem erased (sound : Sound key db) : Sound key (db.erase key) where
  lock entry stored := by simp at stored
  counter := sound.counter.congr fun _ distinct => Keyspace.erase_of_ne distinct

theorem rewritten (sound : Sound key db) (shape : Fields fields owner count) (stop : Nat) :
    Sound key (db.put key ⟨.hash fields, some stop⟩) where
  lock entry stored := by
    rw [Keyspace.put_self] at stored
    exact ⟨fields, owner, count, stop, (Option.some.inj stored).symm, shape⟩
  counter := sound.counter.congr fun _ distinct => Keyspace.put_of_ne distinct

/-- The last two commands of a grant: the lease is set and a fence counted. -/
theorem exec_grant (counts : Counts key db) (now ttl : Nat) {expireAt : Option Nat}
    (present : db.lookup now key = some ⟨.hash fields, expireAt⟩) (shape : Fields fields owner count)
    (status : Int) : ∃ fence after,
      (do let _ ← Script.pexpire key ttl; return (status, ← Script.incr (fenceKeyFor key)) :
        Script (Int × Int)).exec now db = (.ok (status, fence), after) ∧
      Sound key after ∧ recordAt key after = leased now ttl owner count := by
  have kept : Counts key (db.refresh now key (.hash fields) ttl) :=
    counts.congr fun _ distinct => Keyspace.refresh_of_ne distinct
  obtain ⟨fence, after, ran, same, counts⟩ := exec_count kept now status
  refine ⟨fence, after, ?_, ?_, ?_⟩
  · rw [Script.exec_bind, Script.exec_pexpire, present]
    exact ran
  · exact refreshed counts shape (same.trans Keyspace.refresh_self)
  · exact recordAt_refreshed shape (same.trans Keyspace.refresh_self)

end Sound

/-- The answer a script gives at `now` and the store it leaves are those of the record. -/
def Follows (key token : String) (now : Nat) (db : Keyspace) (command : Command) : Prop :=
  ∃ status fence after, (command.script key token).exec now db = (.ok (status, fence), after) ∧
    Sound key after ∧ command.apply now token (recordAt key db) = (status, recordAt key after)

namespace Sound
variable (sound : Sound key db)
include sound

/-- A release or an extension that finds the hash in other hands, or not at all,
leaves the store alone. -/
theorem exec_missed {command : Command} (other : ∀ ttl, command ≠ .acquire ttl)
    (absent : ∀ r, live now (recordAt key db) = some r → r.owner ≠ token) :
    (command.script key token).exec now db = (.ok (-1, 0), db) := by
  rcases sound.lookup now with ⟨missing, lapsed⟩ | ⟨fields, owner, count, stop, found, shape, held⟩
  · cases command with
    | acquire ttl => exact absurd rfl (other ttl)
    | releaseOne => simp [Command.script, releaseOne, missing]
    | releaseAll => simp [Command.script, releaseAll, missing]
    | extend => simp [Command.script, extend, missing]
  · have foreign : owner ≠ token := absent _ held
    cases command with
    | acquire ttl => exact absurd rfl (other ttl)
    | releaseOne => simp [Command.script, releaseOne, found, Script.exec_hget found, shape.owner, foreign]
    | releaseAll => simp [Command.script, releaseAll, found, Script.exec_hget found, shape.owner, foreign]
    | extend => simp [Command.script, extend, found, Script.exec_hget found, shape.owner, foreign]

theorem follows_missed {command : Command} (other : ∀ ttl, command ≠ .acquire ttl)
    (absent : ∀ r, live now (recordAt key db) = some r → r.owner ≠ token) :
    Follows key token now db command := by
  refine ⟨-1, 0, db, sound.exec_missed other absent, sound, ?_⟩
  cases seen : live now (recordAt key db) with
  | none =>
    cases command with
    | acquire ttl => exact absurd rfl (other ttl)
    | releaseOne | releaseAll | extend => simp [Command.apply, seen]
  | some r =>
    have foreign := absent r seen
    cases command with
    | acquire ttl => exact absurd rfl (other ttl)
    | releaseOne | releaseAll | extend => simp [Command.apply, seen, foreign]

/-- A release or an extension by the owner of the hash remains to be considered. -/
theorem follows_of_owner {command : Command} (other : ∀ ttl, command ≠ .acquire ttl)
    (owned : ∀ fields count stop, db.lookup now key = some ⟨.hash fields, some stop⟩ →
      Fields fields token count → live now (recordAt key db) = some ⟨token, count, stop⟩ →
      Follows key token now db command) : Follows key token now db command := by
  rcases sound.lookup now with ⟨_, lapsed⟩ | ⟨fields, owner, count, stop, found, shape, held⟩
  · exact sound.follows_missed other (by simp [lapsed])
  · by_cases same : owner = token
    · subst same
      exact owned fields count stop found shape held
    · refine sound.follows_missed other ?_
      intro r seen
      obtain rfl := Option.some.inj (held.symm.trans seen)
      exact same

theorem follows_acquire (token : String) (ttl now : Nat) :
    Follows key token now db (.acquire ttl) := by
  have counts (fields : Hash) (stop : Option Nat) : Counts key (db.put key ⟨.hash fields, stop⟩) :=
    sound.counter.congr fun _ distinct => Keyspace.put_of_ne distinct
  rcases sound.lookup now with ⟨missing, lapsed⟩ | ⟨fields, owner, count, stop, found, shape, held⟩
  · have shape : Fields (((∅ : Hash).insert "owner" (.raw token)).insert "count" (.int 1)) token 1 :=
      ⟨by rw [AList.lookup_insert_ne (by decide), AList.lookup_insert], AList.lookup_insert _⟩
    obtain ⟨fence, after, ran, whole, record⟩ :=
      exec_grant (counts _ none) now ttl Keyspace.lookup_put_self shape 1
    refine ⟨1, fence, after, ?_, whole, ?_⟩
    · simpa [Command.script, acquire, missing, Script.exec_hset_missing missing] using ran
    · simp [Command.apply, lapsed, record]
  · by_cases same : owner = token
    · subst same
      have running := (Keyspace.lookup_eq_some.mp found).2
      obtain ⟨fence, after, ran, whole, record⟩ :=
        exec_grant (counts _ (some stop)) now ttl
          (Keyspace.lookup_put_live (by simpa using running)) (shape.insert_count (count + 1)) 2
      refine ⟨2, fence, after, ?_, whole, ?_⟩
      · simpa [Command.script, acquire, found, Script.exec_hget found, shape.owner,
          Script.exec_hincrby found shape.count] using ran
      · simp [Command.apply, held, record]
    · refine ⟨0, 0, db, ?_, sound, ?_⟩
      · simp [Command.script, acquire, found, Script.exec_hget found, shape.owner, same]
      · simp [Command.apply, held, same]

theorem follows_releaseOne (token : String) (refresh now : Nat) :
    Follows key token now db (.releaseOne refresh) := by
  apply sound.follows_of_owner (by simp)
  intro fields count stop found shape held
  have smaller := shape.insert_count (count + -1)
  have left : (db.put key ⟨.hash (fields.insert "count" (.int (count + -1))), some stop⟩).lookup now key =
      _ := Keyspace.lookup_put_live (Keyspace.live_of_lookup found)
  have decremented := Script.exec_hincrby found shape.count (-1)
  by_cases last : count + -1 ≤ 0
  · refine ⟨0, 0, db.erase key, ?_, sound.erased, ?_⟩
    · simp [Command.script, releaseOne, found, Script.exec_hget found, shape.owner, decremented,
        last, Script.exec_del, left, Keyspace.erase_put]
    · have done : count - 1 ≤ 0 := last
      simp [Command.apply, held, done, recordAt_none Keyspace.erase_self]
  · have more : ¬ count - 1 ≤ 0 := last
    by_cases positive : 0 < refresh
    · refine ⟨count + -1, 0, db.put key ⟨.hash _, some (now + refresh)⟩, ?_,
        sound.rewritten smaller _, ?_⟩
      · simp [Command.script, releaseOne, found, Script.exec_hget found, shape.owner, decremented,
          last, positive, Script.exec_pexpire, left, Keyspace.put_put, Keyspace.refresh,
          Nat.ne_of_gt positive]
      · simp only [Command.apply, held, if_true, more, if_false, positive,
          recordAt_hash Keyspace.put_self smaller]
        rfl
    · refine ⟨count + -1, 0, db.put key ⟨.hash _, some stop⟩, ?_, sound.rewritten smaller _, ?_⟩
      · simp [Command.script, releaseOne, found, Script.exec_hget found, shape.owner, decremented,
          last, positive]
      · simp only [Command.apply, held, if_true, more, if_false, positive,
          recordAt_hash Keyspace.put_self smaller]
        rfl

theorem follows_releaseAll (token : String) (now : Nat) :
    Follows key token now db .releaseAll := by
  apply sound.follows_of_owner (by simp)
  intro fields count stop found shape held
  refine ⟨1, 0, db.erase key, ?_, sound.erased, ?_⟩
  · simp [Command.script, releaseAll, found, Script.exec_hget found, shape.owner, Script.exec_del]
  · simp [Command.apply, held, recordAt_none Keyspace.erase_self]

theorem follows_extend (token : String) (ttl now : Nat) :
    Follows key token now db (.extend ttl) := by
  apply sound.follows_of_owner (by simp)
  intro fields count stop found shape held
  have counts : Counts key (db.refresh now key (.hash fields) ttl) :=
    sound.counter.congr fun _ distinct => Keyspace.refresh_of_ne distinct
  refine ⟨1, 0, db.refresh now key (.hash fields) ttl, ?_,
    refreshed counts shape Keyspace.refresh_self, ?_⟩
  · simp [Command.script, extend, found, Script.exec_hget found, shape.owner, Script.exec_pexpire]
  · simp [Command.apply, held, recordAt_refreshed shape Keyspace.refresh_self]

/-- The store follows the record under every script. -/
theorem follows (token : String) (now : Nat) (command : Command) :
    Follows key token now db command := by
  cases command with
  | acquire ttl => exact sound.follows_acquire token ttl now
  | releaseOne refresh => exact sound.follows_releaseOne token refresh now
  | releaseAll => exact sound.follows_releaseAll token now
  | extend ttl => exact sound.follows_extend token ttl now

end Sound
end

end Palisade.Reentrant
