import Palisade.Redis.Mortal
import Palisade.Single.Semantic
import Palisade.Reentrant.Scripts
import Palisade.ReadWrite.Scripts
import Palisade.Semaphore.Scripts
import Palisade.Fair.Handles

/-! The expiry of the fence counters under all primitives of one store, on any keys. Any
name may also be used as a key, so that what is under a counter's name is not always a
counter. Only the mutex scripts set the expiry of a counter; the others count and leave
it as it is. -/
namespace Palisade.Counters
open Redis Single Transition Script

section
variable {names : Set String} {key fenceKey token : String} {now ttl : Nat} {db : Keyspace}

/-! The mutex scripts, and those of the others that do not count. -/

section
variable (mortal : db.Mortal names)
include mortal

theorem mutex_acquire_keeps {fenceTtl : Nat} :
    Keeps names now (Single.acquire key fenceKey token ttl fenceTtl) db := by
  have counts (status : Nat) {db : Keyspace} (mortal : db.Mortal names) : Keeps names now (do
      let fence ← incr fenceKey
      let _ ← pexpire fenceKey fenceTtl
      return (status, fence)) db :=
    wp_bind (wp_incr mortal fun _ value => keeps_pexpire (mortal.overwrite value))
  refine wp_bind (wp_setNxPx mortal ?_ fun value stop => ?_)
  · refine wp_bind ((reads_get key).wp mortal fun payload _ => ?_)
    split
    · exact wp_bind (wp_pexpire_mortal mortal.loosen fun _ _ mortal _ => counts 2 mortal)
    · exact mortal
  · exact counts 1 (mortal.put (by simp))

theorem mutex_extend_keeps {fenceTtl : Nat} :
    Keeps names now (Single.extend key fenceKey token ttl fenceTtl) db := by
  refine wp_bind ((reads_get key).wp mortal fun payload _ => ?_)
  split
  · exact wp_bind (wp_pexpire_mortal mortal.loosen fun _ _ mortal _ => keeps_pexpire mortal.loosen)
  · exact mortal

theorem mutex_release_keeps : Keeps names now (Single.release key token) db := by
  refine wp_bind ((reads_get key).wp mortal fun payload _ => ?_)
  split
  · exact wp_del_mortal mortal.loosen fun _ _ mortal _ => mortal
  · exact mortal

theorem reentrant_releaseOne_keeps {refresh : Nat} :
    Keeps names now (Reentrant.releaseOne key token refresh) db := by
  refine wp_bind ((reads_existsKey key).wp mortal fun present seen => ?_)
  cases seen
  split
  · exact mortal
  rename_i live
  refine wp_bind ((reads_hget key "owner").wp mortal fun owner _ => ?_)
  split
  · exact mortal
  refine wp_bind (wp_hincrby mortal fun count value => ?_)
  have mortal := mortal.overwrite_live (Bool.eq_true_of_not_eq_false live) value
  split
  · exact keeps_del mortal.loosen
  · split
    · exact keeps_pexpire mortal.loosen
    · exact mortal

theorem reentrant_releaseAll_keeps : Keeps names now (Reentrant.releaseAll key token) db := by
  refine wp_bind ((reads_existsKey key).wp mortal fun _ _ => ?_)
  split
  · exact mortal
  refine wp_bind ((reads_hget key "owner").wp mortal fun owner _ => ?_)
  split
  · exact keeps_del mortal.loosen
  · exact mortal

theorem reentrant_extend_keeps : Keeps names now (Reentrant.extend key token ttl) db := by
  refine wp_bind ((reads_existsKey key).wp mortal fun _ _ => ?_)
  split
  · exact mortal
  refine wp_bind ((reads_hget key "owner").wp mortal fun owner _ => ?_)
  split
  · exact keeps_pexpire mortal.loosen
  · exact mortal

theorem readRelease_keeps {refresh : Nat} : Keeps names now (ReadWrite.readRelease key token refresh) db := by
  refine wp_bind ((reads_existsKey key).wp mortal fun _ _ => ?_)
  split
  · exact mortal
  refine wp_bind ((reads_hget key "mode").wp mortal fun mode _ => ?_)
  split
  · exact mortal
  refine wp_bind ((reads_hexists key _).wp mortal fun registered _ => ?_)
  split
  · exact mortal
  refine wp_bind (wp_hdel mortal fun _ _ cut => ?_)
  -- The hash may be gone by now, and the count starts it anew without an expiry.
  refine wp_bind (wp_hincrby (mortal.cut cut) fun readers value => ?_)
  split
  · exact keeps_del ((mortal.cut cut).overwrite value)
  · exact keeps_pexpire ((mortal.cut cut).overwrite value)

theorem writeRelease_keeps : Keeps names now (ReadWrite.writeRelease key token) db := by
  refine wp_bind ((reads_existsKey key).wp mortal fun _ _ => ?_)
  split
  · exact mortal
  refine wp_bind ((reads_hget key "mode").wp mortal fun mode _ => ?_)
  split
  · refine wp_bind ((reads_hget key "owner").wp mortal fun owner _ => ?_)
    split
    · exact keeps_del mortal.loosen
    · exact mortal
  · exact mortal

theorem readWrite_extend_keeps : Keeps names now (ReadWrite.extend key token ttl) db := by
  refine wp_bind ((reads_existsKey key).wp mortal fun _ _ => ?_)
  split
  · exact mortal
  refine wp_bind ((reads_hget key "mode").wp mortal fun mode _ => ?_)
  split
  · exact keeps_pexpire mortal.loosen
  refine wp_bind ((reads_hget key "mode").wp mortal fun mode _ => ?_)
  split
  · refine wp_bind ((reads_hget key "owner").wp mortal fun owner _ => ?_)
    split
    · exact keeps_pexpire mortal.loosen
    · exact mortal
  · exact mortal

theorem semaphore_extend_keeps : Keeps names now (Semaphore.extend key token ttl) db := by
  refine wp_bind (reads_time.wp mortal fun _ _ => ?_)
  refine wp_bind ((reads_zscore key token).wp mortal fun score _ => ?_)
  split
  · exact wp_bind (wp_zadd mortal fun value => keeps_pexpire (mortal.overwrite value))
  · exact mortal

theorem semaphore_release_keeps : Keeps names now (Semaphore.release key token) db := by
  refine wp_bind (wp_zrem mortal fun removed after cut => ?_)
  have mortal := mortal.cut cut
  split
  · refine wp_bind ((reads_zcard key).wp mortal fun left _ => ?_)
    split
    · exact keeps_del mortal.loosen
    · exact mortal
  · exact mortal

theorem fair_extend_keeps : Keeps names now (Fair.extend key token ttl) db := by
  refine wp_bind ((reads_get key).wp mortal fun payload _ => ?_)
  split
  · exact wp_bind (wp_pexpire_mortal mortal.loosen fun _ _ mortal _ => mortal)
  · exact mortal

theorem handOff_keeps {queueKey : String} {px : Payload} {hbPrefix : Option String} (more : Nat) :
    Keeps names now (Fair.handOff key queueKey px hbPrefix more) db := by
  induction more generalizing db with
  | zero => exact mortal
  | succ more ih =>
    refine wp_bind (wp_rpop mortal fun item after cut => ?_)
    have mortal := mortal.cut cut
    cases item with
    | none => exact ih mortal
    | some waiter =>
      refine wp_bind ((Fair.reads_beats hbPrefix waiter).wp mortal fun alive _ => ?_)
      split
      · exact wp_setPx mortal fun value stop => mortal.put (by simp)
      · exact ih mortal

theorem fair_release_keeps {queueKey : Option String} {px : Payload} {hbPrefix : Option String} :
    Keeps names now (Fair.release key queueKey token px hbPrefix) db := by
  refine wp_bind ((reads_get key).wp mortal fun payload _ => ?_)
  split
  · exact mortal
  refine wp_bind (wp_del_mortal mortal.loosen fun _ _ mortal _ => ?_)
  refine wp_bind ((reads_required _ _).wp mortal fun queueKey _ => ?_)
  refine wp_bind ((reads_llen queueKey).wp mortal fun length _ => ?_)
  exact wp_bind (handOff_keeps mortal length)

theorem enqueue_keeps {queueKey hbKey : String} {hbTtl : Nat} (other : queueKey ∉ names) :
    Keeps names now (Fair.enqueue queueKey hbKey token ttl hbTtl) db := by
  have beat {db : Keyspace} (mortal : db.Mortal names) : Keeps names now (do
      setPx hbKey (.int 1) (.int hbTtl)
      let _ ← pexpire queueKey (ttl * 10)
      return ((0, 0) : Int × Int)) db :=
    wp_bind (wp_setPx mortal fun value stop => keeps_pexpire (mortal.put (by simp)).loosen)
  refine wp_bind ((reads_lpos queueKey token).wp mortal fun place _ => ?_)
  split
  · refine wp_bind (wp_lpush mortal fun value => beat ?_)
    exact (mortal.overwrite value).mono (by simp [other])
  · exact beat mortal

end

/-! The grants that count. They need a counter that is there already. -/

/-- The field of the hash under a key, if it is one. -/
def field (db : Keyspace) (now : Nat) (key name : String) : Option Payload :=
  match db.lookup now key with
  | some ⟨.hash fields, _⟩ => fields.lookup name
  | _ => none

theorem field_of_hash {fields : Hash} (seen : ((Script.hash key).exec now db).1 = .ok fields)
    (name : String) : field db now key name = fields.lookup name := by
  match present : db.lookup now key with
  | none =>
    rw [exec_hash_missing present] at seen
    cases seen
    simp [field, present]
  | some ⟨.hash fields, _⟩ =>
    rw [exec_hash present] at seen
    cases seen
    simp [field, present]
  | some ⟨.string _, _⟩ | some ⟨.zset _, _⟩ | some ⟨.list _, _⟩ => simp [Script.hash, present] at seen

theorem field_of_hget {name : String} {found : Option Payload}
    (seen : ((hget key name).exec now db).1 = .ok found) : field db now key name = found := by
  rcases ran : (Script.hash key).exec now db with ⟨reply, after⟩
  simp only [hget, exec_bind, ran] at seen
  cases reply with
  | error fault => contradiction
  | ok fields =>
    cases seen
    exact field_of_hash (by rw [ran]) name

theorem field_of_hexists {name : String} (seen : ((hexists key name).exec now db).1 = .ok false) :
    field db now key name = none := by
  rcases ran : (Script.hash key).exec now db with ⟨reply, after⟩
  simp only [hexists, exec_bind, ran] at seen
  cases reply with
  | error fault => contradiction
  | ok fields =>
    rw [field_of_hash (by rw [ran]) name]
    simpa using seen

/-- The lock is the caller's, or it is free and nobody waits: a fair acquire that passes no
heartbeat prefix stops at a waiter. -/
def fairDue (key token : String) (ttl now : Nat) (db : Keyspace) : Bool :=
  match db.lookup now key with
  | some ⟨.string payload, _⟩ => decide (payload = .raw token)
  | some _ => false
  | none => decide (ttl ≠ 0) && match db.lookup now (Fair.queueKeyFor key) with
    | none | some ⟨.list [], _⟩ => true
    | some _ => false

/-- A semaphore has a permit left once the ended ones are gone. -/
def semaphoreDue (key : String) (maxPermits now : Nat) (db : Keyspace) : Bool :=
  match db.lookup now key with
  | none => decide (0 < maxPermits)
  | some ⟨.zset members, _⟩ => decide ((Semaphore.pruned now members).keys.length < maxPermits)
  | some _ => false

/-- Setting the expiry of the lock and counting ends most grants. -/
theorem renew_keeps {α : Type} {a : α} (loose : db.Mortal (names \ {key})) (distinct : fenceKey ≠ key)
    (live : (db.lookup now fenceKey).isSome) : Keeps names now (do
      let _ ← pexpire key ttl
      return (a, ← incr fenceKey)) db := by
  refine wp_bind (wp_pexpire_mortal loose fun _ after mortal same => ?_)
  rw [← Keyspace.lookup_congr (same fenceKey distinct)] at live
  exact keeps_incr mortal live

section
variable (mortal : db.Mortal names) (distinct : fenceKey ≠ key)
include mortal distinct

/-- The same after a value was written under the lock key. -/
theorem written_keeps {α : Type} {a : α} (live : (db.lookup now fenceKey).isSome) (value : Value) :
    Keeps names now (do
      let _ ← pexpire key ttl
      return (a, ← incr fenceKey)) (db.overwrite now key value) := by
  refine renew_keeps (mortal.overwrite value) distinct ?_
  rwa [Keyspace.lookup_congr (Keyspace.overwrite_of_ne distinct)]

/-- Taking a free lock and counting. -/
theorem taken_keeps {α : Type} {a : α} (live : ttl ≠ 0 → (db.lookup now fenceKey).isSome) :
    Keeps names now (do
      setPx key (.raw token) (.int ttl)
      return (a, ← incr fenceKey)) db := by
  refine wp_bind ?_
  by_cases zero : ttl = 0
  · subst zero
    exact mortal
  · have live := live zero
    rw [← Keyspace.lookup_congr (Keyspace.put_of_ne distinct)] at live
    simp only [wp, exec_setPx _ (Nat.pos_of_ne_zero zero)]
    exact keeps_incr (mortal.put (by simp)) live

theorem reentrant_acquire_keeps
    (counted : db.lookup now key = none ∨ field db now key "owner" = some (.raw token) →
      (db.lookup now fenceKey).isSome) :
    Keeps names now (Reentrant.acquire key fenceKey token ttl) db := by
  refine wp_bind ((reads_existsKey key).wp mortal fun present seen => ?_)
  cases seen
  split
  · rename_i free
    have live := counted (.inl (by simpa using free))
    exact wp_bind (wp_hset mortal fun value => written_keeps mortal distinct live value)
  refine wp_bind ((reads_hget key "owner").wp mortal fun owner seen => ?_)
  split
  · rename_i own
    have live := counted (.inr ((field_of_hget seen).trans own))
    exact wp_bind (wp_hincrby mortal fun _ value => written_keeps mortal distinct live value)
  · exact mortal

theorem readAcquire_keeps
    (counted : db.lookup now key = none ∨ (field db now key "mode" = some (.raw "r") ∧
        field db now key (ReadWrite.readerField token) = none) → (db.lookup now fenceKey).isSome) :
    Keeps names now (ReadWrite.readAcquire key fenceKey token ttl) db := by
  refine wp_bind ((reads_existsKey key).wp mortal fun present seen => ?_)
  cases seen
  split
  · rename_i free
    have live := counted (.inl (by simpa using free))
    exact wp_bind (wp_hset mortal fun value => written_keeps mortal distinct live value)
  rename_i there
  refine wp_bind ((reads_hget key "mode").wp mortal fun mode seen => ?_)
  split
  · rename_i shared
    refine wp_bind ((reads_hexists key _).wp mortal fun registered asked => ?_)
    split
    · rename_i fresh
      rw [fresh] at asked
      have live := counted (.inr ⟨(field_of_hget seen).trans shared, field_of_hexists asked⟩)
      refine wp_bind (wp_hincrby mortal fun _ value => ?_)
      have mortal := mortal.overwrite_live (Bool.eq_true_of_not_eq_false there) value
      rw [← Keyspace.lookup_congr (Keyspace.overwrite_of_ne distinct)] at live
      exact wp_bind (wp_hset mortal fun value => written_keeps mortal distinct live value)
    · exact mortal
  · exact mortal

theorem writeAcquire_keeps
    (counted : db.lookup now key = none ∨ (field db now key "mode" = some (.raw "w") ∧
        field db now key "owner" = some (.raw token)) → (db.lookup now fenceKey).isSome) :
    Keeps names now (ReadWrite.writeAcquire key fenceKey token ttl) db := by
  refine wp_bind ((reads_existsKey key).wp mortal fun present seen => ?_)
  cases seen
  split
  · rename_i free
    have live := counted (.inl (by simpa using free))
    exact wp_bind (wp_hset mortal fun value => written_keeps mortal distinct live value)
  refine wp_bind ((reads_hget key "mode").wp mortal fun mode seen => ?_)
  split
  · rename_i exclusive
    refine wp_bind ((reads_hget key "owner").wp mortal fun owner asked => ?_)
    split
    · rename_i own
      have live := counted (.inr ⟨(field_of_hget seen).trans exclusive, (field_of_hget asked).trans own⟩)
      exact renew_keeps mortal.loosen distinct live
    · exact mortal
  · exact mortal

theorem semaphore_acquire_keeps {maxPermits : Nat}
    (counted : semaphoreDue key maxPermits now db → (db.lookup now fenceKey).isSome) :
    Keeps names now (Semaphore.acquire key fenceKey token ttl maxPermits) db := by
  refine wp_bind (reads_time.wp mortal fun instant seen => ?_)
  cases seen
  refine wp_bind (wp_zremrangebyscore mortal fun members _ after seen left => ?_)
  have kept := mortal.cut left.cut
  refine wp_bind ((reads_zcard key).wp kept fun count answered => ?_)
  rw [exec_zcard left.at_key] at answered
  cases answered
  split
  · rename_i room
    have live : (db.lookup now fenceKey).isSome := by
      refine counted ?_
      rcases seen with ⟨missing, rfl⟩ | ⟨stop, found⟩
      · simpa [semaphoreDue, missing, retain] using room
      · simp only [semaphoreDue, found]
        exact decide_eq_true room
    rw [← Keyspace.lookup_congr (left.others fenceKey distinct)] at live
    exact wp_bind (wp_zadd kept fun value => written_keeps kept distinct live value)
  · exact kept

end

/-- On a free lock the fair acquire stops at the first waiter, or takes the lock and counts. -/
theorem fair_acquire_free (free : db.lookup now key = none) (hbKey token : String) (ttl hbTtl : Nat) :
    (∃ fault, (Fair.acquire key (Fair.queueKeyFor key) (fenceKeyFor key) hbKey token ttl hbTtl none).exec
      now db = (.error fault, db)) ∨
    (ttl ≠ 0 → fairDue key token ttl now db) ∧
      (Fair.acquire key (Fair.queueKeyFor key) (fenceKeyFor key) hbKey token ttl hbTtl none).exec now db =
        (do setPx key (.raw token) (.int ttl); return (1, ← incr (fenceKeyFor key)) : Script (Int × Int)).exec
          now db := by
  have unqueued (empty : (Script.list (Fair.queueKeyFor key)).exec now db = (.ok [], db)) :
      (Fair.acquire key (Fair.queueKeyFor key) (fenceKeyFor key) hbKey token ttl hbTtl none).exec now db =
        (do setPx key (.raw token) (.int ttl); return (1, ← incr (fenceKeyFor key)) : Script (Int × Int)).exec
          now db := by
    simp [Fair.acquire, exec_get_none free, free, llen, empty, Fair.discardDead, lrangeLast]
  cases queued : db.lookup now (Fair.queueKeyFor key) with
  | none => exact .inr ⟨by simp [fairDue, free, queued], unqueued (exec_list_missing queued)⟩
  | some entry =>
    obtain ⟨value, stop⟩ := entry
    cases value with
    | list items =>
      cases items with
      | nil => exact .inr ⟨by simp [fairDue, free, queued], unqueued (exec_list queued)⟩
      | cons item items =>
        exact .inl ⟨_, Fair.exec_acquire_unprefixed free queued List.getLast?_cons ttl hbTtl hbKey⟩
    | string | hash | zset =>
      exact .inl ⟨.wrongType, by simp [Fair.acquire, exec_get_none free, free, llen, Script.list, queued]⟩

theorem fair_acquire_keeps {hbKey : String} {hbTtl : Nat} (mortal : db.Mortal names)
    (other : Fair.queueKeyFor key ∉ names)
    (counted : fairDue key token ttl now db → (db.lookup now (fenceKeyFor key)).isSome) :
    Keeps names now (Fair.acquire key (Fair.queueKeyFor key) (fenceKeyFor key) hbKey token ttl hbTtl none) db := by
  cases found : db.lookup now key with
  | none =>
    rcases fair_acquire_free found hbKey token ttl hbTtl with ⟨fault, stopped⟩ | ⟨due, ran⟩
    · simp only [Keeps, wp, stopped]
      exact mortal
    · unfold Keeps wp
      rw [ran]
      exact taken_keeps mortal (fenceKeyFor_ne key) fun positive => counted (due positive)
  | some entry =>
    refine wp_bind ((reads_get key).wp mortal fun payload seen => ?_)
    split
    · rename_i own
      subst own
      have live : (db.lookup now (fenceKeyFor key)).isSome := by
        refine counted ?_
        obtain ⟨value, stop⟩ := entry
        cases value with
        | string kept =>
          rw [exec_get_string found] at seen
          simpa [fairDue, found] using seen
        | hash | zset | list => simp [Script.get, found] at seen
      exact renew_keeps mortal.loosen (fenceKeyFor_ne key) live
    · refine wp_bind ((reads_existsKey key).wp mortal fun present seen => ?_)
      cases seen
      rw [found]
      exact enqueue_keeps mortal other

end

/-! Runs of all primitives on any keys of one store. -/

inductive Operation (N : Type) where
  /-- The mutex, semantic acquires and the data they look at. -/
  | mutex (operation : Semantic.Operation N)
  | reentrant (token : String) (command : Reentrant.Command)
  | readWrite (token : String) (command : ReadWrite.Command)
  | semaphore (maxPermits : Nat) (token : String) (command : Semaphore.Command)
  | fairAcquire (token : String) (ttl : Nat)
  | fairRelease (token : String)
  /-- The release that a dropped handle sends. -/
  | fairDrop (token : String)
  | fairExtend (token : String) (ttl : Nat)

variable {N : Type} (exceeds : Option Payload → N → Bool)

/-- What a call leaves of the store, with the keys and arguments its caller passes. -/
def Operation.exec (key : String) (now : Nat) (db : Keyspace) : Operation N → Keyspace
  | .mutex operation => ((operation.script exceeds key).exec now db).2
  | .reentrant token command => ((command.script key token).exec now db).2
  | .readWrite token command => ((command.script key token).exec now db).2
  | .semaphore maxPermits token command => ((command.script key maxPermits token).exec now db).2
  | .fairAcquire token ttl => ((Fair.acquire key (Fair.queueKeyFor key) (fenceKeyFor key)
      (Fair.hbKeyFor key token) token ttl (max ttl 2000) none).exec now db).2
  | .fairRelease token => ((Fair.release key (some (Fair.queueKeyFor key)) token (.int 30000)
      (some (Fair.hbPrefixFor key))).exec now db).2
  | .fairDrop token => ((Fair.release key none token (.raw (Fair.hbPrefixFor key)) none).exec now db).2
  | .fairExtend token ttl => ((Fair.extend key token ttl).exec now db).2

/-- The call finds its lock such that it is granted, by a script that only counts. -/
def Operation.due (key : String) (now : Nat) (db : Keyspace) : Operation N → Bool
  | .mutex (.semantic _ ttl preds) => decide (Semantic.Admits exceeds key ttl preds now db)
  | .reentrant token (.acquire _) =>
    decide (db.lookup now key = none ∨ field db now key "owner" = some (.raw token))
  | .readWrite token (.readAcquire _) => decide (db.lookup now key = none ∨
      (field db now key "mode" = some (.raw "r") ∧ field db now key (ReadWrite.readerField token) = none))
  | .readWrite token (.writeAcquire _) => decide (db.lookup now key = none ∨
      (field db now key "mode" = some (.raw "w") ∧ field db now key "owner" = some (.raw token)))
  | .semaphore maxPermits _ (.acquire _) => semaphoreDue key maxPermits now db
  | .fairAcquire token ttl => fairDue key token ttl now db
  | _ => false

structure Store where
  now : Nat
  db : Keyspace

structure Action (N : Type) where
  delay : Nat
  key : String
  operation : Operation N

/-- No counter is there at the start; the rest of the store is arbitrary. -/
def store : Machine Store (Action N) where
  initial s := ∀ key, s.db (fenceKeyFor key) = none
  step s action :=
    some ⟨s.now + action.delay, action.operation.exec exceeds action.key (s.now + action.delay) s.db⟩

/-- A grant by a script that only counts finds the counter of its key there. -/
def Store.Retained (s : Store) (action : Action N) : Prop :=
  action.operation.due exceeds action.key (s.now + action.delay) s.db = true →
    (s.db.lookup (s.now + action.delay) (fenceKeyFor action.key)).isSome

instance {s : Store} {action : Action N} : Decidable (s.Retained exceeds action) :=
  inferInstanceAs (Decidable (_ → _))

theorem queueKeyFor_not_fence (key : String) : Fair.queueKeyFor key ∉ Set.range fenceKeyFor := by
  rintro ⟨other, same⟩
  have letters := congrArg (fun name => name.toList.reverse.head?) same
  simp [Fair.queueKeyFor, fenceKeyFor] at letters

variable {exceeds}

theorem mutex_keeps {names : Set String} {db : Keyspace} {key : String} {now : Nat}
    (mortal : db.Mortal names) (call : Call) : Keeps names now (call.script key) db := by
  cases call with
  | acquire => exact mutex_acquire_keeps mortal
  | extend => exact wp_bind (mutex_extend_keeps mortal)
  | release => exact wp_bind (mutex_release_keeps mortal)

theorem semantic_keeps {names : Set String} {db : Keyspace} {key token : String} {now ttl : Nat}
    {preds : List (Semantic.Predicate N)} (mortal : db.Mortal names)
    (counted : Semantic.Admits exceeds key ttl preds now db → (db.lookup now (fenceKeyFor key)).isSome) :
    Keeps names now (Semantic.guarded exceeds key token ttl preds) db := by
  refine Semantic.wp_guarded mortal mortal fun admits => ?_
  have live := counted admits
  rw [← Keyspace.lookup_congr (Keyspace.put_of_ne (fenceKeyFor_ne key))] at live
  exact keeps_incr (mortal.put (by simp)) live

/-- Every call leaves all counters with an expiry. -/
theorem exec_mortal {db : Keyspace} (mortal : db.Mortal (Set.range fenceKeyFor)) {key : String} {now : Nat}
    {operation : Operation N}
    (counted : operation.due exceeds key now db = true → (db.lookup now (fenceKeyFor key)).isSome) :
    (operation.exec exceeds key now db).Mortal (Set.range fenceKeyFor) := by
  have distinct := fenceKeyFor_ne key
  cases operation with
  | mutex operation =>
    cases operation with
    | mutex call => exact (mutex_keeps mortal call).state
    | semantic => exact (semantic_keeps mortal fun admits => counted (decide_eq_true admits)).state
    | data entry =>
      rintro name ⟨owner, rfl⟩ counter stored
      simp only [Operation.exec, Semantic.Operation.script,
        Function.update_of_ne (Semantic.fenceKeyFor_ne_dataKeyFor owner key)] at stored
      exact mortal _ ⟨owner, rfl⟩ counter stored
  | reentrant token command =>
    cases command with
    | acquire ttl => exact (reentrant_acquire_keeps mortal distinct fun due => counted (decide_eq_true due)).state
    | releaseOne => exact (wp_bind (reentrant_releaseOne_keeps mortal)).state
    | releaseAll => exact (wp_bind (reentrant_releaseAll_keeps mortal)).state
    | extend => exact (wp_bind (reentrant_extend_keeps mortal)).state
  | readWrite token command =>
    cases command with
    | readAcquire => exact (readAcquire_keeps mortal distinct fun due => counted (decide_eq_true due)).state
    | readRelease => exact (wp_bind (readRelease_keeps mortal)).state
    | writeAcquire => exact (writeAcquire_keeps mortal distinct fun due => counted (decide_eq_true due)).state
    | writeRelease => exact (wp_bind (writeRelease_keeps mortal)).state
    | extend => exact (wp_bind (readWrite_extend_keeps mortal)).state
  | semaphore maxPermits token command =>
    cases command with
    | acquire => exact (semaphore_acquire_keeps mortal distinct counted).state
    | extend => exact (wp_bind (semaphore_extend_keeps mortal)).state
    | release => exact (wp_bind (semaphore_release_keeps mortal)).state
  | fairAcquire => exact (fair_acquire_keeps mortal (queueKeyFor_not_fence key) counted).state
  | fairRelease | fairDrop => exact (fair_release_keeps mortal).state
  | fairExtend => exact (fair_extend_keeps mortal).state

def Store.Mortal (s : Store) : Prop := s.db.Mortal (Set.range fenceKeyFor)

/-- In every run whose counting grants all find their counter, every counter has an expiry,
and once nobody calls any more it is gone. -/
theorem counters_expire {s : Store} (reach : (store exceeds).ReachableWhen (Store.Retained exceeds) s)
    (key : String) :
    (∀ entry, s.db (fenceKeyFor key) = some entry → entry.expireAt ≠ none) ∧
      ∃ idle, ∀ instant, idle ≤ instant → s.db.lookup instant (fenceKeyFor key) = none := by
  have mortal : s.Mortal := by
    refine Machine.ReachableWhen.invariant ?_ ?_ reach
    · rintro s absent name ⟨owner, rfl⟩ entry stored
      cases (absent owner).symm.trans stored
    · rintro s action t mortal counted ⟨⟩
      exact exec_mortal mortal counted
  refine ⟨fun entry => mortal _ ⟨key, rfl⟩ entry, ?_⟩
  cases stored : s.db (fenceKeyFor key) with
  | none => exact ⟨0, fun instant _ => by simp [Keyspace.lookup, stored]⟩
  | some entry =>
    obtain ⟨stop, expires⟩ := Option.ne_none_iff_exists'.mp (mortal _ ⟨key, rfl⟩ entry stored)
    refine ⟨stop, fun instant later => Keyspace.lookup_eq_none.mpr ?_⟩
    intro other same
    cases stored.symm.trans same
    simpa [Entry.expired, expires] using later

/-- A mutex grant of a second, its release and a reentrant grant: the counter stands at 2 and
goes when the mutex's retention of it ends. -/
theorem counters_expire_orders : ∃ s : Store,
    s.db (fenceKeyFor "orders") = some ⟨.string (.int 2), some 10000⟩ ∧
      ∃ idle, ∀ instant, idle ≤ instant → s.db.lookup instant (fenceKeyFor "orders") = none := by
  obtain ⟨s, reach, counter⟩ := (store Semantic.above).exists_reachableWhen (Store.Retained Semantic.above)
    (fun s : Store => s.db (fenceKeyFor "orders") = some ⟨.string (.int 2), some 10000⟩)
    (s := ⟨0, fun _ => none⟩) (fun _ => rfl)
    [⟨0, "orders", .mutex (.mutex (.acquire "a" 1000))⟩, ⟨10, "orders", .mutex (.mutex (.release "a"))⟩,
      ⟨20, "orders", .reentrant "b" (.acquire 5000)⟩] (by decide)
  exact ⟨s, counter, (counters_expire reach "orders").2⟩

/-- The first grant of a reentrant lock leaves a counter that never goes. -/
theorem reentrant_counter_immortal : ¬ ∀ s : Store, (store Semantic.above).Reachable s → ∀ key entry,
    s.db (fenceKeyFor key) = some entry → entry.expireAt ≠ none := by
  intro expires
  obtain ⟨s, reach, counter⟩ := (store Semantic.above).exists_reachableWhen (fun _ _ => True)
    (fun s : Store => s.db (fenceKeyFor "orders") = some ⟨.string (.int 1), none⟩)
    (s := ⟨0, fun _ => none⟩) (fun _ => rfl) [⟨0, "orders", .reentrant "b" (.acquire 5000)⟩] (by decide)
  exact expires s reach "orders" _ counter rfl

end Palisade.Counters
