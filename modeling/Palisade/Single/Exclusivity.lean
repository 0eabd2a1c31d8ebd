import Palisade.Transition
import Palisade.Single.Scripts

/-! Runs of the mutex scripts on one key, by any number of clients in any order
and with any delays. Beside the store, the state keeps a ledger of the last
successful grant or extension of every token that has not been released since;
no script reads it. -/
namespace Palisade.Single
open Redis Lease Transition

inductive Call where
  | acquire (token : String) (ttl : Nat)
  | extend (token : String) (ttl : Nat)
  | release (token : String)
  deriving DecidableEq

/-- The script invocation with the arguments the Rust callers pass; the answer
is a status and, for a grant, its fence. -/
def Call.script (key : String) : Call → Script (Nat × Int)
  | .acquire token ttl => Single.acquire key (fenceKeyFor key) token ttl (fenceTtlMs ttl)
  | .extend token ttl => do
    return (← Single.extend key (fenceKeyFor key) token ttl (fenceTtlMs ttl), 0)
  | .release token => do
    return (← Single.release key token, 0)

def Call.event : Call → Except Fault (Nat × Int) → Event String
  | .acquire token ttl, .ok (status, _) => acquireEvent token ttl status
  | .extend token ttl, .ok (1, _) => .renew token ttl
  | .release token, .ok (1, _) => .free token
  | _, _ => .idle

structure Mutex where
  now : Nat
  db : Keyspace
  leases : Ledger String

structure Timed where
  delay : Nat
  call : Call
  deriving DecidableEq

def Mutex.exec (key : String) (s : Mutex) (action : Timed) : Mutex :=
  let now := s.now + action.delay
  let (reply, db) := (action.call.script key).exec now s.db
  ⟨now, db, s.leases.record now (action.call.event reply)⟩

/-- Both keys start out absent; the rest of the store is arbitrary. -/
def mutex (key : String) : Machine Mutex Timed where
  initial s := s.db key = none ∧ s.db (fenceKeyFor key) = none ∧ s.leases = fun _ => none
  step s action := some (s.exec key action)

/-- What is under a lock key and its counter, however the counter is retained. -/
structure Shaped (key : String) (db : Keyspace) : Prop where
  lock : ∀ entry, db key = some entry →
    ∃ token stop, entry = ⟨.string (.raw token), some stop⟩
  counts : Counts key db

namespace Shaped
variable {key token : String} {db : Keyspace} {now ttl : Nat}

/-- A live lock key holds somebody's token. -/
theorem lookup_lock (shaped : Shaped key db) (now : Nat) : db.lookup now key = none ∨
    ∃ token stop, db.lookup now key = some ⟨.string (.raw token), some stop⟩ := by
  cases found : db.lookup now key with
  | none => exact .inl rfl
  | some entry =>
    obtain ⟨token, stop, rfl⟩ := shaped.lock entry (Keyspace.lookup_eq_some.mp found).1
    exact .inr ⟨token, stop, rfl⟩

theorem exec_acquire (shaped : Shaped key db) (positive : ttl ≠ 0) :
    (acquire key (fenceKeyFor key) token ttl fenceTtl).exec now db =
      if holder key db now = none ∨ holder key db now = some token then
        (.ok (if holder key db now = none then 1 else 2, nextFence (fenceKeyFor key) db now),
          (db.refresh now key (.string (.raw token)) ttl).refresh now (fenceKeyFor key)
            (.string (.int (nextFence (fenceKeyFor key) db now))) fenceTtl)
      else (.ok (0, 0), db) := by
  have untouched : (db.refresh now key (.string (.raw token)) ttl) (fenceKeyFor key) = db (fenceKeyFor key) :=
    Keyspace.refresh_of_ne (fenceKeyFor_ne key)
  have fence : nextFence (fenceKeyFor key) (db.refresh now key (.string (.raw token)) ttl) now =
      nextFence (fenceKeyFor key) db now := by
    simp only [nextFence, Keyspace.lookup_congr untouched]
  have counted : ∀ entry, (db.refresh now key (.string (.raw token)) ttl) (fenceKeyFor key) = some entry →
      ∃ fence, entry.value = .string (.int fence) := by
    intro entry stored
    obtain ⟨fence, stop, rfl⟩ := shaped.counts entry (untouched.symm.trans stored)
    exact ⟨fence, rfl⟩
  have allocated (status : Nat) : (allocate (fenceKeyFor key) fenceTtl status).exec now
      (db.refresh now key (.string (.raw token)) ttl) = _ := exec_allocate status counted
  rw [Single.exec_acquire, if_neg positive]
  rcases shaped.lookup_lock now with free | ⟨owner, stop, held⟩
  · simp [holder, free, allocated, fence]
  · by_cases same : owner = token
    · subst same
      simp [holder, held, allocated, fence]
    · simp [holder, held, same]

theorem exec_extend (shaped : Shaped key db) (token : String) (ttl fenceTtl now : Nat) :
    (extend key (fenceKeyFor key) token ttl fenceTtl).exec now db =
      if holder key db now = some token then
        (.ok 1, ((Script.pexpire (fenceKeyFor key) fenceTtl).exec now
          (db.refresh now key (.string (.raw token)) ttl)).2)
      else (.ok 0, db) := by
  rw [Single.exec_extend]
  rcases shaped.lookup_lock now with free | ⟨owner, stop, held⟩
  · simp [holder, free]
  · by_cases same : owner = token
    · subst same
      simp [holder, held]
    · simp [holder, held, same]

theorem exec_release (shaped : Shaped key db) (token : String) (now : Nat) :
    (release key token).exec now db =
    if holder key db now = some token then (.ok 1, db.erase key) else (.ok 0, db) := by
  rw [Single.exec_release]
  rcases shaped.lookup_lock now with free | ⟨owner, stop, held⟩
  · simp [holder, free]
  · by_cases same : owner = token
    · subst same
      simp [holder, held]
    · simp [holder, held, same]

end Shaped

/-- What the scripts ever store under the two keys. -/
structure Sound (key : String) (db : Keyspace) : Prop where
  lock : ∀ entry, db key = some entry →
    ∃ token stop, entry = ⟨.string (.raw token), some stop⟩
  counter : ∀ entry, db (fenceKeyFor key) = some entry →
    ∃ fence stop, entry = ⟨.string (.int fence), some stop⟩

namespace Sound
variable {key token : String} {db after : Keyspace} {now ttl : Nat}

theorem refresh_lock (sound : Sound key db) :
    Sound key (db.refresh now key (.string (.raw token)) ttl) where
  lock entry stored := by
    rw [Keyspace.refresh_self] at stored
    exact ⟨token, now + ttl, (Keyspace.refreshed_eq_some.mp stored).2⟩
  counter entry stored :=
    sound.counter entry (by rwa [Keyspace.refresh_of_ne (fenceKeyFor_ne key)] at stored)

theorem refresh_counter {fence : Int} (sound : Sound key db) :
    Sound key (db.refresh now (fenceKeyFor key) (.string (.int fence)) ttl) where
  lock entry stored :=
    sound.lock entry (by rwa [Keyspace.refresh_of_ne (fenceKeyFor_ne key).symm] at stored)
  counter entry stored := by
    rw [Keyspace.refresh_self] at stored
    exact ⟨fence, now + ttl, (Keyspace.refreshed_eq_some.mp stored).2⟩

theorem erase_lock (sound : Sound key db) : Sound key (db.erase key) where
  lock entry stored := by simp at stored
  counter entry stored :=
    sound.counter entry (by rwa [Keyspace.erase_of_ne (fenceKeyFor_ne key)] at stored)

theorem counter_value (sound : Sound key db) :
    ∀ entry, db (fenceKeyFor key) = some entry → ∃ fence, entry.value = .string (.int fence) := by
  intro entry stored
  obtain ⟨fence, stop, rfl⟩ := sound.counter entry stored
  exact ⟨fence, rfl⟩

theorem pexpire_counter (sound : Sound key db) :
    Sound key ((Script.pexpire (fenceKeyFor key) ttl).exec now db).2 := by
  rw [Script.exec_pexpire]
  cases found : db.lookup now (fenceKeyFor key) with
  | none => exact sound
  | some entry =>
    obtain ⟨fence, shape⟩ := sound.counter_value entry (Keyspace.lookup_eq_some.mp found).1
    simpa only [shape] using sound.refresh_counter

theorem shaped (sound : Sound key db) : Shaped key db where
  lock := sound.lock
  counts entry stored := by
    obtain ⟨fence, stop, rfl⟩ := sound.counter entry stored
    exact ⟨fence, _, rfl⟩

theorem exec_call (sound : Sound key db) (call : Call) (now : Nat) :
    Sound key ((call.script key).exec now db).2 := by
  cases call with
  | acquire token ttl =>
    by_cases zero : ttl = 0
    · simpa [Call.script, Single.exec_acquire, zero] using sound
    · rw [Call.script, sound.shaped.exec_acquire zero]
      split
      · exact sound.refresh_lock.refresh_counter
      · exact sound
  | extend token ttl =>
    simp only [Call.script, Script.exec_bind, sound.shaped.exec_extend]
    split_ifs
    · exact sound.refresh_lock.pexpire_counter
    · exact sound
  | release token =>
    simp only [Call.script, Script.exec_bind, sound.shaped.exec_release]
    split_ifs
    · exact sound.erase_lock
    · exact sound

end Sound

/-- Every script invocation is the lease step that its answer reports. -/
theorem call_step (sound : Sound key db) (call : Call) (now : Nat) :
    Step now (holder key db) (holder key ((call.script key).exec now db).2)
      (call.event ((call.script key).exec now db).1) := by
  cases call with
  | acquire token ttl =>
    by_cases zero : ttl = 0
    · simp only [Call.script, exec_acquire, zero, if_true]
      exact .idle fun _ _ => rfl
    · rcases ran : ((Call.acquire token ttl).script key).exec now db with ⟨reply, after⟩
      obtain ⟨event, step, _, reported⟩ := acquire_step (fenceKeyFor_ne key).symm ran
      have answered : ∃ status fence, reply = .ok (status, fence) := by
        rw [Call.script, sound.shaped.exec_acquire zero] at ran
        split at ran
        · exact ⟨_, _, (congrArg Prod.fst ran).symm⟩
        · exact ⟨_, _, (congrArg Prod.fst ran).symm⟩
      obtain ⟨status, fence, rfl⟩ := answered
      rwa [reported status fence rfl] at step
  | extend token ttl =>
    have ran := sound.shaped.exec_extend token ttl (fenceTtlMs ttl) now
    by_cases owner : holder key db now = some token
    · rw [if_pos owner] at ran
      simpa [Call.script, Call.event, ran] using extend_step (fenceKeyFor_ne key).symm ran
    · rw [if_neg owner] at ran
      simpa [Call.script, Call.event, ran] using extend_step (fenceKeyFor_ne key).symm ran
  | release token =>
    have ran := sound.shaped.exec_release token now
    by_cases owner : holder key db now = some token
    · rw [if_pos owner] at ran
      simpa [Call.script, Call.event, ran] using release_step ran
    · rw [if_neg owner] at ran
      simpa [Call.script, Call.event, ran] using release_step ran

/-- The store is well formed and backs every lease in the ledger. -/
structure Mutex.Inv (key : String) (s : Mutex) : Prop where
  sound : Sound key s.db
  backed : Backed s.leases (holder key s.db) s.now

theorem Mutex.Inv.exec {s : Mutex} (inv : s.Inv key) (action : Timed) :
    (s.exec key action).Inv key :=
  ⟨inv.sound.exec_call action.call _,
    (inv.backed.later (Nat.le_add_right _ _)).step (call_step inv.sound action.call _)⟩

theorem Mutex.inv_reachable {s : Mutex} (reach : (mutex key).Reachable s) : s.Inv key := by
  refine Machine.Reachable.invariant ?_ ?_ reach
  · rintro s ⟨lock, counter, empty⟩
    refine ⟨⟨by simp [lock], by simp [counter]⟩, ?_⟩
    intro who term recorded
    simp [empty] at recorded
  · rintro s action t inv stepped
    cases stepped
    exact inv.exec action

/-- Whatever the interleaving: until the lease of `owner`'s last unreleased
grant or extension ends, no other token acquires; and a release or extension
by a token that is not the holder answers 0 and changes nothing at all. -/
theorem lease_exclusive {s : Mutex} (reach : (mutex key).Reachable s) {now : Nat}
    (later : s.now ≤ now) :
    (∀ owner term, s.leases owner = some term → now < term.ends →
      ∀ other ≠ owner, ∀ ttl status fence,
        (((Call.acquire other ttl).script key).exec now s.db).1 = .ok (status, fence) →
          status = 0) ∧
    ∀ token, holder key s.db now ≠ some token →
      ((Call.release token).script key).exec now s.db = (.ok (0, 0), s.db) ∧
      ∀ ttl, ((Call.extend token ttl).script key).exec now s.db = (.ok (0, 0), s.db) := by
  have inv := Mutex.inv_reachable reach
  constructor
  · intro owner term recorded running other distinct ttl status fence answered
    have held := inv.backed owner term recorded now later running
    by_cases zero : ttl = 0
    · simp [Call.script, exec_acquire, zero] at answered
    · rw [Call.script, inv.sound.shaped.exec_acquire zero, held] at answered
      simp only [reduceCtorEq, Option.some.injEq, distinct.symm, or_self, if_false,
        Except.ok.injEq, Prod.mk.injEq] at answered
      exact answered.1.symm
  · intro token stranger
    constructor
    · simp only [Call.script, Script.exec_bind, inv.sound.shaped.exec_release, stranger, if_false,
        Script.exec_pure]
    · intro ttl
      simp only [Call.script, Script.exec_bind, inv.sound.shaped.exec_extend, stranger, if_false,
        Script.exec_pure]

/-- One grant of 100 ms at time 0: nobody else acquires at time 99, and a
stranger's release leaves the store as it is. -/
theorem lease_exclusive_held :
    let s := Mutex.exec "k" ⟨0, fun _ => none, fun _ => none⟩ ⟨0, .acquire "a" 100⟩
    (∀ ttl status fence, (((Call.acquire "b" ttl).script "k").exec 99 s.db).1 =
      .ok (status, fence) → status = 0) ∧
    ((Call.release "b").script "k").exec 99 s.db = (.ok (0, 0), s.db) := by
  intro s
  have reach : (mutex "k").Reachable s := .next (.initial ⟨rfl, rfl, rfl⟩) trivial rfl
  obtain ⟨exclusive, unchanged⟩ := lease_exclusive reach (show s.now ≤ 99 by decide)
  exact ⟨exclusive "a" ⟨0, 100⟩ (by decide) (by decide) "b" (by decide),
    (unchanged "b" (by decide)).1⟩

end Palisade.Single
