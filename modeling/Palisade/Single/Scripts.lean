import Palisade.Redis.Script
import Palisade.Core
import Palisade.Lease

/-! The single-instance mutex scripts and what each does to the lock key and to
the fence counter. Statuses are those the scripts return: `acquire.lua` answers
1 for a new holder, 2 for a refresh by the same token and 0 when held elsewhere;
`extend.lua` and `release.lua` answer 1, or 0 when the token is not the owner. -/
namespace Palisade.Single
open Redis Lease

/-- Lock and fence counter share a cluster hash slot through the braces. -/
def fenceKeyFor (key : String) : String := "\x7b" ++ key ++ "\x7d:fence"

theorem fenceKeyFor_ne (key : String) : fenceKeyFor key ≠ key := by
  intro same
  have lengths := congrArg String.length same
  have opening : "\x7b".length = 1 := by decide
  simp only [fenceKeyFor, String.length_append, opening] at lengths
  omega

/-- Fence counters live ten times longer than the lease. -/
def fenceTtlMultiplier : Nat := 10

/-- The retention passed with a lease, in wrapping `u64` arithmetic. -/
def fenceTtlMs (ttlMs : Nat) : Nat := ttlMs * fenceTtlMultiplier % 2 ^ 64

/-- `acquire.lua` -/
def acquire (key fenceKey token : String) (ttl fenceTtl : Nat) : Script (Nat × Int) := do
  if ← Script.setNxPx key (.raw token) ttl then
    let fence ← Script.incr fenceKey
    let _ ← Script.pexpire fenceKey fenceTtl
    return (1, fence)
  if (← Script.get key) = some (.raw token) then
    let _ ← Script.pexpire key ttl
    let fence ← Script.incr fenceKey
    let _ ← Script.pexpire fenceKey fenceTtl
    return (2, fence)
  return (0, 0)

/-- `extend.lua` -/
def extend (key fenceKey token : String) (ttl fenceTtl : Nat) : Script Nat := do
  if (← Script.get key) = some (.raw token) then
    let _ ← Script.pexpire key ttl
    let _ ← Script.pexpire fenceKey fenceTtl
    return 1
  return 0

/-- `release.lua` -/
def release (key token : String) : Script Nat := do
  if (← Script.get key) = some (.raw token) then
    Script.del key
  else
    return 0

variable {key fenceKey token : String} {ttl fenceTtl now : Nat} {db : Keyspace}

/-- The fence allocation that ends both granting branches of `acquire.lua`. -/
def allocate (fenceKey : String) (fenceTtl status : Nat) : Script (Nat × Int) := do
  let fence ← Script.incr fenceKey
  let _ ← Script.pexpire fenceKey fenceTtl
  return (status, fence)

theorem allocate_leaves (distinct : key ≠ fenceKey) (status : Nat) :
    (allocate fenceKey fenceTtl status).Leaves key :=
  Script.leaves_bind (Script.leaves_incr distinct) fun _ =>
    Script.leaves_bind (Script.leaves_pexpire distinct) fun _ => Script.leaves_pure _

/-- The fence the next allocation issues: the counter restarts once it is gone. -/
def nextFence (fenceKey : String) (db : Keyspace) (now : Nat) : Int :=
  match db.lookup now fenceKey with
  | some ⟨.string (.int fence), _⟩ => fence + 1
  | _ => 1

theorem exec_allocate (status : Nat)
    (counter : ∀ entry, db fenceKey = some entry → ∃ fence, entry.value = .string (.int fence)) :
    (allocate fenceKey fenceTtl status).exec now db =
      (.ok (status, nextFence fenceKey db now),
        db.refresh now fenceKey (.string (.int (nextFence fenceKey db now))) fenceTtl) := by
  cases found : db.lookup now fenceKey with
  | none =>
    simp [allocate, nextFence, Script.incr, Script.exec_pexpire, Keyspace.refresh_put, found]
  | some entry =>
    obtain ⟨stored, live⟩ := Keyspace.lookup_eq_some.mp found
    obtain ⟨fence, shape⟩ := counter entry stored
    obtain ⟨value, stop⟩ := entry
    subst shape
    have seen : Entry.expired ⟨.string (.int (fence + 1)), stop⟩ now = false := live
    simp [allocate, nextFence, Script.incr, Script.exec_pexpire, Keyspace.refresh_put, found, seen]

/-- The fence counter of a key is a number wherever it exists. -/
def Counts (key : String) (db : Keyspace) : Prop :=
  ∀ entry, db (fenceKeyFor key) = some entry → ∃ fence stop, entry = ⟨.string (.int fence), stop⟩

theorem Counts.congr {after : Keyspace} (counts : Counts key db)
    (same : ∀ other ≠ key, after other = db other) : Counts key after := by
  intro entry stored
  rw [same _ (fenceKeyFor_ne key)] at stored
  exact counts entry stored

/-- A grant of the other primitives ends by counting a fence. -/
theorem exec_count {α : Type} (counts : Counts key db) (now : Nat) (status : α) : ∃ fence after,
    (do return (status, ← Script.incr (fenceKeyFor key)) : Script (α × Int)).exec now db =
      (.ok (status, fence), after) ∧ after key = db key ∧ Counts key after := by
  have grown (fence : Int) (stop : Option Nat) (after : Keyspace)
      (same : after = db.put (fenceKeyFor key) ⟨.string (.int fence), stop⟩) :
      after key = db key ∧ Counts key after := by
    subst same
    refine ⟨Keyspace.put_of_ne (fenceKeyFor_ne key).symm, ?_⟩
    intro entry stored
    rw [Keyspace.put_self] at stored
    exact ⟨fence, stop, (Option.some.inj stored).symm⟩
  cases found : db.lookup now (fenceKeyFor key) with
  | none =>
    exact ⟨1, _, by simp only [Script.exec_bind, Script.exec_incr, found, Script.exec_pure],
      grown 1 none _ rfl⟩
  | some entry =>
    obtain ⟨fence, stop, rfl⟩ := counts entry (Keyspace.lookup_eq_some.mp found).1
    exact ⟨fence + 1, _, by simp only [Script.exec_bind, Script.exec_incr, found, Script.exec_pure],
      grown (fence + 1) stop _ rfl⟩

/-- Whoever holds the lock leaves its token under the lock key. -/
def holder (key : String) (db : Keyspace) : Forecast String := fun instant =>
  match db.lookup instant key with
  | some ⟨.string (.raw token), _⟩ => some token
  | _ => none

theorem exec_acquire : (acquire key fenceKey token ttl fenceTtl).exec now db =
    if ttl = 0 then (.error .invalidExpire, db)
    else match db.lookup now key with
      | none => (allocate fenceKey fenceTtl 1).exec now
          (db.refresh now key (.string (.raw token)) ttl)
      | some ⟨.string payload, _⟩ =>
        if payload = .raw token then (allocate fenceKey fenceTtl 2).exec now
          (db.refresh now key (.string payload) ttl)
        else (.ok (0, 0), db)
      | some _ => (.error .wrongType, db) := by
  by_cases zero : ttl = 0
  · simp [acquire, Script.exec_setNxPx, zero]
  · match found : db.lookup now key with
    | none => simp [acquire, allocate, Script.exec_setNxPx, Keyspace.refresh, zero, found]
    | some ⟨.string payload, stop⟩ =>
      by_cases same : payload = .raw token
      · simp [acquire, allocate, Script.exec_setNxPx, Script.exec_get_string found,
          Script.exec_pexpire, zero, found, same]
      · simp [acquire, Script.exec_setNxPx, Script.exec_get_string found, zero, found, same]
    | some ⟨.hash _, _⟩ | some ⟨.zset _, _⟩ | some ⟨.list _, _⟩ =>
      simp [acquire, Script.exec_setNxPx, Script.get, zero, found]

theorem exec_extend : (extend key fenceKey token ttl fenceTtl).exec now db =
    match db.lookup now key with
    | none => (.ok 0, db)
    | some ⟨.string payload, _⟩ =>
      if payload = .raw token then
        (.ok 1, ((Script.pexpire fenceKey fenceTtl).exec now
          (db.refresh now key (.string payload) ttl)).2)
      else (.ok 0, db)
    | some _ => (.error .wrongType, db) := by
  match found : db.lookup now key with
  | none => simp [extend, Script.exec_get_none found]
  | some ⟨.string payload, stop⟩ =>
    by_cases same : payload = .raw token
    · simp only [extend, Script.exec_bind, Script.exec_get_string found, same, if_true,
        Script.exec_pexpire, found, Script.exec_pure]
      cases counter : (db.refresh now key (.string payload) ttl).lookup now fenceKey <;>
        simp_all
    · simp [extend, Script.exec_get_string found, same]
  | some ⟨.hash _, _⟩ | some ⟨.zset _, _⟩ | some ⟨.list _, _⟩ =>
    simp [extend, Script.get, found]

theorem exec_release : (release key token).exec now db =
    match db.lookup now key with
    | none => (.ok 0, db)
    | some ⟨.string payload, _⟩ =>
      if payload = .raw token then (.ok 1, db.erase key) else (.ok 0, db)
    | some _ => (.error .wrongType, db) := by
  match found : db.lookup now key with
  | none => simp [release, Script.exec_get_none found]
  | some ⟨.string payload, stop⟩ =>
    by_cases same : payload = .raw token
    · simp [release, Script.exec_get_string found, Script.exec_del, found, same]
    · simp [release, Script.exec_get_string found, same]
  | some ⟨.hash _, _⟩ | some ⟨.zset _, _⟩ | some ⟨.list _, _⟩ =>
    simp [release, Script.get, found]

/-! Each script is one step of the lease register under the lock key. -/

theorem holder_congr {after : Keyspace} (same : after key = db key) :
    holder key after = holder key db := by
  funext instant
  simp only [holder, Keyspace.lookup_congr same]

theorem holder_refresh :
    (holder key (db.refresh now key (.string (.raw token)) ttl)).Until now token (now + ttl) := by
  intro instant later
  by_cases inside : instant < now + ttl <;>
    simp [holder, Keyspace.lookup_refresh later, inside]

theorem holder_eq_some {instant : Nat} : holder key db instant = some token ↔
    ∃ stop, db.lookup instant key = some ⟨.string (.raw token), stop⟩ := by
  unfold holder
  constructor
  · split
    · rintro ⟨⟩
      exact ⟨_, ‹_›⟩
    · simp
  · rintro ⟨stop, found⟩
    simp [found]

theorem holder_earlier {instant : Nat} (held : holder key db instant = some token)
    (earlier : now ≤ instant) : holder key db now = some token := by
  obtain ⟨stop, found⟩ := holder_eq_some.mp held
  exact holder_eq_some.mpr ⟨stop, Keyspace.lookup_earlier earlier found⟩

theorem holder_later {instant : Nat} (unheld : holder key db now = none) (later : now ≤ instant) :
    holder key db instant = none := by
  cases held : holder key db instant with
  | none => rfl
  | some owner => simp [holder_earlier held later] at unheld

/-- A token nobody has stored yet holds the lock after its acquire ran exactly
where the key was free, and until the lease ends. -/
theorem holder_acquire (distinct : key ≠ fenceKey) {instant : Nat} (later : now ≤ instant)
    (fresh : ∀ stop, db key ≠ some ⟨.string (.raw token), stop⟩) :
    holder key ((acquire key fenceKey token ttl fenceTtl).exec now db).2 instant = some token ↔
      (ttl ≠ 0 ∧ db.lookup now key = none) ∧ instant < now + ttl := by
  have unheld : holder key db instant ≠ some token := by
    intro held
    obtain ⟨stop, found⟩ := holder_eq_some.mp held
    exact fresh stop (Keyspace.lookup_eq_some.mp found).1
  rw [exec_acquire]
  by_cases zero : ttl = 0
  · simp [zero, unheld]
  · rw [if_neg zero]
    cases found : db.lookup now key with
    | none =>
      simp only [holder_congr (allocate_leaves distinct 1 now _), holder_refresh instant later]
      by_cases inside : instant < now + ttl <;> simp [inside, zero]
    | some entry =>
      obtain ⟨value, stop⟩ := entry
      cases value with
      | string payload =>
        have stranger : payload ≠ .raw token := by
          rintro rfl
          exact fresh stop (Keyspace.lookup_eq_some.mp found).1
        simp [stranger, unheld]
      | hash | zset | list => simp [unheld]

theorem exec_release_owner (owner : holder key db now = some token) :
    (release key token).exec now db = (.ok 1, db.erase key) := by
  obtain ⟨stop, found⟩ := holder_eq_some.mp owner
  simp [exec_release, found]

theorem exec_release_stranger (stranger : holder key db now ≠ some token) :
    ((release key token).exec now db).1 ≠ .ok 1 ∧ ((release key token).exec now db).2 = db := by
  rw [exec_release]
  split
  · simp
  · split
    · subst_vars
      exact absurd (holder_eq_some.mpr ⟨_, ‹_›⟩) stranger
    · simp
  · simp

theorem holder_release {instant : Nat} (later : now ≤ instant) :
    holder key ((release key token).exec now db).2 instant ≠ some token := by
  intro held
  by_cases owner : holder key db now = some token
  · simp [exec_release_owner owner, holder] at held
  · rw [(exec_release_stranger owner).2] at held
    exact owner (holder_earlier held later)

/-! What the scripts leave of every lock at the instant they run. Names are arbitrary here:
one lock's fence counter may have the name of another lock. -/

section
variable {name other : String}

theorem holder_refresh_int {value : Int} :
    holder name (db.refresh now name (.string (.int value)) ttl) now = none := by
  simp only [holder, Keyspace.lookup_refresh (Nat.le_refl now)]
  split <;> simp_all

/-- Counting a fence leaves every lock where it is, also one under the counter's name. -/
theorem holder_allocate (status : Nat) :
    holder name ((allocate fenceKey fenceTtl status).exec now db).2 now = holder name db now := by
  by_cases here : name = fenceKey
  · subst here
    match found : db.lookup now name with
    | none =>
      have before : holder name db now = none := by simp [holder, found]
      simp [before, allocate, Script.exec_incr, Script.exec_pexpire, found, Keyspace.refresh_put,
        holder_refresh_int]
    | some ⟨.string (.int value), stop⟩ =>
      have live : Entry.expired ⟨.string (.int (value + 1)), stop⟩ now = false :=
        (Keyspace.lookup_eq_some.mp found).2
      have before : holder name db now = none := by simp [holder, found]
      simp [before, allocate, Script.exec_incr, Script.exec_pexpire, found, live, Keyspace.refresh_put,
        holder_refresh_int]
    | some ⟨.string (.raw _), _⟩ => simp [allocate, Script.exec_incr, found]
    | some ⟨.hash _, _⟩ | some ⟨.zset _, _⟩ | some ⟨.list _, _⟩ =>
      simp [allocate, Script.exec_incr, found]
  · exact congrFun (holder_congr (allocate_leaves here status now db)) now

/-- An allocation that answers leaves every lock where it is for all time. -/
theorem holder_allocated {status instant : Nat} {answer : Nat × Int} {after : Keyspace} (later : now ≤ instant)
    (ran : (allocate fenceKey fenceTtl status).exec now db = (.ok answer, after)) :
    holder name after instant = holder name db instant := by
  by_cases here : name = fenceKey
  · subst here
    have unheld : holder name db now = none := by
      match found : db.lookup now name with
      | none => simp [holder, found]
      | some ⟨.string (.int value), stop⟩ => simp [holder, found]
      | some ⟨.string (.raw _), _⟩ => simp [allocate, Script.exec_incr, found] at ran
      | some ⟨.hash _, _⟩ | some ⟨.zset _, _⟩ | some ⟨.list _, _⟩ =>
        simp [allocate, Script.exec_incr, found] at ran
    have kept : holder name ((allocate name fenceTtl status).exec now db).2 now = holder name db now :=
      holder_allocate status
    rw [ran] at kept
    have counted : holder name after now = none := kept.trans unheld
    rw [holder_later unheld later, holder_later counted later]
  · have kept : ((allocate fenceKey fenceTtl status).exec now db).2 name = db name :=
      allocate_leaves here status now db
    rw [ran] at kept
    rw [holder_congr kept]

/-- An acquire changes nothing for the tokens of others. -/
theorem holder_acquire_other (foreign : other ≠ token) :
    holder name ((acquire key fenceKey token ttl fenceTtl).exec now db).2 now = some other ↔
      holder name db now = some other := by
  have taken (status : Nat) (payload : Payload) (own : payload = .raw token)
      (free : ∀ other ≠ token, holder key db now ≠ some other) :
      holder name ((allocate fenceKey fenceTtl status).exec now
        (db.refresh now key (.string payload) ttl)).2 now = some other ↔
        holder name db now = some other := by
    subst own
    rw [holder_allocate]
    by_cases here : name = key
    · subst here
      simp only [free other foreign, iff_false]
      rw [holder_refresh now (Nat.le_refl now)]
      split
      · simp [foreign.symm]
      · simp
    · rw [holder_congr (Keyspace.refresh_of_ne here)]
  rw [exec_acquire]
  split
  · rfl
  · split
    · next missing => exact taken 1 _ rfl (by simp [holder, missing])
    · next payload stop found =>
      split
      · next own =>
        subst own
        exact taken 2 _ rfl fun other foreign => by simp [holder, found, foreign.symm]
      · rfl
    · rfl

/-- A token that was stored nowhere is stored under the lock key alone. -/
theorem holder_acquire_own (unheld : holder name db now ≠ some token)
    (held : holder name ((acquire key fenceKey token ttl fenceTtl).exec now db).2 now = some token) :
    name = key := by
  by_contra distinct
  have kept (status : Nat) (payload : Payload) :
      holder name ((allocate fenceKey fenceTtl status).exec now
        (db.refresh now key (.string payload) ttl)).2 now = holder name db now := by
    rw [holder_allocate, holder_congr (Keyspace.refresh_of_ne distinct)]
  rw [exec_acquire] at held
  split at held
  · exact unheld held
  · split at held
    · exact unheld ((kept 1 _).symm.trans held)
    · split at held
      · exact unheld ((kept 2 _).symm.trans held)
      · exact unheld held
    · exact unheld held

/-- A lock is there until its lease is set to nothing. -/
theorem holder_pexpire_other {ms : Nat} :
    holder name ((Script.pexpire key ms).exec now db).2 now = some other ↔
      holder name db now = some other ∧ (name = key → ms ≠ 0) := by
  rw [Script.exec_pexpire]
  by_cases here : name = key
  · subst here
    simp only [holder_eq_some]
    cases found : db.lookup now name with
    | none => simp [found]
    | some entry =>
      obtain ⟨value, stop⟩ := entry
      simp only [Keyspace.lookup_refresh (Nat.le_refl now)]
      by_cases zero : ms = 0
      · simp [zero]
      · simp [zero, Nat.pos_of_ne_zero zero]
  · cases found : db.lookup now key with
    | none => simp [here]
    | some entry => simp [here, holder_congr (Keyspace.refresh_of_ne here)]

/-- Extending a lease makes no lock, and ends none if the lease is a lease. -/
theorem holder_extend_other :
    (holder name ((extend key fenceKey token ttl fenceTtl).exec now db).2 now = some other →
      holder name db now = some other) ∧
    (ttl ≠ 0 → fenceTtl ≠ 0 → holder name db now = some other →
      holder name ((extend key fenceKey token ttl fenceTtl).exec now db).2 now = some other) := by
  have extended {value : Value} {stop : Option Nat} (found : db.lookup now key = some ⟨value, stop⟩) :
      db.refresh now key value ttl = ((Script.pexpire key ttl).exec now db).2 := by
    rw [Script.exec_pexpire, found]
  rw [exec_extend]
  split
  · exact ⟨id, fun _ _ => id⟩
  · split
    · rw [extended ‹_›]
      constructor
      · intro held
        exact (holder_pexpire_other.mp (holder_pexpire_other.mp held).1).1
      · intro lease retention held
        exact holder_pexpire_other.mpr ⟨holder_pexpire_other.mpr ⟨held, fun _ => lease⟩, fun _ => retention⟩
    · exact ⟨id, fun _ _ => id⟩
  · exact ⟨id, fun _ _ => id⟩

theorem holder_erase_other : holder name (db.erase key) now = some other ↔
    holder name db now = some other ∧ name ≠ key := by
  by_cases here : name = key
  · subst here
    simp [holder]
  · rw [holder_congr (Keyspace.erase_of_ne here)]
    simp [here]

theorem holder_release_other : holder name ((release key token).exec now db).2 now = some other ↔
    holder name db now = some other ∧ ¬ (name = key ∧ other = token) := by
  by_cases owner : holder key db now = some token
  · rw [exec_release_owner owner, holder_erase_other]
    refine and_congr_right fun held => ?_
    constructor
    · exact fun distinct same => distinct same.1
    · rintro distinct rfl
      exact distinct ⟨rfl, Option.some.inj (held.symm.trans owner)⟩
  · rw [(exec_release_stranger owner).2]
    refine ⟨fun held => ⟨held, ?_⟩, And.left⟩
    rintro ⟨rfl, rfl⟩
    exact owner held

theorem holder_del_other : holder name ((Script.del key).exec now db).2 now = some other ↔
    holder name db now = some other ∧ name ≠ key := by
  rw [Script.exec_del]
  cases found : db.lookup now key with
  | some entry => exact holder_erase_other
  | none =>
    refine ⟨fun held => ⟨held, ?_⟩, And.left⟩
    rintro rfl
    simp [holder, found] at held

end

/-- The lease event a status of `acquire.lua` reports. -/
def acquireEvent (token : String) (ttl : Nat) : Nat → Event String
  | 1 => .grant token ttl
  | 2 => .renew token ttl
  | _ => .idle

theorem allocate_status {status given : Nat} {fence : Int} {after : Keyspace}
    (ran : (allocate fenceKey fenceTtl status).exec now db = (.ok (given, fence), after)) :
    given = status := by
  simp only [allocate, Script.exec_bind, Script.exec_pure] at ran
  split at ran <;> [skip; simp at ran]
  split at ran <;> simp_all

theorem acquire_step (distinct : key ≠ fenceKey) {reply : Except Fault (Nat × Int)}
    {after : Keyspace} (ran : (acquire key fenceKey token ttl fenceTtl).exec now db = (reply, after)) :
    ∃ event, Step now (holder key db) (holder key after) event ∧
      (event = .idle ∨ event = .grant token ttl ∨ event = .renew token ttl) ∧
      ∀ status fence, reply = .ok (status, fence) → event = acquireEvent token ttl status := by
  have unchanged (same : after = db) (status : ∀ status fence, reply = .ok (status, fence) → status = 0) :
      ∃ event, Step now (holder key db) (holder key after) event ∧
        (event = .idle ∨ event = .grant token ttl ∨ event = .renew token ttl) ∧
        ∀ status fence, reply = .ok (status, fence) → event = acquireEvent token ttl status := by
    refine ⟨.idle, .idle fun _ _ => by rw [same], .inl rfl, ?_⟩
    intro given fence answered
    rw [status given fence answered]
    rfl
  have granted {status : Nat} (ran : (allocate fenceKey fenceTtl status).exec now
        (db.refresh now key (.string (.raw token)) ttl) = (reply, after)) :
      (holder key after).Until now token (now + ttl) ∧
      ∀ given fence, reply = .ok (given, fence) → given = status := by
    have leaves : (allocate fenceKey fenceTtl status).Leaves key := allocate_leaves distinct status
    have kept := leaves now (db.refresh now key (.string (.raw token)) ttl)
    rw [ran] at kept
    refine ⟨by rw [holder_congr kept]; exact holder_refresh, ?_⟩
    rintro given fence rfl
    exact allocate_status ran
  rw [exec_acquire] at ran
  split at ran
  · cases ran
    exact unchanged rfl (by simp)
  · split at ran
    · obtain ⟨runs, status⟩ := granted ran
      refine ⟨.grant token ttl, .grant (by simp [holder, *]) runs, .inr (.inl rfl), ?_⟩
      intro given fence answered
      rw [status given fence answered, acquireEvent]
    · split at ran
      · subst_vars
        obtain ⟨runs, status⟩ := granted ran
        refine ⟨.renew token ttl, .renew (by simp [holder, *]) runs, .inr (.inr rfl), ?_⟩
        intro given fence answered
        rw [status given fence answered, acquireEvent]
      · cases ran
        exact unchanged rfl (by simp)
    · cases ran
      exact unchanged rfl (by simp)

/-- A refusal has no effect. -/
theorem exec_acquire_refused {status : Nat} {fence : Int} {after : Keyspace}
    (ran : (acquire key fenceKey token ttl fenceTtl).exec now db = (.ok (status, fence), after))
    (refused : ¬ (status = 1 ∨ status = 2)) : after = db := by
  rw [exec_acquire] at ran
  split at ran
  · cases ran
  · split at ran
    · exact absurd (.inl (allocate_status ran)) refused
    · split at ran
      · exact absurd (.inr (allocate_status ran)) refused
      · cases ran
        rfl
    · cases ran

/-- A grant takes the lock for the lease and leaves the others where they are. -/
theorem exec_acquire_granted {status : Nat} {fence : Int} {after : Keyspace} (distinct : key ≠ fenceKey)
    (ran : (acquire key fenceKey token ttl fenceTtl).exec now db = (.ok (status, fence), after))
    (granted : status = 1 ∨ status = 2) :
    (holder key after).Until now token (now + ttl) ∧
      ∀ name ≠ key, ∀ instant, now ≤ instant → holder name after instant = holder name db instant := by
  constructor
  · obtain ⟨event, step, _, reported⟩ := acquire_step distinct ran
    have taken : event = .grant token ttl ∨ event = .renew token ttl := by
      rw [reported status fence rfl]
      rcases granted with rfl | rfl
      · exact .inl rfl
      · exact .inr rfl
    exact (step.taken taken).2
  · intro name elsewhere instant later
    rw [exec_acquire] at ran
    split at ran
    · cases ran
    · split at ran
      · rw [holder_allocated later ran, holder_congr (Keyspace.refresh_of_ne elsewhere)]
      · split at ran
        · rw [holder_allocated later ran, holder_congr (Keyspace.refresh_of_ne elsewhere)]
        · cases ran
          rfl
      · cases ran

theorem extend_step (distinct : key ≠ fenceKey) {reply : Except Fault Nat} {after : Keyspace}
    (ran : (extend key fenceKey token ttl fenceTtl).exec now db = (reply, after)) :
    Step now (holder key db) (holder key after)
      (if reply = .ok 1 then .renew token ttl else .idle) := by
  rw [exec_extend] at ran
  split at ran
  · cases ran
    exact .idle fun _ _ => rfl
  · split at ran
    · cases ran
      subst_vars
      rw [if_pos rfl, holder_congr (Script.leaves_pexpire distinct _ _)]
      exact .renew (by simp [holder, *]) holder_refresh
    · cases ran
      exact .idle fun _ _ => rfl
  · cases ran
    exact .idle fun _ _ => rfl

theorem release_step {reply : Except Fault Nat} {after : Keyspace}
    (ran : (release key token).exec now db = (reply, after)) :
    Step now (holder key db) (holder key after)
      (if reply = .ok 1 then .free token else .idle) := by
  rw [exec_release] at ran
  split at ran
  · cases ran
    exact .idle fun _ _ => rfl
  · split at ran
    · cases ran
      subst_vars
      rw [if_pos rfl]
      exact .free (by simp [holder, *]) fun _ _ => by simp [holder]
    · cases ran
      exact .idle fun _ _ => rfl
  · cases ran
    exact .idle fun _ _ => rfl

end Palisade.Single
