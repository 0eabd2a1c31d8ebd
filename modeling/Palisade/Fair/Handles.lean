import Palisade.Fair.Scripts

/-! The fair handle and the calls behind it, with the keys and arguments they pass.
The acquiring call passes no heartbeat prefix. -/
namespace Palisade.Fair
open Redis Single

/-- State shared by the clones of a handle; `gone` once it is released, dropped or lost. -/
structure FairShared where
  key : String
  queueKey : String
  hbPrefix : String
  token : String
  fence : FencingToken
  gone : Bool
  deriving DecidableEq

def acquireReply (key token : String) : Except Fault (Int × Int) → Except Error FairShared
  | .error fault => .error (.backend s!"fair acquire failed: {fault.text}")
  | .ok (status, fence) =>
    if status = 1 ∨ status = 2 then
      .ok ⟨key, queueKeyFor key, hbPrefixFor key, token, ⟨fence.toNat⟩, false⟩
    else .error (.held key)

/-- `try_lock_fair_as`, with its script running at `now`. -/
def tryLockFairAs (key token : String) (options : LockOptions) (now : Nat) (db : Keyspace) :
    Except Error FairShared × Keyspace :=
  match options.validate with
  | .error error => (.error error, db)
  | .ok () =>
    let ttlMs := options.ttl.asMillisU64
    let (reply, db) := (acquire key (queueKeyFor key) (fenceKeyFor key) (hbKeyFor key token) token
      ttlMs (max ttlMs 2000) none).exec now db
    (acquireReply key token reply, db)

namespace FairShared

def lost (h : FairShared) : Error := .lost h.key h.fence.value

/-- The script the first `release` of a handle runs. -/
def releaseScript (h : FairShared) : Script Int :=
  Fair.release h.key (some h.queueKey) h.token (.int 30000) (some h.hbPrefix)

def releaseReply (h : FairShared) : Except Fault Int → Except Error Unit
  | .error fault => .error (.backend s!"fair release failed: {fault.text}")
  | .ok status => if status < 0 then .error h.lost else .ok ()

end FairShared

section
variable {key token oldest : String} {now : Nat} {db : Keyspace}
  {items : List String} {stop : Option Nat}
  (free : db.lookup now key = none)
  (queued : db.lookup now (queueKeyFor key) = some ⟨.list items, stop⟩)
  (last : items.getLast? = some oldest)
include free queued last

/-- Where the lock is free and somebody waits, the script stops at the heartbeat key
it cannot name. -/
theorem exec_acquire_unprefixed (ttl hbTtl : Nat) (hbKey : String) :
    (acquire key (queueKeyFor key) (fenceKeyFor key) hbKey token ttl hbTtl none).exec now db =
      (.error .nilConcat, db) := by
  have waiting : items ≠ [] := by
    rintro rfl
    simp at last
  obtain ⟨more, length⟩ := Nat.exists_eq_succ_of_ne_zero (mt List.length_eq_zero_iff.mp waiting)
  simp [acquire, Script.exec_get_none free, free, Script.llen, Script.exec_list queued, length,
    discardDead, Script.lrangeLast, last, beats, Script.required]

/-- After the holder's lease ran out with a live waiter at the head of the queue, that
waiter's call is not granted, and no other waiter is told that the lock is held: with
valid options all of them get the same backend error. -/
theorem lapsed_holder_not_recovered (_ : db.lookup now (hbKeyFor key oldest) ≠ none)
    (options : LockOptions) :
    (∀ shared, (tryLockFairAs key oldest options now db).1 ≠ .ok shared) ∧
      ∀ token ∈ items, token ≠ oldest → (tryLockFairAs key token options now db).1 ≠ .error (.held key) := by
  have answered (token : String) : (∃ message,
      (tryLockFairAs key token options now db).1 = .error (.invalidConfig message)) ∨
      (tryLockFairAs key token options now db).1 =
        .error (.backend s!"fair acquire failed: {Fault.text .nilConcat}") := by
    unfold tryLockFairAs
    cases valid : options.validate with
    | error error =>
      unfold LockOptions.validate at valid
      split at valid <;> cases valid
      exact .inl ⟨_, rfl⟩
    | ok => exact .inr (by simp only [exec_acquire_unprefixed free queued last]; rfl)
  constructor
  · intro shared granted
    rcases answered oldest with ⟨message, refused⟩ | refused
    · simp [refused] at granted
    · simp [refused] at granted
  · intro token _ _ held
    rcases answered token with ⟨message, refused⟩ | refused
    · simp [refused] at held
    · simp [refused] at held

end

/-- The lock lapsed; `b` waits ahead of `c` and beats. -/
def lapsed : Keyspace := fun name =>
  if name = queueKeyFor "orders" then some ⟨.list ["c", "b"], some 10000⟩
  else if name = hbKeyFor "orders" "b" then some ⟨.string (.int 1), some 2000⟩
  else none

theorem lapsed_holder_blocks_waiters :
    (∀ shared, (tryLockFairAs "orders" "b" ⟨.fromMillis 1000⟩ 1500 lapsed).1 ≠ .ok shared) ∧
      (tryLockFairAs "orders" "c" ⟨.fromMillis 1000⟩ 1500 lapsed).1 ≠ .error (.held "orders") := by
  have free : lapsed.lookup 1500 "orders" = none := by decide
  have queued : lapsed.lookup 1500 (queueKeyFor "orders") = some ⟨.list ["c", "b"], some 10000⟩ := by
    decide
  have beating : lapsed.lookup 1500 (hbKeyFor "orders" "b") ≠ none := by decide
  have blocked := lapsed_holder_not_recovered free queued rfl beating ⟨.fromMillis 1000⟩
  exact ⟨blocked.1, blocked.2 "c" (by simp) (by decide)⟩

/-- Both waiters get a backend error, the first no grant and the second no refusal. -/
theorem lapsed_holder_backend_error :
    ¬ (∃ shared, (tryLockFairAs "orders" "b" ⟨.fromMillis 1000⟩ 1500 lapsed).1 = .ok shared) ∧
      ∀ token ∈ ["c", "b"], (tryLockFairAs "orders" token ⟨.fromMillis 1000⟩ 1500 lapsed).1 =
        .error (.backend "fair acquire failed: ResponseError: attempt to concatenate field '?' (a nil value)") := by
  have both : ∀ token ∈ ["c", "b"],
      (tryLockFairAs "orders" token ⟨.fromMillis 1000⟩ 1500 lapsed).1 =
        .error (.backend "fair acquire failed: ResponseError: attempt to concatenate field '?' (a nil value)") := by
    decide
  refine ⟨?_, both⟩
  rintro ⟨shared, granted⟩
  rw [both "b" (by simp)] at granted
  contradiction

end Palisade.Fair
