import Palisade.Fair.Departures
import Palisade.ReadWrite.Handles
import Palisade.Redlock.Ring
import Palisade.Reentrant.Handles
import Palisade.Semaphore.Capacity
import Palisade.Server.Requests
import Palisade.Single.Multi

/-! The durations that the primitives send to their scripts: a lease in milliseconds and,
from most callers, how long the fence counter is kept. A `Duration` has up to `2 ^ 64`
seconds; its milliseconds are cut to a `u64`, and their tenfold wraps in one. -/
namespace Palisade.LeaseArguments
open Redis Single

/-- The calls that send a lease. -/
inductive Caller where
  | tryLockWith
  | extendWithToken
  /-- The `extend` of a mutex handle, through `fire_extend`. -/
  | handleExtend
  | redlockTryLock
  | redlockExtend
  | tryLockFair
  | fairExtend
  | tryRead
  | tryWrite
  | rwExtend
  /-- The `release` of a reader, which refreshes the lease for the others. -/
  | readRelease
  | semaphoreTryAcquire
  | semaphoreExtend
  | tryLockReentrant
  | reentrantExtend
  | reentrantReleaseOne
  | semanticAcquire
  | setTestament
  deriving DecidableEq

structure Arguments where
  ttlMs : Nat
  /-- The retention of the fence counter, where the caller sends one. -/
  retentionMs : Option Nat
  deriving DecidableEq

namespace Caller

/-- The grants send a retention, and of the extensions those of the mutex. -/
def retains : Caller → Bool
  | .fairExtend | .rwExtend | .readRelease | .semaphoreExtend | .reentrantExtend | .reentrantReleaseOne
  | .semanticAcquire | .setTestament => false
  | .tryLockWith | .extendWithToken | .handleExtend | .redlockTryLock | .redlockExtend | .tryLockFair
  | .tryRead | .tryWrite | .semaphoreTryAcquire | .tryLockReentrant => true

/-- How the refusal of a short lease begins. A release has the lease of its handle, which
was checked at the grant; a semantic grant and a testament take any. -/
def word : Caller → Option String
  | .extendWithToken | .handleExtend | .redlockExtend | .fairExtend | .semaphoreExtend | .reentrantExtend =>
    some "extend ttl "
  | .tryLockWith | .redlockTryLock | .tryLockFair | .tryRead | .tryWrite | .rwExtend | .semaphoreTryAcquire
  | .tryLockReentrant => some "ttl "
  | .readRelease | .reentrantReleaseOne | .semanticAcquire | .setTestament => none

def arguments (caller : Caller) (ttl : Duration) : Arguments where
  ttlMs := ttl.asMillisU64
  retentionMs := if caller.retains then some (fenceTtlMs ttl.asMillisU64) else none

/-- `validate`, or the floor check of an extension, and what is sent behind it. -/
def send (caller : Caller) (ttl : Duration) : Except Error Arguments :=
  match caller.word with
  | some word =>
    if ttl.nanos < minTtl.nanos then
      .error (.invalidConfig s!"{word}{ttl.debug} is below the {minTtl.debug} floor")
    else .ok (caller.arguments ttl)
  | none => .ok (caller.arguments ttl)

end Caller

/-- The whole milliseconds of the lease, and ten times as many for the counter. -/
def Arguments.Exact (arguments : Arguments) (ttl : Duration) : Prop :=
  arguments.ttlMs = ttl.asMillis ∧ ∀ retention ∈ arguments.retentionMs, retention = 10 * ttl.asMillis

/-- What is sent fits a `u64`. -/
def Caller.Fits (caller : Caller) (ttl : Duration) : Prop :=
  (if caller.retains then 10 * ttl.asMillis else ttl.asMillis) < 2 ^ 64

instance (caller : Caller) (ttl : Duration) : Decidable (caller.Fits ttl) := inferInstanceAs (Decidable (_ < _))

/-! The requests and scripts of the primitives have these arguments. -/

theorem tryLockWith_script (call : Multi.Call) (key token : String) :
    ∃ retention, (Caller.tryLockWith.arguments call.options.ttl).retentionMs = some retention ∧
      call.script key token = Single.acquire key (fenceKeyFor key) token
        (Caller.tryLockWith.arguments call.options.ttl).ttlMs retention :=
  ⟨_, rfl, rfl⟩

theorem handleExtend_script (h : HandleShared) (ttl : Duration) :
    ∃ retention, (Caller.handleExtend.arguments ttl).retentionMs = some retention ∧
      h.extendScript ttl = Single.extend h.key (fenceKeyFor h.key) h.token
        (Caller.handleExtend.arguments ttl).ttlMs retention :=
  ⟨_, rfl, rfl⟩

theorem extendWithToken_send (s : Server.Service) (key token : String) (ttl : Duration) :
    match Caller.extendWithToken.send ttl with
    | .error error => s.extendWithToken key token ttl .executes = (.error error, s.db)
    | .ok arguments => ∃ retention, arguments.retentionMs = some retention ∧
        (s.extendWithToken key token ttl .executes).2 =
          ((Single.extend key (fenceKeyFor key) token arguments.ttlMs retention).exec s.now s.db).2 := by
  unfold Caller.send Server.Service.extendWithToken
  by_cases short : ttl.nanos < minTtl.nanos
  · simp only [Caller.word, if_pos short]
  · simp only [Caller.word, if_neg short]
    refine ⟨_, rfl, ?_⟩
    dsimp only [Caller.arguments]
    split
    · next ran => rw [ran]
    · next ran => rw [ran]

theorem redlockTryLock_script (a : Redlock.Attempt) :
    ∃ retention, (Caller.redlockTryLock.arguments a.ttl).retentionMs = some retention ∧
      a.acquireScript = Single.acquire a.key (fenceKeyFor a.key) a.token
        (Caller.redlockTryLock.arguments a.ttl).ttlMs retention :=
  ⟨_, rfl, rfl⟩

/-- The refresh round of a quorum handle. -/
theorem redlockExtend_script (key token : String) (ttl : Duration) :
    ∃ retention, (Caller.redlockExtend.arguments ttl).retentionMs = some retention ∧
      (Redlock.Command.extend ttl.asMillisU64).script key token = (do
        return (← Single.extend key (fenceKeyFor key) token (Caller.redlockExtend.arguments ttl).ttlMs retention, 0)) :=
  ⟨_, rfl, rfl⟩

theorem validate_eq {caller : Caller} (checked : caller.word = some "ttl ") (options : LockOptions) :
    caller.send options.ttl = options.validate.map fun _ => caller.arguments options.ttl := by
  simp only [Caller.send, checked, LockOptions.validate]
  split <;> rfl

theorem readWrite_acquireRequest_eq (writeMode : Bool) (options : LockOptions) :
    ReadWrite.acquireRequest writeMode options =
      if writeMode then (Caller.tryWrite.send options.ttl).map fun sent => .writeAcquire sent.ttlMs
      else (Caller.tryRead.send options.ttl).map fun sent => .readAcquire sent.ttlMs := by
  rw [validate_eq rfl, validate_eq rfl, ReadWrite.acquireRequest]
  cases options.validate <;> cases writeMode <;> rfl

theorem readWrite_extendRequest_eq {h : ReadWrite.RwShared} (held : h.gone = false) (ttl : Duration) :
    h.extendRequest ttl = (Caller.rwExtend.send ttl).map fun sent => .extend sent.ttlMs := by
  rw [validate_eq rfl ⟨ttl⟩, ReadWrite.RwShared.extendRequest, held]
  change (LockOptions.validate ⟨ttl⟩ >>= _) = _
  cases LockOptions.validate ⟨ttl⟩ <;> rfl

theorem readWrite_releaseRequest_eq {h : ReadWrite.RwShared} (reader : h.writeMode = false) :
    h.releaseRequest = .readRelease (Caller.readRelease.arguments h.ttl).ttlMs := by
  rw [ReadWrite.RwShared.releaseRequest, reader]
  rfl

theorem semaphore_acquireRequest_eq (options : LockOptions) :
    Semaphore.acquireRequest options =
      (Caller.semaphoreTryAcquire.send options.ttl).map fun sent => .acquire sent.ttlMs := by
  rw [validate_eq rfl, Semaphore.acquireRequest]
  cases options.validate <;> rfl

theorem semaphore_extendRequest_eq {h : Semaphore.PermitShared} (held : h.gone = false) (ttl : Duration) :
    h.extendRequest ttl = (Caller.semaphoreExtend.send ttl).map fun sent => .extend sent.ttlMs := by
  rw [Semaphore.PermitShared.extendRequest, held, Caller.send]
  split <;> rfl

theorem reentrant_extendRequest_eq {h : Reentrant.ReentrantShared} (held : h.gone = false) (ttl : Duration) :
    h.extendRequest ttl = (Caller.reentrantExtend.send ttl).map fun sent => sent.ttlMs := by
  rw [Reentrant.ReentrantShared.extendRequest, held, Caller.send]
  split <;> rfl

theorem reentrant_releaseOneRequest_eq (h : Reentrant.ReentrantShared) :
    h.releaseOneRequest = .one (Caller.reentrantReleaseOne.arguments h.ttl).ttlMs := rfl

/-- A call whose options are valid. -/
theorem reentrant_acquire_eq {key : String} {s : Reentrant.Lock} {id : Nat} {token : String} {ttl : Duration}
    (asked : s.callers id = some (.asking token ttl)) : s.act key (.acquire id) =
      some (s.exec key id token (.acquire (Caller.tryLockReentrant.arguments ttl).ttlMs)
        (Reentrant.Lock.acquired key token ttl)) := by
  simp only [Reentrant.Lock.act, asked]
  rfl

theorem tryLockFairAs_eq (key token : String) (options : LockOptions) (now : Nat) (db : Keyspace) :
    Fair.tryLockFairAs key token options now db =
      match Caller.tryLockFair.send options.ttl with
      | .error error => (.error error, db)
      | .ok sent =>
        let ran := (Fair.acquire key (Fair.queueKeyFor key) (fenceKeyFor key) (Fair.hbKeyFor key token) token
          sent.ttlMs (max sent.ttlMs 2000) none).exec now db
        (Fair.acquireReply key token ran.1, ran.2) := by
  rw [validate_eq rfl, Fair.tryLockFairAs]
  cases options.validate <;> rfl

theorem fair_extend_eq {h : Fair.FairShared} (held : h.gone = false) (ttl : Duration) (now : Nat) (db : Keyspace) :
    (h.extend ttl now db).2.2 =
      match Caller.fairExtend.send ttl with
      | .error _ => db
      | .ok sent => ((Fair.extend h.key h.token sent.ttlMs).exec now db).2 := by
  unfold Fair.FairShared.extend Caller.send
  by_cases short : ttl.nanos < minTtl.nanos
  · simp only [Caller.word, if_pos short]
  · simp only [Caller.word, if_neg short, held, Bool.false_eq_true, if_false]
    dsimp only [Caller.arguments]
    split
    · next ran => rw [ran]
    · next ran =>
      rw [ran]
      split <;> rfl

theorem Caller.send_ok {caller : Caller} {ttl : Duration} {arguments : Arguments}
    (sent : caller.send ttl = .ok arguments) : arguments = caller.arguments ttl := by
  unfold send at sent
  split at sent
  · split at sent
    · cases sent
    · exact (Except.ok.inj sent).symm
  · exact (Except.ok.inj sent).symm

theorem asMillisU64_eq_iff {ttl : Duration} : ttl.asMillisU64 = ttl.asMillis ↔ ttl.asMillis < 2 ^ 64 := by
  rw [Duration.asMillisU64]
  constructor
  · intro whole
    rw [← whole]
    exact Nat.mod_lt _ (by decide)
  · exact Nat.mod_eq_of_lt

theorem fenceTtlMs_eq_iff {ms : Nat} : fenceTtlMs ms = 10 * ms ↔ 10 * ms < 2 ^ 64 := by
  rw [fenceTtlMs, fenceTtlMultiplier, Nat.mul_comm]
  constructor
  · intro whole
    rw [← whole]
    exact Nat.mod_lt _ (by decide)
  · exact Nat.mod_eq_of_lt

/-- What a caller sends for a lease it accepts is exact if and only if it fits. -/
theorem lease_sent_exactly_iff {caller : Caller} {ttl : Duration} {arguments : Arguments}
    (sent : caller.send ttl = .ok arguments) : arguments.Exact ttl ↔ caller.Fits ttl := by
  obtain rfl := Caller.send_ok sent
  unfold Arguments.Exact Caller.Fits Caller.arguments
  rw [asMillisU64_eq_iff]
  cases caller.retains with
  | false => simp
  | true =>
    simp only [if_true, Option.mem_some_iff, forall_eq']
    constructor
    · rintro ⟨short, kept⟩
      rw [asMillisU64_eq_iff.mpr short] at kept
      exact fenceTtlMs_eq_iff.mp kept
    · intro fits
      have short : ttl.asMillis < 2 ^ 64 := by omega
      rw [asMillisU64_eq_iff.mpr short]
      exact ⟨short, fenceTtlMs_eq_iff.mpr fits⟩

/-- Ten seconds are sent as they are. -/
theorem ten_seconds_sent_exactly : (⟨10000, some 100000⟩ : Arguments).Exact (.fromMillis 10000) := by
  have sent : Caller.tryLockWith.send (.fromMillis 10000) = .ok ⟨10000, some 100000⟩ := rfl
  exact (lease_sent_exactly_iff sent).mpr (by decide)

/-- `2 ^ 64 + 10` milliseconds. -/
def eons : Duration := ⟨(2 ^ 64 + 10) * 10 ^ 6, by decide⟩

/-- A lease of 584 million years is sent as one of ten milliseconds. -/
theorem eons_sent_as_moment : ¬ ∀ (caller : Caller) (ttl : Duration) (arguments : Arguments),
    caller.send ttl = .ok arguments → arguments.Exact ttl := by
  intro always
  have sent : Caller.tryLockWith.send eons = .ok ⟨10, some 100⟩ := rfl
  exact absurd (always .tryLockWith eons _ sent).1 (by decide)

end Palisade.LeaseArguments
