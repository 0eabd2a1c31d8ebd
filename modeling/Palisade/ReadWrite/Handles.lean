import Palisade.Transition
import Palisade.Lease
import Palisade.ReadWrite.Scripts

/-! The read-write handles and runs of the lock on one key. A call sends its
script and handles the reply later; between the two anything may happen. The
state also keeps a ledger of leases: for each token whether it was granted to a
reader or a writer, and its last grant or successful extension. An entry leaves
the ledger when a release of the token succeeds; no script and no handle reads
it. -/
namespace Palisade.ReadWrite
open Redis Single Lease Transition

def validateTtl (ttl : Duration) : Except Error Unit :=
  if ttl.nanos < minTtl.nanos then
    .error (.invalidConfig s!"ttl {ttl.debug} is below the {minTtl.debug} floor")
  else .ok ()

/-- State shared by the clones of a handle; `gone` once it is released, dropped or lost. -/
structure RwShared where
  key : String
  token : String
  fence : FencingToken
  ttl : Duration
  gone : Bool
  writeMode : Bool
  deriving DecidableEq

abbrev Reply := Except Fault (Int × Int)

namespace RwShared

def lost (h : RwShared) : Error := .lost h.key h.fence.value

/-- The request `extend` sends, or the error it returns at once. -/
def extendRequest (h : RwShared) (ttl : Duration) : Except Error Command := do
  validateTtl ttl
  if h.gone then
    .error h.lost
  else
    return .extend ttl.asMillisU64

def extendReply (h : RwShared) : Reply → Except Error Unit × RwShared
  | .error fault => (.error (.backend s!"rw extend failed: {fault.text}"), h)
  | .ok (status, _) => if status < 0 then (.error h.lost, { h with gone := true }) else (.ok (), h)

/-- The request the first `release` of a handle sends. -/
def releaseRequest (h : RwShared) : Command :=
  if h.writeMode then .writeRelease else .readRelease h.ttl.asMillisU64

def releaseReply (h : RwShared) : Reply → Except Error Unit
  | .error fault =>
    if h.writeMode then .error (.backend s!"rw write-release failed: {fault.text}")
    else .error (.backend s!"rw read-release failed: {fault.text}")
  | .ok (status, _) => if status < 0 then .error h.lost else .ok ()

/-- The request sent when the last clone is dropped: a reader passes a refresh of zero. -/
def dropRequest (h : RwShared) : Command :=
  if h.writeMode then .writeRelease else .readRelease 0

/-- `extend` with its script running at `now`. -/
def extend (h : RwShared) (ttl : Duration) (now : Nat) (db : Keyspace) :
    Except Error Unit × RwShared × Keyspace :=
  match h.extendRequest ttl with
  | .error error => (.error error, h, db)
  | .ok command =>
    let (reply, db) := (command.script h.key h.token).exec now db
    let (result, h) := h.extendReply reply
    (result, h, db)

/-- `release` with its script running at `now`. -/
def release (h : RwShared) (now : Nat) (db : Keyspace) : Except Error Unit × RwShared × Keyspace :=
  if h.gone then (.ok (), h, db)
  else
    let (reply, db) := (h.releaseRequest.script h.key h.token).exec now db
    (h.releaseReply reply, { h with gone := true }, db)

/-- Dropping the last clone, with the detached release running at `now`. -/
def drop (h : RwShared) (now : Nat) (db : Keyspace) : RwShared × Keyspace :=
  if h.gone then (h, db)
  else ({ h with gone := true }, ((h.dropRequest.script h.key h.token).exec now db).2)

end RwShared

/-- The request `try_read` or `try_write` sends. -/
def acquireRequest (writeMode : Bool) (options : LockOptions) : Except Error Command := do
  options.validate
  if writeMode then
    return .writeAcquire options.ttl.asMillisU64
  else
    return .readAcquire options.ttl.asMillisU64

/-- A reader needs status 1; a writer takes any status but 0. -/
def accepts (writeMode : Bool) (status : Int) : Bool :=
  if writeMode then decide (status ≠ 0) else decide (status = 1)

def acquireReply (key token : String) (writeMode : Bool) (ttl : Duration) :
    Reply → Except Error RwShared
  | .error fault =>
    if writeMode then .error (.backend s!"rw write-acquire failed: {fault.text}")
    else .error (.backend s!"rw read-acquire failed: {fault.text}")
  | .ok (status, fence) =>
    if accepts writeMode status then .ok ⟨key, token, ⟨fence.toNat⟩, ttl, false, writeMode⟩
    else .error (.held key)

structure Request where
  token : String
  command : Command
  deriving DecidableEq

structure Execution where
  request : Request
  reply : Reply
  deriving DecidableEq

/-- What a call amounts to so far. -/
inductive Caller where
  | asking (writeMode : Bool) (ttl : Duration)
  | holding (shared : RwShared)
  | refused (ttl : Duration) (error : Error)
  deriving DecidableEq

def Caller.ttl : Caller → Duration
  | .asking _ ttl | .refused ttl _ => ttl
  | .holding shared => shared.ttl

inductive Kind where
  | reader
  | writer
  deriving DecidableEq

abbrev Leases := String → Option (Kind × Term)

/-- The ledger after a script answered at `now`. -/
def Leases.record (leases : Leases) (now : Nat) (token : String) : Command → Reply → Leases
  | .readAcquire ttl, .ok (1, _) => Function.update leases token (some (.reader, ⟨now, ttl⟩))
  | .writeAcquire ttl, .ok (1, _) | .writeAcquire ttl, .ok (2, _) =>
    Function.update leases token (some (.writer, ⟨now, ttl⟩))
  | .extend ttl, .ok (1, _) =>
    Function.update leases token ((leases token).map fun lease => (lease.1, ⟨now, ttl⟩))
  | .readRelease _, .ok (status, _) | .writeRelease, .ok (status, _) =>
    if 0 ≤ status then Function.update leases token none else leases
  | _, _ => leases

structure RwLock where
  now : Nat
  db : Keyspace
  wire : List Request
  log : List Execution
  callers : String → Option Caller
  leases : Leases

inductive Action where
  /-- `try_read` or `try_write` is called; tokens are fresh. -/
  | ask (token : String) (writeMode : Bool) (options : LockOptions)
  /-- The reply to that call's script arrives. -/
  | answer (token : String)
  | extend (token : String) (ttl : Duration)
  | extended (execution : Execution)
  | release (token : String)
  | drop (token : String)
  | run (request : Request)
  deriving DecidableEq

structure Timed where
  delay : Nat
  action : Action
  deriving DecidableEq

namespace RwLock

def wait (s : RwLock) (delay : Nat) : RwLock := { s with now := s.now + delay }

def put (s : RwLock) (token : String) (caller : Caller) (sent : List Request) : RwLock :=
  { s with callers := Function.update s.callers token (some caller), wire := sent ++ s.wire }

def run (key : String) (s : RwLock) (r : Request) : RwLock :=
  let (reply, db) := (r.command.script key r.token).exec s.now s.db
  { s with
    db
    wire := s.wire.erase r
    log := ⟨r, reply⟩ :: s.log
    leases := s.leases.record s.now r.token r.command reply }

/-- The execution of an acquire in the log. -/
def acquired (s : RwLock) (token : String) : Option Execution :=
  s.log.find? fun e => decide (e.request.token = token) && match e.request.command with
    | .readAcquire _ | .writeAcquire _ => true
    | _ => false

def act (key : String) (s : RwLock) : Action → Option RwLock
  | .ask token writeMode options =>
    if s.callers token = none then
      match acquireRequest writeMode options with
      | .error error => some (s.put token (.refused options.ttl error) [])
      | .ok command => some (s.put token (.asking writeMode options.ttl) [⟨token, command⟩])
    else none
  | .answer token =>
    match s.callers token, s.acquired token with
    | some (.asking writeMode ttl), some e =>
      match acquireReply key token writeMode ttl e.reply with
      | .error error => some (s.put token (.refused ttl error) [])
      | .ok shared => some (s.put token (.holding shared) [])
    | _, _ => none
  | .extend token ttl =>
    match s.callers token with
    | some (.holding shared) =>
      match shared.extendRequest ttl with
      | .error _ => none
      | .ok command => some (s.put token (.holding shared) [⟨token, command⟩])
    | _ => none
  | .extended e =>
    match s.callers e.request.token, e.request.command with
    | some (.holding shared), .extend _ =>
      if e ∈ s.log then some (s.put e.request.token (.holding (shared.extendReply e.reply).2) [])
      else none
    | _, _ => none
  | .release token =>
    match s.callers token with
    | some (.holding shared) =>
      if shared.gone then none
      else some (s.put token (.holding { shared with gone := true }) [⟨token, shared.releaseRequest⟩])
    | _ => none
  | .drop token =>
    match s.callers token with
    | some (.holding shared) =>
      if shared.gone then none
      else some (s.put token (.holding { shared with gone := true }) [⟨token, shared.dropRequest⟩])
    | _ => none
  | .run request => if request ∈ s.wire then some (s.run key request) else none

end RwLock

/-- Both keys start out absent; the rest of the store is arbitrary. -/
def rwlock (key : String) : Machine RwLock Timed where
  initial s := s.db key = none ∧ s.db (fenceKeyFor key) = none ∧ s.wire = [] ∧ s.log = [] ∧
    (∀ token, s.callers token = none) ∧ ∀ token, s.leases token = none
  step s timed := (s.wait timed.delay).act key timed.action

/-- A caller's own step replaces its record: the lease it asked for and the names
in its handle stay, and an acquire carries that lease. -/
structure RwLock.Follows (key : String) (s : RwLock) (token : String) (c : Caller)
    (sent : List Request) : Prop where
  ttl : ∀ old, s.callers token = some old → c.ttl = old.ttl
  named : ∀ h, c = .holding h → h.key = key ∧ h.token = token ∨
    ∃ old, s.callers token = some (.holding old) ∧ h.key = old.key ∧ h.token = old.token
  asks : ∀ r ∈ sent, r.token = token ∧
    ∀ ttl, r.command = .readAcquire ttl → c.ttl.asMillisU64 = ttl

theorem acquireRequest_lease {writeMode : Bool} {options : LockOptions} {command : Command}
    (sent : acquireRequest writeMode options = .ok command) (lease : command = .readAcquire ttl) :
    options.ttl.asMillisU64 = ttl := by
  subst lease
  cases valid : options.validate with
  | error error => simp [acquireRequest, valid, bind, Except.bind] at sent
  | ok => cases writeMode <;> simp_all [acquireRequest, bind, Except.bind, pure, Except.pure]

theorem acquireReply_named {reply : Reply} {shared : RwShared}
    (answered : acquireReply key token writeMode ttl reply = .ok shared) :
    shared.key = key ∧ shared.token = token ∧ shared.ttl = ttl := by
  unfold acquireReply at answered
  split at answered
  · split at answered <;> contradiction
  · split at answered <;> cases answered
    exact ⟨rfl, rfl, rfl⟩

theorem RwShared.extendRequest_ok {h : RwShared} {ttl : Duration} {command : Command}
    (sent : h.extendRequest ttl = .ok command) :
    minTtl.nanos ≤ ttl.nanos ∧ h.gone = false ∧ command = .extend ttl.asMillisU64 := by
  by_cases floor : ttl.nanos < minTtl.nanos
  · simp [extendRequest, validateTtl, floor, bind, Except.bind] at sent
  · cases gone : h.gone <;>
      simp_all [extendRequest, validateTtl, bind, Except.bind, pure, Except.pure]

theorem RwShared.extendReply_named (h : RwShared) (reply : Reply) :
    (h.extendReply reply).2.key = h.key ∧ (h.extendReply reply).2.token = h.token ∧
      (h.extendReply reply).2.ttl = h.ttl := by
  unfold extendReply
  split
  · exact ⟨rfl, rfl, rfl⟩
  · split <;> exact ⟨rfl, rfl, rfl⟩

theorem RwLock.act_cases {s t : RwLock} (stepped : s.act key action = some t) :
    (∃ request ∈ s.wire, action = .run request ∧ t = s.run key request) ∨
      ∃ token c sent, t = s.put token c sent ∧ s.Follows key token c sent := by
  have departs {token : String} {h : RwShared} {command : Command}
      (held : s.callers token = some (.holding h)) (other : ∀ ttl, command ≠ .readAcquire ttl) :
      s.Follows key token (.holding { h with gone := true }) [⟨token, command⟩] := by
    constructor
    · intro old called
      cases Option.some.inj (held.symm.trans called)
      rfl
    · rintro _ ⟨⟩
      exact .inr ⟨h, held, rfl, rfl⟩
    · intro r member
      cases List.mem_singleton.mp member
      exact ⟨rfl, fun ttl acquire => absurd acquire (other ttl)⟩
  cases action with
  | ask token writeMode options =>
    simp only [act] at stepped
    split at stepped <;> [skip; contradiction]
    rename_i fresh
    split at stepped <;> cases stepped
    · exact .inr ⟨token, _, _, rfl, by simp [fresh], by simp, by simp⟩
    · rename_i sent
      refine .inr ⟨token, _, _, rfl, by simp [fresh], by simp, ?_⟩
      intro r member
      cases List.mem_singleton.mp member
      exact ⟨rfl, fun ttl => acquireRequest_lease sent⟩
  | answer token =>
    simp only [act] at stepped
    split at stepped <;> [skip; contradiction]
    rename_i called _
    split at stepped <;> cases stepped
    · exact .inr ⟨token, _, _, rfl, by simp [called, Caller.ttl], by simp, by simp⟩
    · obtain ⟨key, named, ttl⟩ := acquireReply_named ‹_›
      refine .inr ⟨token, _, _, rfl, by simp [called, Caller.ttl, ttl], ?_, by simp⟩
      rintro _ ⟨⟩
      exact .inl ⟨key, named⟩
  | extend token ttl =>
    simp only [act] at stepped
    split at stepped <;> [skip; contradiction]
    rename_i shared held
    split at stepped <;> cases stepped
    rename_i sent
    obtain ⟨_, _, rfl⟩ := RwShared.extendRequest_ok sent
    refine .inr ⟨token, _, _, rfl, by simp [held], ?_, by simp⟩
    rintro _ ⟨⟩
    exact .inr ⟨shared, held, rfl, rfl⟩
  | extended e =>
    simp only [act] at stepped
    split at stepped <;> [skip; contradiction]
    rename_i shared _ held _
    split at stepped <;> cases stepped
    obtain ⟨key, named, ttl⟩ := shared.extendReply_named e.reply
    refine .inr ⟨_, _, _, rfl, by simp [held, Caller.ttl, ttl], ?_, by simp⟩
    rintro _ ⟨⟩
    exact .inr ⟨shared, held, key, named⟩
  | release token =>
    simp only [act] at stepped
    split at stepped <;> [skip; contradiction]
    rename_i shared held
    split at stepped <;> cases stepped
    refine .inr ⟨token, _, _, rfl, departs held ?_⟩
    intro ttl
    unfold RwShared.releaseRequest
    split <;> simp
  | drop token =>
    simp only [act] at stepped
    split at stepped <;> [skip; contradiction]
    rename_i shared held
    split at stepped <;> cases stepped
    refine .inr ⟨token, _, _, rfl, departs held ?_⟩
    intro ttl
    unfold RwShared.dropRequest
    split <;> simp
  | run request =>
    simp only [act] at stepped
    split at stepped <;> cases stepped
    exact .inl ⟨request, ‹_›, rfl, rfl⟩

namespace RwLock

theorem put_callers {s : RwLock} (found : (s.put token d sent).callers other = some c) :
    (other = token ∧ c = d) ∨ (other ≠ token ∧ s.callers other = some c) := by
  rcases update_eq_some found with ⟨same, entry⟩ | old
  · exact .inl ⟨same, (Option.some.inj entry).symm⟩
  · exact .inr old

/-- A reader in the hash is some caller's token, and that caller asked for a
lease that does not round to zero. -/
structure Inv (key : String) (s : RwLock) : Prop where
  sound : Sound key s.db
  asked : ∀ r ∈ s.wire, ∀ ttl, r.command = .readAcquire ttl →
    ∃ c, s.callers r.token = some c ∧ c.ttl.asMillisU64 = ttl
  enrolled : ∀ fields stop token, s.db key = some ⟨.hash fields, stop⟩ → Registered fields token →
    ∃ c, s.callers token = some c ∧ c.ttl.asMillisU64 ≠ 0
  named : ∀ token h, s.callers token = some (.holding h) → h.key = key ∧ h.token = token

theorem Inv.put {s : RwLock} (inv : s.Inv key) (follows : s.Follows key token c sent) :
    (s.put token c sent).Inv key := by
  have present {other : String} {old : Caller} (called : s.callers other = some old) :
      ∃ d, (s.put token c sent).callers other = some d ∧ d.ttl = old.ttl := by
    by_cases same : other = token
    · subst same
      exact ⟨c, Function.update_self .., follows.ttl old called⟩
    · exact ⟨old, (Function.update_of_ne same ..).trans called, rfl⟩
  refine ⟨inv.sound, ?_, ?_, ?_⟩
  · intro r member ttl acquire
    rcases List.mem_append.mp member with new | old
    · obtain ⟨rfl, lease⟩ := follows.asks r new
      exact ⟨c, Function.update_self .., lease ttl acquire⟩
    · obtain ⟨old, called, lease⟩ := inv.asked r old ttl acquire
      obtain ⟨d, called, same⟩ := present called
      exact ⟨d, called, same ▸ lease⟩
  · intro fields stop other stored registered
    obtain ⟨old, called, lease⟩ := inv.enrolled fields stop other stored registered
    obtain ⟨d, called, same⟩ := present called
    exact ⟨d, called, same ▸ lease⟩
  · intro other h called
    rcases put_callers called with ⟨rfl, rfl⟩ | ⟨_, called⟩
    · rcases follows.named h rfl with named | ⟨old, held, key, name⟩
      · exact named
      · rw [key, name]
        exact inv.named _ old held
    · exact inv.named other h called

theorem Inv.run {s : RwLock} (inv : s.Inv key) {r : Request} (sent : r ∈ s.wire) :
    (s.run key r).Inv key := by
  obtain ⟨status, fence, after, ran, effect, counts⟩ :=
    inv.sound.answers s.now r.token r.command
  have db : (s.run key r).db = after := by simp only [RwLock.run, ran]
  refine ⟨db ▸ effect.sound inv.sound counts, ?_, ?_, inv.named⟩
  · exact fun request member => inv.asked request (List.mem_of_mem_erase member)
  · intro fields stop other stored registered
    rw [db] at stored
    rcases effect.registered stored registered with
      ⟨before, last, stored, registered⟩ | ⟨ttl, acquire, positive, rfl⟩
    · exact inv.enrolled before last other stored registered
    · obtain ⟨c, called, lease⟩ := inv.asked r sent ttl acquire
      exact ⟨c, called, lease ▸ positive⟩

theorem inv_reachable {s : RwLock} (reach : (rwlock key).Reachable s) : s.Inv key := by
  refine Machine.Reachable.invariant ?_ ?_ reach
  · rintro s ⟨lock, counter, wire, _, callers, _⟩
    exact ⟨⟨by simp [lock], by simp [Counts, counter]⟩, by simp [wire], by simp [lock], by simp [callers]⟩
  · intro s timed t inv stepped
    have waited : (s.wait timed.delay).Inv key := ⟨inv.sound, inv.asked, inv.enrolled, inv.named⟩
    rcases act_cases stepped with ⟨request, sent, _, rfl⟩ | ⟨token, c, sent, rfl, follows⟩
    · exact waited.run sent
    · exact waited.put follows

end RwLock

def RwLock.fresh : RwLock := ⟨0, fun _ => none, [], [], fun _ => none, fun _ => none⟩

theorem RwLock.fresh_initial (key : String) : (rwlock key).initial .fresh :=
  ⟨rfl, rfl, rfl, rfl, fun _ => rfl, fun _ => rfl⟩

/-- After a delay, a call whose script runs and is answered at once. -/
def served (token : String) (writeMode : Bool) (ms : UInt64) (delay : Nat) : List Timed :=
  [⟨delay, .ask token writeMode ⟨.fromMillis ms⟩⟩,
    ⟨0, .run ⟨token, if writeMode then .writeAcquire ms.toNat else .readAcquire ms.toNat⟩⟩,
    ⟨0, .answer token⟩]

end Palisade.ReadWrite
