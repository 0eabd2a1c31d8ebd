import Palisade.Single.Handles
import Palisade.Server.Wire
import Palisade.Server.Registry
import Palisade.Server.Sessions

/-! Runs of the lock service. A handler talks to Redis, to the session book and to the
registry in steps of their own, and steps of different handlers interleave freely. A
request enters here once it has passed the checks that have no effect (readiness,
identity, permission, maximal lease). Redis keeps its own clock, in milliseconds. -/
namespace Palisade.Server
open Redis Single Transition

/-- A `TryLock`, or a `TryLockFor` if it waits. -/
structure LockRequest where
  principal : String
  key : String
  /-- Empty for none. -/
  session : String
  ttl : Duration
  waits : Bool
  deriving DecidableEq

inductive LockOutcome where
  | granted (token : String) (fencingToken ttlMs : Nat)
  | held (key : String)
  | timedOut (key : String)
  deriving DecidableEq

inductive Answer where
  | lock (result : Except Status LockOutcome)
  | unlock (result : Except Status UnlockResult)
  | force (result : Except Status Bool)
  deriving DecidableEq

/-- What a handler does next, or what it answered. -/
inductive Handler where
  | asking (request : LockRequest)
  /-- It holds a lock and binds it to its session. -/
  | binding (request : LockRequest) (token : String) (fence : FencingToken)
  /-- It holds a lock and registers it. -/
  | registering (request : LockRequest) (token : String) (fence : FencingToken)
  /-- It gives its lock back and answers with an error. -/
  | undoing (request : LockRequest) (token : String) (status : Status)
  | unlocking (key token : String)
  | forcing (key : String)
  /-- It takes the key out of the registry. -/
  | freeing (key : String) (answer : Answer)
  /-- It lowers the count of the principal whose key it took out. -/
  | owing (owner : String) (answer : Answer)
  | answered (answer : Answer)
  deriving DecidableEq

/-- A request to Redis whose caller has stopped waiting for the answer; it may yet run. -/
inductive Stray where
  | acquire (key : String) (ttl : Duration)
  | release (key token : String)
  | del (key : String)
  deriving DecidableEq

/-- The requests under way once this one was awaited. -/
def Stray.after (request : Stray) (strays : List Stray) : Fate → List Stray
  | .executes => strays
  | .fails _ => request :: strays

/-- A lock whose handler answered `Granted`. -/
structure Grant where
  key : String
  token : String
  principal : String
  deriving DecidableEq

/-- A quota refusal, with the number of keys the principal held. -/
structure Refusal where
  principal : String
  held : Nat
  deriving DecidableEq

/-- `minted` are the lock tokens so far; no code reads it, nor `grants` and `refusals`. -/
structure Service where
  now : Nat
  db : Keyspace
  registry : HeldRegistry
  sessions : Sessions
  handlers : List Handler
  strays : List Stray
  minted : List String
  grants : List Grant
  refusals : List Refusal

inductive ServiceAction where
  | tryLock (request : LockRequest)
  /-- A handler's acquire script runs and is answered; its token is fresh. -/
  | acquire (i : Nat) (token : String)
  /-- The connection fails, or with no message the time for one attempt of a waiting
  handler is over. -/
  | abandon (i : Nat) (message : Option String)
  /-- An abandoned acquire runs. -/
  | stray (j : Nat) (token : String)
  /-- An abandoned release runs. -/
  | late (j : Nat)
  /-- The time to wait is over. -/
  | giveUp (i : Nat)
  | bind (i : Nat)
  | register (i : Nat)
  | undo (i : Nat) (fate : Fate)
  | unlock (key token : String)
  | unlockForce (key : String)
  /-- The script of an `Extend`, or of the watchdog of a lock that is not granted yet. -/
  | extend (key token : String) (ttl : Duration)
  /-- The Redis step of an `Unlock` or `UnlockForce`. -/
  | run (i : Nat) (fate : Fate)
  | remove (i : Nat)
  | decrement (i : Nat)
  /-- A step of the session book other than binding a lock and releasing one. -/
  | session (action : SessionAction)
  /-- A sweep or `CloseSession` awaits its next release, or goes on. -/
  | release (task : Nat) (fate : Fate)
  deriving DecidableEq

/-- The delays are those of the two clocks. -/
structure ServiceMoment where
  delay : Nat
  elapsed : Nat
  action : ServiceAction
  deriving DecidableEq

def internal (error : Error) : Status := ⟨.internal, error.text⟩

namespace Service

def wait (s : Service) (delay elapsed : Nat) : Service :=
  { s with now := s.now + delay, sessions := s.sessions.wait elapsed }

def set (s : Service) (i : Nat) (handler : Handler) : Service :=
  { s with handlers := s.handlers.set i handler }

/-- The acquire script of `try_lock_with`, with its answer. -/
def acquireOn (s : Service) (key token : String) (ttl : Duration) :
    Except Error HandleShared × Keyspace :=
  let ms := ttl.asMillisU64
  let (reply, db) := (Single.acquire key (fenceKeyFor key) token ms (fenceTtlMs ms)).exec s.now s.db
  (acquireReply key token ttl .balanced reply, db)

/-- The store after an extend script. -/
def extendOn (s : Service) (key token : String) (ttl : Duration) : Keyspace :=
  let ms := ttl.asMillisU64
  ((Single.extend key (fenceKeyFor key) token ms (fenceTtlMs ms)).exec s.now s.db).2

/-- `unlock_with_token` -/
def unlockWithToken (s : Service) (key token : String) : Fate → Except Error Bool × Keyspace
  | .executes =>
    let (reply, db) := (Single.release key token).exec s.now s.db
    (unlockReply reply, db)
  | .fails message => (.error (.backend s!"unlock failed: {message}"), s.db)

/-- `force_unlock` -/
def forceUnlock (s : Service) (key : String) : Fate → Except Error Bool × Keyspace
  | .executes =>
    match (Script.del key).exec s.now s.db with
    | (.ok n, db) => (.ok (decide (0 < n)), db)
    | (.error fault, db) => (.error (.backend s!"force unlock failed: {fault.text}"), db)
  | .fails message => (.error (.backend s!"force unlock failed: {message}"), s.db)

/-- The handler after its acquire attempt was answered. -/
def attempted (request : LockRequest) (token : String) : Except Error HandleShared → Handler
  | .ok shared => .binding request token shared.fence
  | .error (.held _) =>
    if request.waits then .asking request else .answered (.lock (.ok (.held request.key)))
  | .error error => .answered (.lock (.error (internal error)))

/-- Redis has the lock. -/
def Live (s : Service) (grant : Grant) : Prop := holder grant.key s.db s.now = some grant.token

instance (s : Service) (grant : Grant) : Decidable (s.Live grant) :=
  inferInstanceAs (Decidable (_ = _))

/-- The keys whose live lock was granted to `principal`. -/
def heldBy (s : Service) (principal : String) : List String :=
  ((s.grants.filter fun grant =>
    decide (grant.principal = principal ∧ s.Live grant)).map Grant.key).dedup

def acquireStep (s : Service) (i : Nat) (request : LockRequest) (token : String) : Service :=
  match LockOptions.validate ⟨request.ttl⟩ with
  | .error error => s.set i (.answered (.lock (.error (internal error))))
  | .ok () =>
    let (result, db) := s.acquireOn request.key token request.ttl
    { s.set i (attempted request token result) with db, minted := token :: s.minted }

/-- What a handler answers that waits no longer for its attempt. -/
def abandoned (request : LockRequest) : Option String → Option (Except Status LockOutcome)
  | some message => some (.error (internal (.backend s!"acquire script failed: {message}")))
  | none => if request.waits then some (.ok (.timedOut request.key)) else none

def abandonStep (s : Service) (i : Nat) (request : LockRequest) (message : Option String) :
    Option Service :=
  match LockOptions.validate ⟨request.ttl⟩, abandoned request message with
  | .ok (), some result => some { s.set i (.answered (.lock result)) with
      strays := .acquire request.key request.ttl :: s.strays }
  | _, _ => none

def bindStep (s : Service) (i : Nat) (request : LockRequest) (token : String) (fence : FencingToken) :
    Service :=
  if request.session = "" then s.set i (.registering request token fence)
  else
    let (bound, _) := s.sessions.book.bind s.sessions.now request.session request.key token
    { s.set i (if bound then .registering request token fence
        else .undoing request token ⟨.notFound, "unknown session"⟩) with
      sessions := (s.sessions.act (.bind request.session request.key token)).getD s.sessions }

/-- The handler once its lock was registered. -/
def granted (request : LockRequest) (token : String) (fence : FencingToken) : Handler :=
  .answered (.lock (.ok (.granted token fence.value request.ttl.asMillisU64)))

def registerStep (maxKeys : String → Nat) (s : Service) (i : Nat) (request : LockRequest)
    (token : String) (fence : FencingToken) : Service :=
  let principal := request.principal
  match s.registry.tryAcquire request.key principal (maxKeys principal) with
  | (true, registry) =>
    { s.set i (granted request token fence) with
      registry
      grants := ⟨request.key, token, principal⟩ :: s.grants }
  | (false, registry) =>
    { s.set i (.undoing request token
        ⟨.resourceExhausted, s!"principal `{principal}` hit max_keys"⟩) with
      registry
      refusals := ⟨principal, (s.heldBy principal).length⟩ :: s.refusals }

def unlockStep (s : Service) (i : Nat) (key token : String) (fate : Fate) : Service :=
  let (result, db) := s.unlockWithToken key token fate
  let answer := Answer.unlock (unlockResponse result)
  { s.set i (if result = .ok true then .freeing key answer else .answered answer) with
    db
    strays := Stray.after (.release key token) s.strays fate }

def forceStep (s : Service) (i : Nat) (key : String) (fate : Fate) : Service :=
  let (result, db) := s.forceUnlock key fate
  { s.set i (match result with
      | .ok released => .freeing key (.force (.ok released))
      | .error error => .answered (.force (.error (internal error)))) with
    db
    strays := Stray.after (.del key) s.strays fate }

def removeStep (s : Service) (i : Nat) (key : String) (answer : Answer) : Service :=
  let (owner, registry) := s.registry.removeHolder key
  { s.set i (match owner with
      | some owner => .owing owner answer
      | none => .answered answer) with registry }

/-- The lock a session task releases next. -/
def nextRelease (s : Service) (task : Nat) : Option (String × String) :=
  match s.sessions.tasks[task]? with
  | some (.releasing (lock :: _) _) => some lock
  | _ => none

def releaseStep (s : Service) (task : Nat) (fate : Fate) : Service :=
  match s.nextRelease task with
  | some (key, token) => { s with
      db := (s.unlockWithToken key token fate).2
      strays := Stray.after (.release key token) s.strays fate }
  | none => s

/-- A release that was given up on runs after all. -/
def lateStep (s : Service) (j : Nat) : Stray → Option Service
  | .acquire _ _ => none
  | .release key token => some { s with
      db := (s.unlockWithToken key token .executes).2
      strays := s.strays.eraseIdx j }
  | .del key => some { s with
      db := (s.forceUnlock key .executes).2
      strays := s.strays.eraseIdx j }

def act (maxKeys : String → Nat) (s : Service) : ServiceAction → Option Service
  | .tryLock request => some { s with handlers := s.handlers ++ [.asking request] }
  | .acquire i token =>
    match s.handlers[i]? with
    | some (.asking request) => if token ∉ s.minted then some (s.acquireStep i request token) else none
    | _ => none
  | .abandon i message =>
    match s.handlers[i]? with
    | some (.asking request) => s.abandonStep i request message
    | _ => none
  | .stray j token =>
    match s.strays[j]? with
    | some (.acquire key ttl) =>
      if token ∉ s.minted then some { s with
        db := (s.acquireOn key token ttl).2
        strays := s.strays.eraseIdx j
        minted := token :: s.minted }
      else none
    | _ => none
  | .late j => (s.strays[j]?).bind (s.lateStep j)
  | .giveUp i =>
    match s.handlers[i]? with
    | some (.asking request) =>
      if request.waits then some (s.set i (.answered (.lock (.ok (.timedOut request.key))))) else none
    | _ => none
  | .bind i =>
    match s.handlers[i]? with
    | some (.binding request token fence) => some (s.bindStep i request token fence)
    | _ => none
  | .register i =>
    match s.handlers[i]? with
    | some (.registering request token fence) => some (s.registerStep maxKeys i request token fence)
    | _ => none
  | .undo i fate =>
    match s.handlers[i]? with
    | some (.undoing request token status) => some { s.set i (.answered (.lock (.error status))) with
        db := (s.unlockWithToken request.key token fate).2
        strays := Stray.after (.release request.key token) s.strays fate }
    | _ => none
  | .unlock key token => some { s with handlers := s.handlers ++ [.unlocking key token] }
  | .unlockForce key => some { s with handlers := s.handlers ++ [.forcing key] }
  | .extend key token ttl =>
    if minTtl.nanos ≤ ttl.nanos then some { s with db := s.extendOn key token ttl } else none
  | .run i fate =>
    match s.handlers[i]? with
    | some (.unlocking key token) => some (s.unlockStep i key token fate)
    | some (.forcing key) => some (s.forceStep i key fate)
    | _ => none
  | .remove i =>
    match s.handlers[i]? with
    | some (.freeing key answer) => some (s.removeStep i key answer)
    | _ => none
  | .decrement i =>
    match s.handlers[i]? with
    | some (.owing owner answer) => some { s.set i (.answered answer) with
        registry := s.registry.decrement owner }
    | _ => none
  | .session action =>
    match action with
    | .bind _ _ _ | .proceed _ => none
    | action => (s.sessions.act action).map fun sessions => { s with sessions }
  | .release task fate =>
    (s.sessions.act (.proceed task)).map fun sessions => { s.releaseStep task fate with sessions }

end Service

namespace Handler

/-- The token of the lock a handler holds and has not granted to its caller. -/
def token? : Handler → Option String
  | .binding _ token _ | .registering _ token _ | .undoing _ token _ => some token
  | _ => none

/-- The key a handler is going to take out of the registry. -/
def frees : Handler → Option String
  | .freeing key _ => some key
  | _ => none

/-- The principal whose count a handler is going to lower. -/
def owes : Handler → Option String
  | .owing owner _ => some owner
  | _ => none

/-- A handler that has no business with the registry goes on, with its lock or without. -/
structure Quiet (before after : Handler) : Prop where
  token : after.token? = none ∨ after.token? = before.token?
  frees : before.frees = none
  owes : before.owes = none
  owesAfter : after.owes = none

/-- A handler that comes in. -/
structure Blank (handler : Handler) : Prop where
  token : handler.token? = none
  owes : handler.owes = none

end Handler

/-- Redis no longer has the lock under `key`, and all others. -/
def Ends (key : String) (now : Nat) (before after : Keyspace) : Prop :=
  ∀ name token, holder name after now = some token ↔ holder name before now = some token ∧ name ≠ key

namespace Service

/-- Everything an action can do, by what it does to the store and the registry. -/
inductive Moves (maxKeys : String → Nat) (s : Service) : ServiceAction → Service → Prop where
  | enter {action : ServiceAction} {handler : Handler} : handler.Blank →
      Moves maxKeys s action { s with handlers := s.handlers ++ [handler] }
  | goOn {action : ServiceAction} {i : Nat} {handler next : Handler} (book : Sessions)
      (left : List Stray) : s.handlers[i]? = some handler → handler.Quiet next →
      Moves maxKeys s action { s.set i next with sessions := book, strays := left }
  | session {action : ServiceAction} (book : Sessions) : Moves maxKeys s action { s with sessions := book }
  | acquire {i : Nat} {request : LockRequest} {token : String} :
      s.handlers[i]? = some (.asking request) → token ∉ s.minted →
      Moves maxKeys s (.acquire i token) {
        s.set i (attempted request token (s.acquireOn request.key token request.ttl).1) with
        db := (s.acquireOn request.key token request.ttl).2
        minted := token :: s.minted }
  | stray {j : Nat} {key token : String} {ttl : Duration} (left : List Stray) :
      token ∉ s.minted → Moves maxKeys s (.stray j token) { s with
        db := (s.acquireOn key token ttl).2
        strays := left
        minted := token :: s.minted }
  | tracked {i : Nat} {request : LockRequest} {token owner : String} {fence : FencingToken} :
      s.handlers[i]? = some (.registering request token fence) →
      s.registry.holders request.key = some owner →
      Moves maxKeys s (.register i) { s.set i (granted request token fence) with
        grants := ⟨request.key, token, request.principal⟩ :: s.grants }
  | inserted {i : Nat} {request : LockRequest} {token : String} {fence : FencingToken} :
      s.handlers[i]? = some (.registering request token fence) →
      s.registry.holders request.key = none →
      ¬ s.registry.Full request.principal (maxKeys request.principal) →
      Moves maxKeys s (.register i) { s.set i (granted request token fence) with
        registry := s.registry.insert request.key request.principal
        grants := ⟨request.key, token, request.principal⟩ :: s.grants }
  | refused {i : Nat} {request : LockRequest} {token : String} {fence : FencingToken} (status : Status) :
      s.handlers[i]? = some (.registering request token fence) →
      s.registry.holders request.key = none →
      s.registry.Full request.principal (maxKeys request.principal) →
      Moves maxKeys s (.register i) { s.set i (.undoing request token status) with
        refusals := ⟨request.principal, (s.heldBy request.principal).length⟩ :: s.refusals }
  | undo {i : Nat} {fate : Fate} {request : LockRequest} {token : String} {status : Status}
      (left : List Stray) : s.handlers[i]? = some (.undoing request token status) →
      Moves maxKeys s (.undo i fate) { s.set i (.answered (.lock (.error status))) with
        db := (s.unlockWithToken request.key token fate).2
        strays := left }
  | freed {i : Nat} {fate : Fate} {handler : Handler} {key : String} {answer : Answer}
      {after : Keyspace} (left : List Stray) : s.handlers[i]? = some handler → handler.Blank →
      handler.frees = none → Ends key s.now s.db after →
      Moves maxKeys s (.run i fate) { s.set i (.freeing key answer) with db := after, strays := left }
  | removed {i : Nat} {key owner : String} {answer : Answer} :
      s.handlers[i]? = some (.freeing key answer) → s.registry.holders key = some owner →
      Moves maxKeys s (.remove i) { s.set i (.owing owner answer) with
        registry := (s.registry.removeHolder key).2 }
  | missing {i : Nat} {key : String} {answer : Answer} :
      s.handlers[i]? = some (.freeing key answer) → s.registry.holders key = none →
      Moves maxKeys s (.remove i) { s.set i (.answered answer) with
        registry := (s.registry.removeHolder key).2 }
  | decrement {i : Nat} {owner : String} {answer : Answer} :
      s.handlers[i]? = some (.owing owner answer) →
      Moves maxKeys s (.decrement i) { s.set i (.answered answer) with
        registry := s.registry.decrement owner }
  | release {task : Nat} {fate : Fate} {key token : String} (book : Sessions) (left : List Stray) :
      s.nextRelease task = some (key, token) →
      Moves maxKeys s (.release task fate) { s with
        db := (s.unlockWithToken key token fate).2
        sessions := book
        strays := left }
  | lateRelease {j : Nat} {key token : String} (left : List Stray) :
      s.strays[j]? = some (.release key token) → Moves maxKeys s (.late j) { s with
        db := (s.unlockWithToken key token .executes).2
        strays := left }
  | lateDel {j : Nat} {key : String} {after : Keyspace} (left : List Stray) :
      s.strays[j]? = some (.del key) → Ends key s.now s.db after →
      Moves maxKeys s (.late j) { s with db := after, strays := left }
  | extend {key token : String} {ttl : Duration} : Moves maxKeys s (.extend key token ttl) { s with
      db := s.extendOn key token ttl }

variable {maxKeys : String → Nat} {s t : Service}

theorem acquireStep_moves {i : Nat} {request : LockRequest} {token : String}
    (asking : s.handlers[i]? = some (.asking request)) (fresh : token ∉ s.minted) :
    s.Moves maxKeys (.acquire i token) (s.acquireStep i request token) := by
  unfold acquireStep
  split
  · exact .goOn s.sessions s.strays asking ⟨.inl rfl, rfl, rfl, rfl⟩
  · exact .acquire asking fresh

theorem bindStep_moves {i : Nat} {request : LockRequest} {token : String} {fence : FencingToken}
    {action : ServiceAction} (binding : s.handlers[i]? = some (.binding request token fence)) :
    s.Moves maxKeys action (s.bindStep i request token fence) := by
  unfold bindStep
  split
  · exact .goOn s.sessions s.strays binding ⟨.inr rfl, rfl, rfl, rfl⟩
  · refine .goOn _ s.strays binding ?_
    split
    · exact ⟨.inr rfl, rfl, rfl, rfl⟩
    · exact ⟨.inr rfl, rfl, rfl, rfl⟩

theorem registerStep_moves {i : Nat} {request : LockRequest} {token : String} {fence : FencingToken}
    (registering : s.handlers[i]? = some (.registering request token fence)) :
    s.Moves maxKeys (.register i) (s.registerStep maxKeys i request token fence) := by
  have acquired := s.registry.acquired request.key request.principal (maxKeys request.principal)
  simp only [registerStep]
  generalize s.registry.tryAcquire request.key request.principal (maxKeys request.principal) = outcome
    at acquired ⊢
  obtain ⟨admitted, registry⟩ := outcome
  cases acquired with
  | tracked found => exact .tracked registering found
  | refused free full => exact .refused _ registering free full
  | inserted free room => exact .inserted registering free room

theorem unlockStep_moves {i : Nat} {key token : String} (fate : Fate)
    (unlocking : s.handlers[i]? = some (.unlocking key token)) :
    s.Moves maxKeys (.run i fate) (s.unlockStep i key token fate) := by
  have stays {result : Except Error Bool} (denied : result ≠ .ok true)
      (same : s.unlockWithToken key token fate = (result, s.db)) :
      s.Moves maxKeys (.run i fate) (s.unlockStep i key token fate) := by
    simp only [unlockStep, same, if_neg denied]
    exact .goOn s.sessions _ unlocking ⟨.inl rfl, rfl, rfl, rfl⟩
  cases fate with
  | fails message => exact stays (by simp) rfl
  | executes =>
    by_cases owner : holder key s.db s.now = some token
    · simp only [unlockStep, unlockWithToken, exec_release_owner owner, unlockReply, decide_true, if_true]
      exact .freed _ unlocking ⟨rfl, rfl⟩ rfl fun name other => holder_erase_other
    · obtain ⟨denied, same⟩ := exec_release_stranger owner
      refine stays ?_ (Prod.ext rfl same)
      simp only [unlockWithToken]
      generalize ((Single.release key token).exec s.now s.db).1 = reply at denied ⊢
      cases reply with
      | error fault => simp [unlockReply]
      | ok status => simpa [unlockReply] using denied

/-- `DEL` is always answered, and the lock is gone. -/
theorem forceUnlock_ends (key : String) : (∃ released, (s.forceUnlock key .executes).1 = .ok released) ∧
    Ends key s.now s.db (s.forceUnlock key .executes).2 := by
  have ends : Ends key s.now s.db ((Script.del key).exec s.now s.db).2 :=
    fun name other => holder_del_other
  simp only [forceUnlock, Script.exec_del] at ends ⊢
  cases found : s.db.lookup s.now key with
  | none =>
    simp only [found] at ends ⊢
    exact ⟨⟨_, rfl⟩, ends⟩
  | some entry =>
    simp only [found] at ends ⊢
    exact ⟨⟨_, rfl⟩, ends⟩

theorem forceStep_moves {i : Nat} {key : String} (fate : Fate)
    (forcing : s.handlers[i]? = some (.forcing key)) :
    s.Moves maxKeys (.run i fate) (s.forceStep i key fate) := by
  cases fate with
  | fails message => exact .goOn s.sessions _ forcing ⟨.inl rfl, rfl, rfl, rfl⟩
  | executes =>
    obtain ⟨⟨released, answered⟩, ends⟩ := s.forceUnlock_ends key
    simp only [forceStep, answered]
    exact .freed _ forcing ⟨rfl, rfl⟩ rfl ends

theorem removeStep_moves {i : Nat} {key : String} {answer : Answer}
    (freeing : s.handlers[i]? = some (.freeing key answer)) :
    s.Moves maxKeys (.remove i) (s.removeStep i key answer) := by
  cases found : s.registry.holders key with
  | some owner =>
    simp only [removeStep, HeldRegistry.removeHolder, found]
    exact .removed freeing found
  | none =>
    simp only [removeStep, HeldRegistry.removeHolder, found]
    exact .missing freeing found

theorem act_moves {action : ServiceAction} (stepped : s.act maxKeys action = some t) :
    s.Moves maxKeys action t := by
  cases action with
  | tryLock request =>
    cases stepped
    exact .enter ⟨rfl, rfl⟩
  | acquire i token =>
    simp only [act] at stepped
    split at stepped
    · obtain ⟨fresh, ⟨⟩⟩ := Option.ite_none_right_eq_some.mp stepped
      exact acquireStep_moves ‹_› fresh
    · contradiction
  | abandon i message =>
    simp only [act, abandonStep] at stepped
    split at stepped
    · split at stepped
      · cases stepped
        exact .goOn s.sessions _ ‹_› ⟨.inl rfl, rfl, rfl, rfl⟩
      · contradiction
    · contradiction
  | stray j token =>
    simp only [act] at stepped
    split at stepped
    · obtain ⟨fresh, ⟨⟩⟩ := Option.ite_none_right_eq_some.mp stepped
      exact .stray _ fresh
    · contradiction
  | late j =>
    obtain ⟨stray, found, ran⟩ := Option.bind_eq_some_iff.mp stepped
    cases stray with
    | acquire key ttl => contradiction
    | release key token =>
      cases ran
      exact .lateRelease _ found
    | del key =>
      cases ran
      exact .lateDel _ found (s.forceUnlock_ends key).2
  | giveUp i =>
    simp only [act] at stepped
    split at stepped
    · obtain ⟨_, ⟨⟩⟩ := Option.ite_none_right_eq_some.mp stepped
      exact .goOn s.sessions s.strays ‹_› ⟨.inl rfl, rfl, rfl, rfl⟩
    · contradiction
  | bind i =>
    simp only [act] at stepped
    split at stepped
    · cases stepped
      exact bindStep_moves ‹_›
    · contradiction
  | register i =>
    simp only [act] at stepped
    split at stepped
    · cases stepped
      exact registerStep_moves ‹_›
    · contradiction
  | undo i fate =>
    simp only [act] at stepped
    split at stepped
    · cases stepped
      exact .undo _ ‹_›
    · contradiction
  | unlock key token | unlockForce key =>
    cases stepped
    exact .enter ⟨rfl, rfl⟩
  | extend key token ttl =>
    obtain ⟨_, ⟨⟩⟩ := Option.ite_none_right_eq_some.mp stepped
    exact .extend
  | run i fate =>
    simp only [act] at stepped
    split at stepped
    · cases stepped
      exact unlockStep_moves fate ‹_›
    · cases stepped
      exact forceStep_moves fate ‹_›
    · contradiction
  | remove i =>
    simp only [act] at stepped
    split at stepped
    · cases stepped
      exact removeStep_moves ‹_›
    · contradiction
  | decrement i =>
    simp only [act] at stepped
    split at stepped
    · cases stepped
      exact .decrement ‹_›
    · contradiction
  | session action =>
    simp only [act] at stepped
    split at stepped
    · contradiction
    · contradiction
    · obtain ⟨book, _, rfl⟩ := Option.map_eq_some_iff.mp stepped
      exact .session book
  | release task fate =>
    obtain ⟨book, _, rfl⟩ := Option.map_eq_some_iff.mp stepped
    simp only [releaseStep]
    split
    · exact .release book _ ‹_›
    · exact .session book

end Service

/-- The service starts with no handlers, sessions and registered keys, on any store. -/
def service (maxKeys : String → Nat) : Machine Service ServiceMoment where
  initial s := s.registry = ⟨fun _ => none, fun _ => none⟩ ∧ sessions.initial s.sessions ∧
    s.handlers = [] ∧ s.strays = [] ∧ s.minted = [] ∧ s.grants = [] ∧ s.refusals = []
  step s moment := (s.wait moment.delay moment.elapsed).act maxKeys moment.action

end Palisade.Server
