import Palisade.Server.Auth
import Palisade.Server.Quota
import Palisade.Server.Heartbeats
import Palisade.Server.WatchEvents

/-! The requests of the lock service, from their arrival to the first step behind their
checks. A request that passes its checks goes on in the runs of the service, or is answered
here; `prefix` of a listing is called `under`. -/
namespace Palisade.Server
open Redis Single Http

structure ServiceConfig where
  defaultTtl : Duration
  maxTtl : Duration
  deriving DecidableEq

/-- `watchers` are the live watchers of each principal, by its token. -/
structure PalisadeService where
  config : ServiceConfig
  ready : Bool
  acl : Acl
  watchers : String → Nat
  hub : WatchHub
  service : Service

/-- Leases are milliseconds, 0 or missing for the default. -/
inductive Request where
  | tryLock (key session : String) (ttlMs : Option UInt64)
  | tryLockFor (key session : String) (ttlMs : Option UInt64)
  | unlock (key token : String)
  | extend (key token : String) (ttlMs : UInt64)
  | watch (key : String)
  | registerSession (clientId : String) (ttlMs : UInt64)
  | heartbeat (sessionToken : String)
  | closeSession (sessionToken : String)
  | describeKey (key : String)
  | unlockForce (key : String)
  | listLocks (under : String)
  deriving DecidableEq

inductive ExtendResult where
  | extended
  | lost (fencingToken : Nat)
  deriving DecidableEq

inductive Reply where
  /-- The handler goes on in the runs of the service. -/
  | underway
  | extend (result : ExtendResult)
  /-- The stream has begun. -/
  | watching
  | session (token : String) (ttlMs : Nat)
  | heartbeat
  | key (held : Bool) (version ttlMs : Nat)
  /-- The scan has begun. -/
  | listing
  deriving DecidableEq

def exceeds (ttl : Duration) (config : ServiceConfig) : Status :=
  ⟨.invalidArgument, s!"ttl {ttl.debug} exceeds server maximum {config.maxTtl.debug}"⟩

def optionsFromPb (ttlMs : Option UInt64) (config : ServiceConfig) : Except Status Duration :=
  let ttl := match ttlMs with
    | none | some 0 => config.defaultTtl
    | some ms => .fromMillis ms
  if config.maxTtl.nanos < ttl.nanos then .error (exceeds ttl config) else .ok ttl

/-- `extend_with_token` -/
def Service.extendWithToken (s : Service) (key token : String) (ttl : Duration) (fate : Fate) :
    Except Error Bool × Keyspace :=
  if ttl.nanos < minTtl.nanos then
    (.error (.invalidConfig s!"extend ttl {ttl.debug} is below the {minTtl.debug} floor"), s.db)
  else match fate with
    | .executes =>
      let ms := ttl.asMillisU64
      match (Single.extend key (fenceKeyFor key) token ms (fenceTtlMs ms)).exec s.now s.db with
      | (.ok status, db) => (.ok (decide (status = 1)), db)
      | (.error fault, db) => (.error (.backend s!"extend failed: {fault.text}"), db)
    | .fails message => (.error (.backend s!"extend failed: {message}"), s.db)

/-- `describe_key`: whether it is held, the fence counter, and what is left of the lease. -/
def Service.describeKey (s : Service) (key : String) : Fate → Except Error (Bool × Nat × Nat)
  | .executes =>
    match ((Script.get (fenceKeyFor key)).exec s.now s.db).1 with
    | .error fault => .error (.backend s!"describe failed: {fault.text}")
    | .ok version =>
      let held := s.db.lookup s.now key
      .ok (held.isSome, probedVersion version, ((held.bind Entry.expireAt).map (· - s.now)).getD 0)
  | .fails message => .error (.backend s!"describe failed: {message}")

namespace PalisadeService
variable {α : Type}

def checkReady (s : PalisadeService) : Except Status Unit :=
  if s.ready then .ok () else .error ⟨.unavailable, "server is draining"⟩

/-- The checks of a handler, and what it does once they pass. -/
def checked (s : PalisadeService) (checks : Except Status α) (next : α → Except Status Reply × PalisadeService) :
    Except Status Reply × PalisadeService :=
  match checks with
  | .error status => (.error status, s)
  | .ok a => next a

/-- A handler goes on in the runs of the service. -/
def enter (s : PalisadeService) (handler : Handler) : PalisadeService :=
  { s with service := { s.service with handlers := s.service.handlers ++ [handler] } }

/-- The session book after one of its operations. -/
def setSessions (s : PalisadeService) (sessions : Sessions) : PalisadeService :=
  { s with service := { s.service with sessions } }

/-- `try_lock`, and `try_lock_for` where it waits. -/
def tryLock (s : PalisadeService) (metadata : Metadata) (key session : String) (ttlMs : Option UInt64) (waits : Bool) :
    Except Status Reply × PalisadeService :=
  s.checked (do
    s.checkReady
    let principal ← s.acl.principal metadata
    let ttl ← optionsFromPb ttlMs s.config
    principal.checkLock key
    return ⟨principal.name, key, session, ttl, waits⟩) fun request => (.ok .underway, s.enter (.asking request))

def unlock (s : PalisadeService) (metadata : Metadata) (key token : String) : Except Status Reply × PalisadeService :=
  s.checked (do
    let principal ← s.acl.principal metadata
    principal.checkUnlock key) fun _ => (.ok .underway, s.enter (.unlocking key token))

def extend (s : PalisadeService) (metadata : Metadata) (key token : String) (ttl : Duration) (fate : Fate) :
    Except Status Reply × PalisadeService :=
  s.checked (do
    let principal ← s.acl.principal metadata
    principal.checkExtend key
    if s.config.maxTtl.nanos < ttl.nanos then .error (exceeds ttl s.config)) fun _ =>
      let (result, db) := s.service.extendWithToken key token ttl fate
      (match result with
        | .error error => .error (internal error)
        | .ok extended => .ok (.extend (if extended then .extended else .lost 0)),
        { s with service := { s.service with db } })

/-- The watcher stays counted while its stream lives. -/
def watch (s : PalisadeService) (metadata : Metadata) (key : String) : Except Status Reply × PalisadeService :=
  s.checked (do
    let principal ← s.acl.principal metadata
    principal.checkWatch (s.watchers principal.cfg.token) key
    return principal.cfg.token) fun token => (.ok .watching, { s with
      watchers := Function.update s.watchers token (s.watchers token + 1)
      hub := s.hub.subscribe key })

/-- `register_session`, which mints `token`. -/
def registerSession (s : PalisadeService) (token clientId : String) (ttlMs : UInt64) :
    Except Status Reply × PalisadeService :=
  let ttl := sessionTtl s.config.maxTtl ttlMs
  let sessions := s.service.sessions
  (.ok (.session token ttl.asMillisU64), s.setSessions { sessions with
    book := sessions.book.register sessions.now token clientId ttl
    issued := token :: sessions.issued })

def heartbeat (s : PalisadeService) (sessionToken : String) : Except Status Reply × PalisadeService :=
  let sessions := s.service.sessions
  (match (sessions.book.heartbeat sessions.now sessionToken).1 with
    | .ok => .ok .heartbeat
    | .rateLimited => .error ⟨.resourceExhausted,
        "heartbeat exceeds rate floor (ttl/20); use the documented ttl/3 cadence"⟩
    | .unknown => .error ⟨.notFound, "unknown or expired session"⟩,
    s.setSessions ((sessions.act (.heartbeat sessionToken)).getD sessions))

def closeSession (s : PalisadeService) (sessionToken : String) : Except Status Reply × PalisadeService :=
  let sessions := s.service.sessions
  (.ok .underway, s.setSessions ((sessions.act (.close sessionToken)).getD sessions))

/-- `describe_key` gives its watcher slot back at once. -/
def describeKey (s : PalisadeService) (metadata : Metadata) (key : String) (fate : Fate) :
    Except Status Reply × PalisadeService :=
  s.checked (do
    let principal ← s.acl.principal metadata
    principal.checkWatch (s.watchers principal.cfg.token) key) fun _ =>
      (match s.service.describeKey key fate with
        | .error error => .error (internal error)
        | .ok (held, version, ttlMs) => .ok (.key held version ttlMs), s)

def unlockForce (s : PalisadeService) (metadata : Metadata) (key : String) : Except Status Reply × PalisadeService :=
  s.checked (do
    let principal ← s.acl.principal metadata
    principal.checkAdmin key) fun _ => (.ok .underway, s.enter (.forcing key))

def listLocks (s : PalisadeService) (metadata : Metadata) (under : String) : Except Status Reply × PalisadeService :=
  s.checked (do
    let principal ← s.acl.principal metadata
    principal.checkAdmin under) fun _ => (.ok .listing, s)

/-- The handler of a request. A new session has the token that is given, and a first request
to Redis the given fate. -/
def handle (s : PalisadeService) (metadata : Metadata) (token : String) (fate : Fate) :
    Request → Except Status Reply × PalisadeService
  | .tryLock key session ttlMs => s.tryLock metadata key session ttlMs false
  | .tryLockFor key session ttlMs => s.tryLock metadata key session ttlMs true
  | .unlock key lockToken => s.unlock metadata key lockToken
  | .extend key lockToken ttlMs => s.extend metadata key lockToken (.fromMillis ttlMs) fate
  | .watch key => s.watch metadata key
  | .registerSession clientId ttlMs => s.registerSession token clientId ttlMs
  | .heartbeat sessionToken => s.heartbeat sessionToken
  | .closeSession sessionToken => s.closeSession sessionToken
  | .describeKey key => s.describeKey metadata key fate
  | .unlockForce key => s.unlockForce metadata key
  | .listLocks under => s.listLocks metadata under

/-! A handled request is at most one step of the service. -/

theorem extendWithToken_db (s : Service) (key token : String) (ttl : Duration) (fate : Fate) :
    (s.extendWithToken key token ttl fate).2 = s.db ∨
      minTtl.nanos ≤ ttl.nanos ∧ (s.extendWithToken key token ttl fate).2 = s.extendOn key token ttl := by
  unfold Service.extendWithToken
  split
  · exact .inl rfl
  · next enough =>
    cases fate with
    | fails => exact .inl rfl
    | executes =>
      refine .inr ⟨Nat.le_of_not_lt enough, ?_⟩
      unfold Service.extendOn
      dsimp only
      split
      · next ran => rw [ran]
      · next ran => rw [ran]

theorem handle_steps (s : PalisadeService) (metadata : Metadata) {token : String}
    (fresh : token ∉ s.service.sessions.issued) (fate : Fate) (request : Request) (maxKeys : String → Nat) :
    (s.handle metadata token fate request).2.service = s.service ∨
      ∃ action, s.service.act maxKeys action = some (s.handle metadata token fate request).2.service := by
  have passes {α : Type} (checks : Except Status α) (next : α → Except Status Reply × PalisadeService)
      (steps : ∀ a, (next a).2.service = s.service ∨ ∃ action, s.service.act maxKeys action = some (next a).2.service) :
      (s.checked checks next).2.service = s.service ∨
        ∃ action, s.service.act maxKeys action = some (s.checked checks next).2.service := by
    cases checks with
    | error status => exact .inl rfl
    | ok a => exact steps a
  cases request with
  | tryLock key session ttlMs => exact passes _ _ fun request => .inr ⟨.tryLock request, rfl⟩
  | tryLockFor key session ttlMs => exact passes _ _ fun request => .inr ⟨.tryLock request, rfl⟩
  | unlock key lockToken => exact passes _ _ fun _ => .inr ⟨.unlock key lockToken, rfl⟩
  | extend key lockToken ttlMs =>
    have renews (ttl : Duration) : (s.extend metadata key lockToken ttl fate).2.service = s.service ∨
        ∃ action, s.service.act maxKeys action = some (s.extend metadata key lockToken ttl fate).2.service := by
      refine passes _ _ fun _ => ?_
      obtain same | ⟨enough, ran⟩ := extendWithToken_db s.service key lockToken ttl fate
      · exact .inl (by simp only [same])
      · refine .inr ⟨.extend key lockToken ttl, ?_⟩
        simp only [ran]
        exact if_pos enough
    exact renews (.fromMillis ttlMs)
  | watch key => exact passes _ _ fun _ => .inl rfl
  | registerSession clientId ttlMs =>
    refine .inr ⟨.session (.register token clientId (sessionTtl s.config.maxTtl ttlMs)), ?_⟩
    simp [Service.act, Sessions.act, fresh, handle, registerSession, setSessions]
  | heartbeat sessionToken => exact .inr ⟨.session (.heartbeat sessionToken), rfl⟩
  | closeSession sessionToken => exact .inr ⟨.session (.close sessionToken), rfl⟩
  | describeKey key => exact passes _ _ fun _ => .inl rfl
  | unlockForce key => exact passes _ _ fun _ => .inr ⟨.unlockForce key, rfl⟩
  | listLocks under => exact passes _ _ fun _ => .inl rfl

end PalisadeService

namespace Request

/-- A request for a new lock. -/
def locks : Request → Bool
  | .tryLock _ _ _ | .tryLockFor _ _ _ => true
  | _ => false

/-- A request about a session. -/
def isSession : Request → Bool
  | .registerSession _ _ | .heartbeat _ | .closeSession _ => true
  | _ => false

end Request

/-- What a caller without a token of the access list is told. -/
def PalisadeService.refusal (s : PalisadeService) (request : Request) : Code :=
  if request.locks = true ∧ s.ready = false then .unavailable else .unauthenticated

/-- A request that is not about sessions and bears no token of the access list is refused, and
changes nothing. Requests for locks are told first that the server is draining. -/
theorem anonymous_refused {s : PalisadeService} {metadata : Metadata} (file : s.acl.mode = .file)
    (closed : s.acl.isOpen = false)
    (unknown : ∀ token, Acl.Bears metadata token → s.acl.byToken.lookup token = none)
    {request : Request} (sessionless : request.isSession = false) (token : String) (fate : Fate) :
    ∃ message, s.handle metadata token fate request = (.error ⟨s.refusal request, message⟩, s) := by
  obtain ⟨message, refused⟩ := Acl.principal_unknown file closed unknown
  have stops {α : Type} (rest : Principal → Except Status α) (next : α → Except Status Reply × PalisadeService) :
      s.checked (s.acl.principal metadata >>= rest) next = (.error ⟨.unauthenticated, message⟩, s) := by
    rw [refused]
    rfl
  have drains {α : Type} (rest : Principal → Except Status α) (next : α → Except Status Reply × PalisadeService)
      (locks : request.locks = true) : ∃ message,
      s.checked (do
        s.checkReady
        s.acl.principal metadata >>= rest) next = (.error ⟨s.refusal request, message⟩, s) := by
    cases ready : s.ready with
    | true =>
      have passes : s.checkReady = .ok () := by simp [PalisadeService.checkReady, ready]
      have code : s.refusal request = .unauthenticated := by simp [PalisadeService.refusal, ready]
      rw [passes, code]
      exact ⟨message, stops rest next⟩
    | false =>
      have draining : s.checkReady = .error ⟨.unavailable, "server is draining"⟩ := by
        simp [PalisadeService.checkReady, ready]
      have code : s.refusal request = .unavailable := by simp [PalisadeService.refusal, ready, locks]
      rw [draining, code]
      exact ⟨"server is draining", rfl⟩
  cases request with
  | tryLock | tryLockFor => exact drains _ _ rfl
  | unlock | extend | watch | describeKey | unlockForce | listLocks => exact ⟨message, stops _ _⟩
  | registerSession | heartbeat | closeSession => cases sessionless

/-- A service whose access list has one principal, `ci`. -/
def PalisadeService.listed (ready : Bool) : PalisadeService where
  config := ⟨.fromMillis 30000, .fromMillis 600000⟩
  ready := ready
  acl := ⟨false, AList.insert "s3cret" (makePrincipal ci.config) ∅, .file⟩
  watchers := fun _ => 0
  hub := .empty
  service := .fresh

/-- A request that says nothing about its caller. -/
def anonymousRequest : Metadata := ⟨none, none⟩

theorem anonymous_unlock_refused :
    ∃ message, (PalisadeService.listed true).handle anonymousRequest "n" .executes (.unlock "ci/build" "t") =
      (.error ⟨.unauthenticated, message⟩, .listed true) := by
  refine anonymous_refused rfl rfl ?_ rfl "n" .executes
  rintro token ⟨value, named, _⟩
  cases named

/-- While it drains, the server tells an unknown caller so; and it opens a session for one. -/
theorem anonymous_drained :
    (¬ ∀ (s : PalisadeService) (metadata : Metadata) (token : String) (fate : Fate) (request : Request),
      s.acl.mode = .file → s.acl.isOpen = false →
      (∀ token, Acl.Bears metadata token → s.acl.byToken.lookup token = none) →
      ∃ message, s.handle metadata token fate request = (.error ⟨.unauthenticated, message⟩, s)) ∧
    ((PalisadeService.listed false).handle anonymousRequest "n" .executes (.tryLock "ci/build" "" none)).1 =
      .error ⟨.unavailable, "server is draining"⟩ ∧
    ((PalisadeService.listed true).handle anonymousRequest "n" .executes (.registerSession "eve" 0)).1 =
      .ok (.session "n" 10000) ∧
    (((PalisadeService.listed true).handle anonymousRequest "n" .executes
      (.registerSession "eve" 0)).2.service.sessions.book.lookup "n").isSome = true := by
  refine ⟨fun refuses => ?_, by decide, by decide, by decide⟩
  obtain ⟨message, refused⟩ := refuses (.listed false) anonymousRequest "n" .executes (.tryLock "ci/build" "" none)
    rfl rfl (by
      rintro token ⟨value, named, _⟩
      cases named)
  have drained : ((PalisadeService.listed false).handle anonymousRequest "n" .executes
      (.tryLock "ci/build" "" none)).1 = .error ⟨.unavailable, "server is draining"⟩ := by
    decide
  rw [refused] at drained
  cases drained

end Palisade.Server
