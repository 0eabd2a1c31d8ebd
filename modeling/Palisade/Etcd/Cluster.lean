import Palisade.Transition
import Palisade.Etcd.Lock

/-! Runs of the etcd backend. The cluster is linearizable: each request takes effect at one
instant, and every transaction that writes has a revision of its own. A lease that has run
out ends in a step of its own, at its deadline or later, and takes its key along. Requests
are steps of their own; one whose caller has seen it fail may yet take effect. Instants are
nanoseconds. -/
namespace Palisade.Etcd
open Transition

/-- A key in the store with its value and its lease. `putBy` is the call that put it; no code
reads it. -/
structure Item where
  key : String
  value : String
  lease : Int
  putBy : Nat
  deriving DecidableEq

/-- Why a key was deleted, and by which call. -/
inductive Cause where
  | released (call : Nat)
  | revoked (call : Nat)
  | expired (lease : Int)
  deriving DecidableEq

inductive Record where
  | put (item : Item) (fence instant : Nat)
  | deleted (item : Item) (cause : Cause)
  deriving DecidableEq

/-- The granted seconds and the instant at which it runs out. -/
structure Lease where
  ttl : Nat
  deadline : Nat
  deriving DecidableEq

/-- The nanoseconds of a lease. -/
def nanos (seconds : Nat) : Nat := seconds * 10 ^ 9

/-- `log` is what became of every key, newest first; no code reads it. -/
structure Server where
  revision : Nat
  items : List Item
  leases : Int → Option Lease
  log : List Record

inductive TxnReply where
  | succeeded (revision : Nat)
  | failed
  | error (message : String)
  deriving DecidableEq

namespace Server

def granted (now seconds : Nat) : Lease := ⟨seconds, now + nanos seconds⟩

def grant (server : Server) (now : Nat) (lease : Int) (seconds : Nat) : Server :=
  { server with leases := Function.update server.leases lease (some (granted now seconds)) }

/-- Deletes the keys that `doomed` selects; a transaction that deletes nothing has no revision. -/
def delete (server : Server) (doomed : Item → Bool) (cause : Cause) : Server :=
  { server with
    revision := if server.items.any doomed then server.revision + 1 else server.revision
    items := server.items.filter fun item => !doomed item
    log := (server.items.filter doomed).map (.deleted · cause) ++ server.log }

def put (server : Server) (now : Nat) (item : Item) : Server :=
  { server with
    revision := server.revision + 1
    items := item :: server.items
    log := .put item (server.revision + 1) now :: server.log }

/-- `create_revision(key) == 0` puts the key; putting it needs its lease. -/
def acquire (server : Server) (now : Nat) (item : Item) : TxnReply × Server :=
  if server.items.any fun other => other.key = item.key then (.failed, server)
  else if server.leases item.lease = none then (.error "etcdserver: requested lease not found", server)
  else (.succeeded (server.revision + 1), server.put now item)

/-- `value(key) == token` deletes the key. -/
def release (server : Server) (call : Nat) (key token : String) : Bool × Server :=
  if server.items.any fun item => decide (item.key = key ∧ item.value = token) then
    (true, server.delete (fun item => decide (item.key = key)) (.released call))
  else (false, server)

/-- The lease is gone, and its keys with it. -/
def drop (server : Server) (lease : Int) (cause : Cause) : Server :=
  { server.delete (fun item => decide (item.lease = lease)) cause with
    leases := Function.update server.leases lease none }

/-- The seconds of the answer, 0 for a lease that is not there. -/
def keepAlive (server : Server) (now : Nat) (lease : Int) : Nat × Server :=
  match server.leases lease with
  | none => (0, server)
  | some old => (old.ttl, server.grant now lease old.ttl)

end Server

/-- Where a call of `try_lock_with`, and the handle it returns, stand. -/
inductive Stage where
  | granting
  | acquiring
  /-- The transaction failed; the lease is to be revoked. -/
  | revoking (error : Error)
  | failed (error : Error)
  | holding (fence : Nat) (poisoned : Bool)
  /-- The handle was released or dropped, and is marked as gone. -/
  | releasing (fence : Nat)
  /-- The key was deleted; the lease is to be revoked. -/
  | unleasing (fence : Nat)
  | gone (fence : Nat)
  deriving DecidableEq

/-- The fence of the handle. -/
def Stage.fence? : Stage → Option Nat
  | .holding fence _ | .releasing fence | .unleasing fence | .gone fence => some fence
  | .granting | .acquiring | .revoking _ | .failed _ => none

/-- The call has not failed and its handle is not gone. -/
def Stage.fresh : Stage → Bool
  | .granting | .acquiring | .holding _ _ => true
  | .revoking _ | .failed _ | .releasing _ | .unleasing _ | .gone _ => false

/-- The stage after a keepalive was answered with these seconds; a handle is lost if its lease
is not there. -/
def Stage.answered (ttl : Nat) : Stage → Stage
  | .holding fence poisoned => .holding fence (poisoned || decide (ttl = 0))
  | stage => stage

structure Call where
  key : String
  token : String
  lease : Option Int
  stage : Stage
  deriving DecidableEq

/-- A request of a call that may yet take effect. -/
inductive Request where
  | acquire (call : Nat)
  | release (call : Nat)
  | revoke (call : Nat)
  deriving DecidableEq

def Request.call : Request → Nat
  | .acquire i | .release i | .revoke i => i

/-- `issued` are the leases so far. -/
structure Cluster where
  now : Nat
  server : Server
  calls : List Call
  late : List Request
  issued : List Int

/-- How far the keepalive of an `extend` comes. -/
inductive KeepAlive where
  | unopened (message : String)
  | unsent
  /-- The stream ends without an answer. -/
  | cut
  | answered
  deriving DecidableEq

inductive Action where
  | wait (delay : Nat)
  /-- A call begins; tokens are fresh. -/
  | begin (key token : String)
  /-- The lease is granted, for the seconds that `lease_secs` rounds to; leases are fresh. -/
  | grant (i : Nat) (lease : Int) (seconds : Nat)
  | grantFails (i : Nat) (message : String)
  /-- A lease is granted and the answer is lost. -/
  | orphan (lease : Int) (seconds : Nat)
  | acquire (i : Nat)
  | acquireFails (i : Nat) (message : String)
  | revoke (i : Nat)
  | revokeFails (i : Nat)
  /-- `release`, or the last clone of the handle is dropped. -/
  | release (i : Nat)
  | releaseTxn (i : Nat)
  | releaseFails (i : Nat)
  /-- A request takes effect whose caller has given it up. -/
  | late (k : Nat)
  | expire (lease : Int)
  /-- The watchdog renews the lease. -/
  | keepAlive (i : Nat)
  | extend (i : Nat) (ttl : Duration) (attempt : KeepAlive)
  /-- Somebody writes elsewhere in the store. -/
  | write
  deriving DecidableEq

namespace Cluster

def set (s : Cluster) (i : Nat) (call : Call) (stage : Stage) : Cluster :=
  { s with calls := s.calls.set i { call with stage } }

def giveUp (s : Cluster) (request : Request) : Cluster := { s with late := request :: s.late }

/-- The key that the call would put. -/
def item (i : Nat) (call : Call) (lease : Int) : Item := ⟨call.key, call.token, lease, i⟩

def begin (s : Cluster) (key token : String) : Option Cluster :=
  if s.calls.all fun call => call.token ≠ token then
    some { s with calls := s.calls ++ [⟨key, token, none, .granting⟩] }
  else none

def grant (s : Cluster) (i : Nat) (call : Call) (lease : Int) (seconds : Nat) : Option Cluster :=
  if call.stage = .granting ∧ lease ∉ s.issued ∧ 0 < seconds then
    some { s with
      server := s.server.grant s.now lease seconds
      calls := s.calls.set i { call with lease := some lease, stage := .acquiring }
      issued := lease :: s.issued }
  else none

/-- What `try_lock_with` makes of the reply. The fence is the revision of the transaction. -/
def acquired (key : String) : TxnReply → Stage
  | .succeeded revision => .holding revision false
  | .failed => .revoking (.held key)
  | .error message => .revoking (.backend s!"acquire txn failed: {message}")

def acquire (s : Cluster) (i : Nat) (call : Call) (lease : Int) : Cluster :=
  let (reply, server) := s.server.acquire s.now (item i call lease)
  { s with server }.set i call (acquired call.key reply)

/-- The stage after the lease was revoked, or not. -/
def revoked : Stage → Option Stage
  | .revoking error => some (.failed error)
  | .unleasing fence => some (.gone fence)
  | _ => none

def revokeLease (s : Cluster) (i : Nat) (lease : Int) : Cluster :=
  { s with server := if s.server.leases lease = none then s.server else s.server.drop lease (.revoked i) }

def releaseTxn (s : Cluster) (i : Nat) (call : Call) (fence : Nat) : Cluster :=
  let (deleted, server) := s.server.release i call.key call.token
  { s with server }.set i call (if deleted then .unleasing fence else .gone fence)

/-- The effect of a late request. -/
def exec (s : Cluster) (call : Call) (lease : Int) : Request → Cluster
  | .acquire i => { s with server := (s.server.acquire s.now (item i call lease)).2 }
  | .release i => { s with server := (s.server.release i call.key call.token).2 }
  | .revoke i => s.revokeLease i lease

def keepAlive (s : Cluster) (i : Nat) (call : Call) (lease : Int) : Nat × Cluster :=
  let (ttl, server) := s.server.keepAlive s.now lease
  (ttl, { s with server }.set i call (call.stage.answered ttl))

/-- `EtcdLockHandle::extend` -/
def extend (s : Cluster) (i : Nat) (_ttl : Duration) (attempt : KeepAlive) :
    Option (Except Error Unit × Cluster) := do
  let call ← s.calls[i]?
  let lease ← call.lease
  match call.stage with
  | .holding fence poisoned =>
    if poisoned then some (.error (.lost call.key fence), s)
    else match attempt with
      | .unopened message => some (.error (.backend s!"keepalive failed: {message}"), s)
      | .unsent => some (.error (.backend "keepalive send failed"), s)
      | .cut => some (.error (.lost call.key fence), s.set i call (.holding fence true))
      | .answered =>
        let (ttl, after) := s.keepAlive i call lease
        some (if 0 < ttl then .ok () else .error (.lost call.key fence), after)
  | .releasing fence | .unleasing fence | .gone fence => some (.error (.lost call.key fence), s)
  | _ => none

def act (s : Cluster) : Action → Option Cluster
  | .wait delay => some { s with now := s.now + delay }
  | .begin key token => s.begin key token
  | .grant i lease seconds => do
    let call ← s.calls[i]?
    s.grant i call lease seconds
  | .grantFails i message => do
    let call ← s.calls[i]?
    if call.stage = .granting then
      some (s.set i call (.failed (.backend s!"lease grant failed: {message}")))
    else none
  | .orphan lease seconds =>
    if lease ∉ s.issued then
      some { s with server := s.server.grant s.now lease seconds, issued := lease :: s.issued }
    else none
  | .acquire i => do
    let call ← s.calls[i]?
    let lease ← call.lease
    if call.stage = .acquiring then some (s.acquire i call lease) else none
  | .acquireFails i message => do
    let call ← s.calls[i]?
    if call.stage = .acquiring then
      some ((s.set i call (acquired call.key (.error message))).giveUp (.acquire i))
    else none
  | .revoke i => do
    let call ← s.calls[i]?
    let lease ← call.lease
    let stage ← revoked call.stage
    some ((s.revokeLease i lease).set i call stage)
  | .revokeFails i => do
    let call ← s.calls[i]?
    let stage ← revoked call.stage
    some ((s.set i call stage).giveUp (.revoke i))
  | .release i => do
    let call ← s.calls[i]?
    match call.stage with
    | .holding fence _ => some (s.set i call (.releasing fence))
    | _ => none
  | .releaseTxn i => do
    let call ← s.calls[i]?
    match call.stage with
    | .releasing fence => some (s.releaseTxn i call fence)
    | _ => none
  | .releaseFails i => do
    let call ← s.calls[i]?
    match call.stage with
    | .releasing fence => some ((s.set i call (.gone fence)).giveUp (.release i))
    | _ => none
  | .late k => do
    let request ← s.late[k]?
    let call ← s.calls[request.call]?
    let lease ← call.lease
    some { s.exec call lease request with late := s.late.eraseIdx k }
  | .expire lease => do
    let old ← s.server.leases lease
    if old.deadline ≤ s.now then some { s with server := s.server.drop lease (.expired lease) } else none
  | .keepAlive i => do
    let call ← s.calls[i]?
    let lease ← call.lease
    some (s.keepAlive i call lease).2
  | .extend i ttl attempt => (s.extend i ttl attempt).map Prod.snd
  | .write => some { s with server := { s.server with revision := s.server.revision + 1 } }

end Cluster

def cluster : Machine Cluster Action where
  initial s := s.server.items = [] ∧ s.server.log = [] ∧ s.calls = [] ∧ s.late = []
  step := Cluster.act

namespace Server

theorem granted_ttl (now seconds : Nat) : (granted now seconds).ttl = seconds := rfl

theorem granted_deadline (now seconds : Nat) : (granted now seconds).deadline = now + nanos seconds := rfl

theorem acquire_cases (server : Server) (now : Nat) (item : Item) :
    ((∀ revision, (server.acquire now item).1 ≠ .succeeded revision) ∧ (server.acquire now item).2 = server) ∨
    (∀ other ∈ server.items, other.key ≠ item.key) ∧
      server.acquire now item = (.succeeded (server.revision + 1), server.put now item) := by
  unfold acquire
  split
  · exact .inl ⟨nofun, rfl⟩
  · next free =>
    split
    · exact .inl ⟨nofun, rfl⟩
    · refine .inr ⟨fun other member same => free ?_, rfl⟩
      exact List.any_eq_true.mpr ⟨other, member, by simpa using same⟩

theorem release_cases (server : Server) (call : Nat) (key token : String) :
    server.release call key token = (false, server) ∨
    (∃ item ∈ server.items, item.key = key ∧ item.value = token) ∧
      server.release call key token =
        (true, server.delete (fun item => decide (item.key = key)) (.released call)) := by
  unfold release
  split
  · next found =>
    obtain ⟨item, member, same⟩ := List.any_eq_true.mp found
    exact .inr ⟨⟨item, member, by simpa using same⟩, rfl⟩
  · exact .inl rfl

end Server

namespace Cluster
variable {s t : Cluster} {action : Action} {i : Nat} {call : Call} {lease : Int} {stage : Stage}

/-- The call is about to make the request, or has given it up and it may yet take effect. -/
def Asks (s : Cluster) (call : Call) (request : Request) : Prop :=
  request ∈ s.late ∨ match request with
    | .acquire _ => call.stage = .acquiring
    | .release _ => ∃ fence, call.stage = .releasing fence
    | .revoke _ => (revoked call.stage).isSome

/-- Everything a step can do to the store. -/
inductive Turn (s : Cluster) : Server → Prop where
  | same : Turn s s.server
  | write : Turn s { s.server with revision := s.server.revision + 1 }
  /-- A lease is granted or renewed. -/
  | lease {lease : Int} {seconds : Nat}
      (known : lease ∉ s.issued ∨ ∃ old, s.server.leases lease = some old ∧ old.ttl = seconds) :
      Turn s (s.server.grant s.now lease seconds)
  | put {i : Nat} {call : Call} {lease : Int} (here : s.calls[i]? = some call) (has : call.lease = some lease)
      (asks : s.Asks call (.acquire i)) (free : ∀ other ∈ s.server.items, other.key ≠ call.key) :
      Turn s (s.server.put s.now (item i call lease))
  | release {i : Nat} {call : Call} (here : s.calls[i]? = some call) (asks : s.Asks call (.release i))
      (found : ∃ item ∈ s.server.items, item.key = call.key ∧ item.value = call.token) :
      Turn s (s.server.delete (fun item => decide (item.key = call.key)) (.released i))
  | revoke {i : Nat} {call : Call} {lease : Int} (here : s.calls[i]? = some call)
      (has : call.lease = some lease) (asks : s.Asks call (.revoke i)) :
      Turn s (s.server.drop lease (.revoked i))
  | expire {lease : Int} {old : Lease} (found : s.server.leases lease = some old) (due : old.deadline ≤ s.now) :
      Turn s (s.server.drop lease (.expired lease))

/-- The revision at which the call put its key. -/
def Granted (server : Server) (i : Nat) (key : String) (fence : Nat) : Prop :=
  ∃ item instant, .put item fence instant ∈ server.log ∧ item.putBy = i ∧ item.key = key

/-- How a call goes from one stage to another. -/
structure Follows (server : Server) (action : Action) (i : Nat) (call : Call) (stage : Stage) : Prop where
  leased : stage = .granting → call.stage = .granting
  fenced : ∀ fence, stage.fence? = some fence →
    call.stage.fence? = some fence ∨ Granted server i call.key fence
  fresh : stage.fresh = true → call.stage.fresh = true
  stays : ∀ fence poisoned, call.stage = .holding fence poisoned →
    action = .release i ∨ ∃ poisoned, stage = .holding fence poisoned
  enters : ∀ fence poisoned, stage = .holding fence poisoned →
    (∃ before, call.stage = .holding fence before) ∨
      ∀ lease, call.lease = some lease → item i call lease ∈ server.items

/-- Everything an action can do. -/
inductive Moves (s : Cluster) : Action → Cluster → Prop where
  | outside {action : Action} {t : Cluster} (turn : s.Turn t.server) (calls : t.calls = s.calls)
      (issued : s.issued ⊆ t.issued) (late : t.late ⊆ s.late) (time : s.now ≤ t.now) : Moves s action t
  | begin {key token : String} (fresh : ∀ call ∈ s.calls, call.token ≠ token) :
      Moves s (.begin key token) { s with calls := s.calls ++ [⟨key, token, none, .granting⟩] }
  | grant {i seconds : Nat} {call : Call} {lease : Int} (here : s.calls[i]? = some call)
      (granting : call.stage = .granting) (fresh : lease ∉ s.issued) : Moves s (.grant i lease seconds)
        { s with
          server := s.server.grant s.now lease seconds
          calls := s.calls.set i { call with lease := some lease, stage := .acquiring }
          issued := lease :: s.issued }
  | advance {action : Action} {t : Cluster} {i : Nat} {call : Call} {stage : Stage}
      (here : s.calls[i]? = some call) (turn : s.Turn t.server)
      (calls : t.calls = s.calls.set i { call with stage }) (issued : t.issued = s.issued)
      (late : ∀ request ∈ t.late, request ∈ s.late ∨ request.call = i ∧ stage.fresh = false)
      (time : t.now = s.now) (follows : Follows t.server action i call stage) : Moves s action t

/-- The call fails, or its handle is on its way out. -/
theorem Follows.leaves {server : Server} (same : stage.fence? = call.stage.fence?) (spent : stage.fresh = false)
    (unheld : ∀ fence poisoned, call.stage = .holding fence poisoned → action = .release i) :
    Follows server action i call stage where
  leased granting := by
    rw [granting] at spent
    contradiction
  fenced fence has := .inl (same ▸ has)
  fresh still := by
    rw [spent] at still
    contradiction
  stays fence poisoned held := .inl (unheld fence poisoned held)
  enters fence poisoned held := by
    rw [held] at spent
    contradiction

/-- The handle stays, lost or not. -/
theorem Follows.holds {server : Server} {fence : Nat} {poisoned : Bool}
    (staged : call.stage = .holding fence poisoned) (after : Bool) :
    Follows server action i call (.holding fence after) where
  leased := nofun
  fenced _ has := .inl (staged ▸ has)
  fresh _ := by
    rw [staged]
    rfl
  stays other before held := by
    cases staged.symm.trans held
    exact .inr ⟨after, rfl⟩
  enters other before held := by
    cases held
    exact .inl ⟨poisoned, staged⟩

theorem Follows.answered (server : Server) (action : Action) (i : Nat) (call : Call) (ttl : Nat) :
    Follows server action i call (call.stage.answered ttl) := by
  cases staged : call.stage with
  | holding fence poisoned => exact .holds staged _
  | granting | acquiring | revoking | failed | releasing | unleasing | gone =>
    refine ⟨fun same => staged.trans same, fun other has => .inl (staged ▸ has), fun still => staged ▸ still, ?_, ?_⟩
    · intro other before held
      cases staged.symm.trans held
    · nofun

theorem keepAlive_turn (s : Cluster) (lease : Int) : s.Turn (s.server.keepAlive s.now lease).2 := by
  unfold Server.keepAlive
  split
  · exact .same
  · next old found => exact .lease (.inr ⟨old, found, rfl⟩)

theorem keepAlive_moves (here : s.calls[i]? = some call) (lease : Int) (action : Action) :
    s.Moves action (s.keepAlive i call lease).2 :=
  .advance here (s.keepAlive_turn lease) rfl rfl (fun _ => .inl) rfl (.answered _ _ _ _ _)

theorem extend_moves {ttl : Duration} {attempt : KeepAlive} {result : Except Error Unit}
    (extended : s.extend i ttl attempt = some (result, t)) : s.Moves (.extend i ttl attempt) t := by
  have idle : s.Moves (.extend i ttl attempt) s :=
    .outside .same rfl (List.Subset.refl _) (List.Subset.refl _) (Nat.le_refl _)
  simp only [Cluster.extend, Option.bind_eq_bind, Option.bind_eq_some_iff] at extended
  obtain ⟨call, here, lease, has, extended⟩ := extended
  split at extended
  · next fence poisoned staged =>
    split at extended
    · cases extended
      exact idle
    · split at extended
      · cases extended
        exact idle
      · cases extended
        exact idle
      · cases extended
        exact .advance here .same rfl rfl (fun _ => .inl) rfl (.holds staged true)
      · cases extended
        exact keepAlive_moves here lease _
  · cases extended
    exact idle
  · cases extended
    exact idle
  · cases extended
    exact idle
  · contradiction

theorem acquire_moves (here : s.calls[i]? = some call) (has : call.lease = some lease)
    (acquiring : call.stage = .acquiring) : s.Moves (.acquire i) (s.acquire i call lease) := by
  have outcome := s.server.acquire_cases s.now (item i call lease)
  unfold Cluster.acquire
  rcases ran : s.server.acquire s.now (item i call lease) with ⟨reply, server⟩
  rw [ran] at outcome
  obtain ⟨refused, rfl⟩ | ⟨free, ⟨⟩⟩ := outcome
  · have blank : (acquired call.key reply).fence? = none ∧ (acquired call.key reply).fresh = false := by
      cases reply with
      | succeeded revision => exact absurd rfl (refused revision)
      | failed | error => exact ⟨rfl, rfl⟩
    refine .advance here .same rfl rfl (fun _ => .inl) rfl (.leaves ?_ blank.2 ?_)
    · rw [blank.1, acquiring]
      rfl
    · rw [acquiring]
      nofun
  · have turn : s.Turn (s.server.put s.now (item i call lease)) := .put here has (.inr acquiring) free
    refine .advance here turn rfl rfl (fun _ => .inl) rfl ⟨nofun, ?_, fun _ => by rw [acquiring]; rfl, ?_, ?_⟩
    · intro fence granted
      obtain rfl := Option.some.inj granted
      exact .inr ⟨_, _, List.mem_cons_self, rfl, rfl⟩
    · rw [acquiring]
      nofun
    · intro fence poisoned held
      refine .inr fun other leased => ?_
      cases has.symm.trans leased
      exact List.mem_cons_self

theorem release_turn (here : s.calls[i]? = some call) (asks : s.Asks call (.release i)) :
    s.Turn (s.server.release i call.key call.token).2 := by
  obtain ran | ⟨found, ran⟩ := s.server.release_cases i call.key call.token
  · exact ran ▸ .same
  · exact ran ▸ .release here asks found

theorem revoke_turn (here : s.calls[i]? = some call) (has : call.lease = some lease)
    (asks : s.Asks call (.revoke i)) : s.Turn (s.revokeLease i lease).server := by
  unfold revokeLease
  split
  · exact .same
  · exact .revoke here has asks

/-- A late request takes effect as it would have in time. -/
theorem exec_turn {request : Request} (here : s.calls[request.call]? = some call) (has : call.lease = some lease)
    (pending : request ∈ s.late) : s.Turn (s.exec call lease request).server := by
  cases request with
  | acquire i =>
    obtain ⟨_, same⟩ | ⟨free, ran⟩ := s.server.acquire_cases s.now (item i call lease)
    · change s.Turn (s.server.acquire s.now (item i call lease)).2
      rw [same]
      exact .same
    · change s.Turn (s.server.acquire s.now (item i call lease)).2
      rw [ran]
      exact .put here has (.inl pending) free
  | release i => exact release_turn here (.inl pending)
  | revoke i => exact revoke_turn here has (.inl pending)

theorem revoked_cases (followed : revoked call.stage = some stage) :
    stage.fence? = call.stage.fence? ∧ stage.fresh = false ∧ call.stage.fresh = false := by
  cases staged : call.stage with
  | revoking | unleasing =>
    rw [staged] at followed
    cases followed
    exact ⟨rfl, rfl, rfl⟩
  | granting | acquiring | failed | holding | releasing | gone =>
    rw [staged] at followed
    cases followed

/-- After a revocation the call has failed, or the handle is gone. -/
theorem revoked_follows {server : Server} (followed : revoked call.stage = some stage) :
    Follows server action i call stage := by
  obtain ⟨same, spent, before⟩ := revoked_cases followed
  refine .leaves same spent fun fence poisoned held => ?_
  rw [held] at before
  contradiction

/-- The late requests after a call has given one up. -/
theorem giveUp_late {request : Request} (mine : request.call = i) (spent : stage.fresh = false) :
    ∀ other ∈ (s.giveUp request).late, other ∈ s.late ∨ other.call = i ∧ stage.fresh = false := by
  intro other member
  obtain rfl | before := List.mem_cons.mp member
  · exact .inr ⟨mine, spent⟩
  · exact .inl before

theorem act_moves (stepped : s.act action = some t) : s.Moves action t := by
  cases action with
  | wait delay =>
    cases stepped
    exact .outside .same rfl (List.Subset.refl _) (List.Subset.refl _) (Nat.le_add_right _ _)
  | write =>
    cases stepped
    exact .outside .write rfl (List.Subset.refl _) (List.Subset.refl _) (Nat.le_refl _)
  | begin key token =>
    obtain ⟨fresh, ⟨⟩⟩ := Option.ite_none_right_eq_some.mp stepped
    exact .begin (by simpa using fresh)
  | grant i lease seconds =>
    obtain ⟨call, here, stepped⟩ := Option.bind_eq_some_iff.mp stepped
    obtain ⟨⟨granting, fresh, _⟩, ⟨⟩⟩ := Option.ite_none_right_eq_some.mp stepped
    exact .grant here granting fresh
  | grantFails i message =>
    obtain ⟨call, here, stepped⟩ := Option.bind_eq_some_iff.mp stepped
    obtain ⟨granting, ⟨⟩⟩ := Option.ite_none_right_eq_some.mp stepped
    refine .advance here .same rfl rfl (fun _ => .inl) rfl (.leaves ?_ rfl ?_)
    · rw [granting]
      rfl
    · rw [granting]
      nofun
  | orphan lease seconds =>
    obtain ⟨fresh, ⟨⟩⟩ := Option.ite_none_right_eq_some.mp stepped
    exact .outside (.lease (.inl fresh)) rfl (List.subset_cons_self _ _) (List.Subset.refl _) (Nat.le_refl _)
  | acquire i =>
    simp only [Cluster.act, Option.bind_eq_bind, Option.bind_eq_some_iff] at stepped
    obtain ⟨call, here, lease, has, stepped⟩ := stepped
    obtain ⟨acquiring, ⟨⟩⟩ := Option.ite_none_right_eq_some.mp stepped
    exact acquire_moves here has acquiring
  | acquireFails i message =>
    obtain ⟨call, here, stepped⟩ := Option.bind_eq_some_iff.mp stepped
    obtain ⟨acquiring, ⟨⟩⟩ := Option.ite_none_right_eq_some.mp stepped
    refine .advance here .same rfl rfl (giveUp_late rfl rfl) rfl (.leaves ?_ rfl ?_)
    · rw [acquiring]
      rfl
    · rw [acquiring]
      nofun
  | revoke i =>
    simp only [Cluster.act, Option.bind_eq_bind, Option.bind_eq_some_iff] at stepped
    obtain ⟨call, here, lease, has, stage, followed, ⟨⟩⟩ := stepped
    have turn := revoke_turn here has (.inr (followed ▸ rfl))
    exact .advance here turn rfl rfl (fun _ => .inl) rfl (revoked_follows followed)
  | revokeFails i =>
    simp only [Cluster.act, Option.bind_eq_bind, Option.bind_eq_some_iff] at stepped
    obtain ⟨call, here, stage, followed, ⟨⟩⟩ := stepped
    have spent := (revoked_cases followed).2.1
    exact .advance here .same rfl rfl (giveUp_late rfl spent) rfl (revoked_follows followed)
  | release i =>
    obtain ⟨call, here, stepped⟩ := Option.bind_eq_some_iff.mp stepped
    split at stepped
    · next holding =>
      cases stepped
      exact .advance here .same rfl rfl (fun _ => .inl) rfl (.leaves (by rw [holding]; rfl) rfl fun _ _ _ => rfl)
    · contradiction
  | releaseTxn i =>
    obtain ⟨call, here, stepped⟩ := Option.bind_eq_some_iff.mp stepped
    split at stepped
    · next fence releasing =>
      cases stepped
      have turn : s.Turn (s.releaseTxn i call fence).server := release_turn here (.inr ⟨fence, releasing⟩)
      refine .advance here turn rfl rfl (fun _ => .inl) rfl (.leaves ?_ ?_ (by rw [releasing]; nofun))
      · rw [releasing]
        split <;> rfl
      · split <;> rfl
    · contradiction
  | releaseFails i =>
    obtain ⟨call, here, stepped⟩ := Option.bind_eq_some_iff.mp stepped
    split at stepped
    · next releasing =>
      cases stepped
      refine .advance here .same rfl rfl (giveUp_late rfl rfl) rfl (.leaves ?_ rfl ?_)
      · rw [releasing]
        rfl
      · rw [releasing]
        nofun
    · contradiction
  | late k =>
    simp only [Cluster.act, Option.bind_eq_bind, Option.bind_eq_some_iff] at stepped
    obtain ⟨request, pending, call, here, lease, has, ⟨⟩⟩ := stepped
    have turn := exec_turn here has (List.mem_of_getElem? pending)
    have calls : (s.exec call lease request).calls = s.calls := by cases request <;> rfl
    have issued : (s.exec call lease request).issued = s.issued := by cases request <;> rfl
    have now : (s.exec call lease request).now = s.now := by cases request <;> rfl
    exact .outside turn calls (issued ▸ List.Subset.refl _) List.eraseIdx_subset now.ge
  | expire lease =>
    obtain ⟨old, found, stepped⟩ := Option.bind_eq_some_iff.mp stepped
    obtain ⟨due, ⟨⟩⟩ := Option.ite_none_right_eq_some.mp stepped
    exact .outside (.expire found due) rfl (List.Subset.refl _) (List.Subset.refl _) (Nat.le_refl _)
  | keepAlive i =>
    simp only [Cluster.act, Option.bind_eq_bind, Option.bind_eq_some_iff] at stepped
    obtain ⟨call, here, lease, has, ⟨⟩⟩ := stepped
    exact keepAlive_moves here lease _
  | extend i ttl attempt =>
    obtain ⟨⟨result, after⟩, extended, rfl⟩ := Option.map_eq_some_iff.mp stepped
    exact extend_moves extended

end Cluster

end Palisade.Etcd
