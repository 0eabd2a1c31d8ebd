import Palisade.Transition
import Palisade.Lease
import Palisade.Reentrant.Scripts

/-! The reentrant handles and runs of the lock on one key. Calls are numbered;
several of them may share an owner, and the owner's token is all the scripts see
of a call. A release is under way from the moment the handle is marked gone until
its script runs, if it ever does. The tally counts the holds the runs granted and
have not given back; no script and no handle reads it. -/
namespace Palisade.Reentrant
open Redis Single Lease Transition

/-- State shared by the clones of a handle; `gone` once it is released, dropped or lost. -/
structure ReentrantShared where
  key : String
  token : String
  fence : FencingToken
  ttl : Duration
  gone : Bool
  deriving DecidableEq

abbrev Reply := Except Fault (Int × Int)

/-- A release under way. -/
inductive Departure where
  | one (refresh : Nat)
  | all
  deriving DecidableEq

def Departure.command : Departure → Command
  | .one refresh => .releaseOne refresh
  | .all => .releaseAll

namespace ReentrantShared

def lost (h : ReentrantShared) : Error := .lost h.key h.fence.value

/-- The request the first `release_one` of a handle sends. -/
def releaseOneRequest (h : ReentrantShared) : Departure := .one h.ttl.asMillisU64

/-- The request sent when the last clone is dropped: the lease is left as it is. -/
def dropRequest (_ : ReentrantShared) : Departure := .one 0

def releaseAllRequest (_ : ReentrantShared) : Departure := .all

def releaseOneReply (h : ReentrantShared) : Reply → Except Error Unit
  | .error fault => .error (.backend s!"reentrant release failed: {fault.text}")
  | .ok (remaining, _) => if remaining < 0 then .error h.lost else .ok ()

def releaseAllReply (h : ReentrantShared) : Reply → Except Error Unit
  | .error fault => .error (.backend s!"reentrant release-all failed: {fault.text}")
  | .ok (ok, _) => if ok < 0 then .error h.lost else .ok ()

/-- The lease `extend` asks for, or the error it returns at once. -/
def extendRequest (h : ReentrantShared) (ttl : Duration) : Except Error Nat :=
  if ttl.nanos < minTtl.nanos then
    .error (.invalidConfig s!"extend ttl {ttl.debug} is below the {minTtl.debug} floor")
  else if h.gone then .error h.lost
  else .ok ttl.asMillisU64

def extendReply (h : ReentrantShared) : Reply → Except Error Unit × ReentrantShared
  | .error fault => (.error (.backend s!"reentrant extend failed: {fault.text}"), h)
  | .ok (ok, _) => if ok < 0 then (.error h.lost, { h with gone := true }) else (.ok (), h)

@[simp] theorem extendReply_token (h : ReentrantShared) (reply : Reply) :
    (h.extendReply reply).2.token = h.token := by
  unfold extendReply
  split
  · rfl
  · split
    · rfl
    · rfl

/-- An extension brings no released handle back. -/
theorem gone_of_extendReply {h : ReentrantShared} {reply : Reply}
    (kept : (h.extendReply reply).2.gone = false) : h.gone = false := by
  unfold extendReply at kept
  split at kept
  · exact kept
  · split at kept
    · contradiction
    · exact kept

end ReentrantShared

def acquireReply (key token : String) (ttl : Duration) : Reply → Except Error ReentrantShared
  | .error fault => .error (.backend s!"reentrant acquire failed: {fault.text}")
  | .ok (status, fence) =>
    if status = 1 ∨ status = 2 then .ok ⟨key, token, ⟨fence.toNat⟩, ttl, false⟩
    else .error (.held key)

/-- What a call amounts to so far; `leaving` is the release of its handle that
is under way. -/
inductive Caller where
  | asking (token : String) (ttl : Duration)
  | refused (error : Error)
  | holding (shared : ReentrantShared) (leaving : Option Departure)
  deriving DecidableEq

/-! The tally. -/

/-- One grant. The term is forgotten when the owner extends the lease. -/
structure Hold where
  id : Nat
  token : String
  generation : Nat
  term : Option Term
  deriving DecidableEq

def Hold.forget (token : String) (hold : Hold) : Hold :=
  if hold.token = token then { hold with term := none } else hold

section
variable {token : String} {hold : Hold}

@[simp] theorem Hold.forget_id : (hold.forget token).id = hold.id := by unfold forget; split <;> rfl

@[simp] theorem Hold.forget_token : (hold.forget token).token = hold.token := by
  unfold forget; split <;> rfl

@[simp] theorem Hold.forget_generation : (hold.forget token).generation = hold.generation := by
  unfold forget; split <;> rfl

end

/-- Every creation of the hash starts a generation. `granted` is the generation
of each grant, `holds` the grants not released yet. -/
structure Tally where
  generation : Nat
  granted : Nat → Option Nat
  holds : List Hold

namespace Tally

def add (tally : Tally) (generation id now : Nat) (token : String) (ttl : Nat) : Tally :=
  ⟨generation, Function.update tally.granted id (some generation),
    ⟨id, token, generation, some ⟨now, ttl⟩⟩ :: tally.holds⟩

def remove (tally : Tally) (left : Hold → Bool) : Tally :=
  { tally with holds := tally.holds.filter fun hold => !left hold }

/-- What an answer at `now` makes of the tally. A release is over once its script
ran, whatever it answered; `release_all` ends all holds of the owner. -/
def record (tally : Tally) (now id : Nat) (token : String) : Command → Int → Tally
  | .acquire ttl, 1 => tally.add (tally.generation + 1) id now token ttl
  | .acquire ttl, 2 => tally.add tally.generation id now token ttl
  | .releaseOne _, _ => tally.remove fun hold => decide (hold.id = id)
  | .releaseAll, 1 => tally.remove fun hold => decide (hold.token = token)
  | .releaseAll, _ => tally.remove fun hold => decide (hold.id = id)
  | .extend _, 1 =>
    { tally with holds := tally.holds.map (Hold.forget token) }
  | _, _ => tally

/-- The unreleased holds of a generation. -/
def within (tally : Tally) (generation : Nat) : List Hold :=
  tally.holds.filter fun hold => decide (hold.generation = generation)

/-- The holds granted since the hash was last created and not released yet. -/
def current (tally : Tally) : List Hold := tally.within tally.generation

end Tally

/-- An extension under way. -/
structure Extension where
  id : Nat
  ttl : Nat
  deriving DecidableEq

structure Lock where
  now : Nat
  db : Keyspace
  callers : Nat → Option Caller
  wire : List Extension
  tally : Tally

inductive Action where
  /-- `try_lock_reentrant` is called; calls are numbered afresh. -/
  | ask (id : Nat) (token : String) (options : LockOptions)
  /-- The script of that call runs and is answered. -/
  | acquire (id : Nat)
  | extend (id : Nat) (ttl : Duration)
  | extended (extension : Extension)
  | releaseOne (id : Nat)
  | releaseAll (id : Nat)
  | drop (id : Nat)
  /-- The release under way runs. -/
  | run (id : Nat)
  deriving DecidableEq

structure Timed where
  delay : Nat
  action : Action
  deriving DecidableEq

namespace Lock

def wait (s : Lock) (delay : Nat) : Lock := { s with now := s.now + delay }

def put (s : Lock) (id : Nat) (caller : Caller) : Lock :=
  { s with callers := Function.update s.callers id (some caller) }

/-- A script runs for a call, whose record becomes what the caller makes of the reply. -/
def exec (key : String) (s : Lock) (id : Nat) (token : String) (command : Command)
    (next : Reply → Caller) : Lock :=
  let (reply, db) := (command.script key token).exec s.now s.db
  let tally := match reply with
    | .ok (status, _) => s.tally.record s.now id token command status
    | .error _ => s.tally
  { s with db, tally, callers := Function.update s.callers id (some (next reply)) }

def acquired (key token : String) (ttl : Duration) (reply : Reply) : Caller :=
  match acquireReply key token ttl reply with
  | .error error => .refused error
  | .ok shared => .holding shared none

/-- The first release of a handle marks it gone and sends its script. -/
def leave (s : Lock) (id : Nat) (request : ReentrantShared → Departure) : Option Lock :=
  match s.callers id with
  | some (.holding shared _) =>
    if shared.gone then none
    else some (s.put id (.holding { shared with gone := true } (some (request shared))))
  | _ => none

def act (key : String) (s : Lock) : Action → Option Lock
  | .ask id token options =>
    if s.callers id = none then
      match options.validate with
      | .error error => some (s.put id (.refused error))
      | .ok _ => some (s.put id (.asking token options.ttl))
    else none
  | .acquire id =>
    match s.callers id with
    | some (.asking token ttl) =>
      some (s.exec key id token (.acquire ttl.asMillisU64) (acquired key token ttl))
    | _ => none
  | .extend id ttl =>
    match s.callers id with
    | some (.holding shared _) =>
      match shared.extendRequest ttl with
      | .error _ => none
      | .ok ttl => some { s with wire := ⟨id, ttl⟩ :: s.wire }
    | _ => none
  | .extended e =>
    match s.callers e.id with
    | some (.holding shared leaving) =>
      if e ∈ s.wire then
        some ({ s with wire := s.wire.erase e }.exec key e.id shared.token (.extend e.ttl) fun reply =>
          .holding (shared.extendReply reply).2 leaving)
      else none
    | _ => none
  | .releaseOne id => s.leave id ReentrantShared.releaseOneRequest
  | .releaseAll id => s.leave id ReentrantShared.releaseAllRequest
  | .drop id => s.leave id ReentrantShared.dropRequest
  | .run id =>
    match s.callers id with
    | some (.holding shared (some leaving)) =>
      some (s.exec key id shared.token leaving.command fun _ => .holding shared none)
    | _ => none

end Lock

/-- Everything an action can do. -/
inductive Lock.Moves (key : String) (s : Lock) : Action → Lock → Prop where
  | called {id : Nat} : s.callers id = none → (∀ shared leaving, c ≠ .holding shared leaving) →
      Moves key s (.ask id token options) (s.put id c)
  | sent {id : Nat} : Moves key s (.extend id ttl) { s with wire := e :: s.wire }
  | left {id : Nat} : s.callers id = some (.holding shared leaving) → shared.gone = false →
      (∀ other, action ≠ .run other) → (∀ other, action ≠ .acquire other) →
      Moves key s action (s.put id (.holding { shared with gone := true } (some departure)))
  | acquired {id : Nat} : s.callers id = some (.asking token ttl) → Moves key s (.acquire id)
      (s.exec key id token (.acquire ttl.asMillisU64) (Lock.acquired key token ttl))
  | extended : s.callers e.id = some (.holding shared leaving) → Moves key s (.extended e)
      ({ s with wire := s.wire.erase e }.exec key e.id shared.token (.extend e.ttl) fun reply =>
        .holding (shared.extendReply reply).2 leaving)
  | ran {id : Nat} : s.callers id = some (.holding shared (some leaving)) → Moves key s (.run id)
      (s.exec key id shared.token leaving.command fun _ => .holding shared none)

theorem Lock.leave_moves {s t : Lock} {id : Nat} {request : ReentrantShared → Departure} {action : Action}
    (other : (∀ id, action ≠ .run id) ∧ ∀ id, action ≠ .acquire id)
    (stepped : s.leave id request = some t) : s.Moves key action t := by
  unfold leave at stepped
  split at stepped <;> [skip; contradiction]
  split at stepped <;> cases stepped
  exact .left ‹_› (Bool.eq_false_of_not_eq_true ‹_›) other.1 other.2

theorem Lock.act_moves {s t : Lock} (stepped : s.act key action = some t) :
    s.Moves key action t := by
  cases action with
  | ask id token options =>
    simp only [act] at stepped
    split at stepped <;> [skip; contradiction]
    split at stepped <;> cases stepped
    · exact .called ‹_› (by simp)
    · exact .called ‹_› (by simp)
  | acquire id =>
    simp only [act] at stepped
    split at stepped <;> cases stepped
    exact .acquired ‹_›
  | extend id ttl =>
    simp only [act] at stepped
    split at stepped <;> [skip; contradiction]
    split at stepped <;> cases stepped
    exact .sent
  | extended e =>
    simp only [act] at stepped
    split at stepped <;> [skip; contradiction]
    split at stepped <;> cases stepped
    exact .extended ‹_›
  | releaseOne id => exact leave_moves ⟨by simp, by simp⟩ stepped
  | releaseAll id => exact leave_moves ⟨by simp, by simp⟩ stepped
  | drop id => exact leave_moves ⟨by simp, by simp⟩ stepped
  | run id =>
    simp only [act] at stepped
    split at stepped <;> cases stepped
    exact .ran ‹_›

/-- Both keys start out absent; the rest of the store is arbitrary. -/
def reentrant (key : String) : Machine Lock Timed where
  initial s := s.db key = none ∧ s.db (fenceKeyFor key) = none ∧ (∀ id, s.callers id = none) ∧
    s.wire = [] ∧ s.tally.holds = [] ∧ ∀ id, s.tally.granted id = none
  step s timed := (s.wait timed.delay).act key timed.action

def Lock.fresh : Lock := ⟨0, fun _ => none, fun _ => none, [], ⟨0, fun _ => none, []⟩⟩

theorem Lock.fresh_initial (key : String) : (reentrant key).initial .fresh :=
  ⟨rfl, rfl, fun _ => rfl, rfl, rfl, fun _ => rfl⟩

end Palisade.Reentrant
