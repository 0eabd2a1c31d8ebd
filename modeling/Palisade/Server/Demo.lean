import Palisade.Names
import Palisade.Reentrant.Nesting
import Palisade.Server.Wire

/-! The reentrant endpoints of the demo server. A granted handle is kept in a map under its
key and owner until a release request takes it out; the handle it displaces there is dropped,
and a dropped handle gives its hold back in the background. Requests of any owners and the
detached releases take their steps in any order. -/
namespace Palisade.Demo
open Redis Transition Reentrant Names

inductive StatusCode where
  | badRequest
  | badGateway
  | internalServerError
  deriving DecidableEq

structure ApiError where
  status : StatusCode
  message : String
  deriving DecidableEq

/-- `From<Error> for ApiError` -/
def ApiError.ofError (error : Error) : ApiError where
  status := match error with
    | .invalidConfig _ => .badRequest
    | .backend _ => .badGateway
    | _ => .internalServerError
  message := error.text

def demoMaxTtl : Duration := .fromMillis 60000

def clampTtl (ttlMs : Option UInt64) : Duration :=
  let floorMs := UInt64.ofNat minTtl.asMillis
  let requested := min (ttlMs.getD 4000) (UInt64.ofNat demoMaxTtl.asMillisU64)
  .fromMillis (max requested floorMs)

structure ReentrantAcquireRequest where
  key : String
  ttlMs : Option UInt64
  ownerId : Option String
  deriving DecidableEq

structure ReentrantAcquireResponse where
  ownerId : String
  fence : Nat
  deriving DecidableEq

structure ReentrantReleaseRequest where
  key : String
  ownerId : String
  all : Option Bool
  deriving DecidableEq

/-- The name of a handle in the map. -/
def handleName (key ownerId : String) : String := s!"{key}|{ownerId}"

/-- `granted` are the handles of acquire requests that are not in the map yet, `releasing`
those that release requests took out, `detached` the dropped ones; the scripts of the last
two have yet to run. `answers` are the acquire requests answered, by their keys. -/
structure DemoState where
  now : Nat
  db : Keyspace
  reentrant : String → Option ReentrantShared
  granted : List ReentrantShared
  releasing : List (ReentrantShared × Bool)
  detached : List ReentrantShared
  answers : List (String × ReentrantAcquireResponse)

/-- Who asks. `parseStr` reads a UUID; without one a new owner is minted. -/
def ownerOf (parseStr : String → Option OwnerId) (minted : OwnerId) : Option String → Except ApiError OwnerId
  | none => .ok minted
  | some id =>
    match parseStr id with
    | some owner => .ok owner
    | none => .error ⟨.badRequest, s!"owner_id `{id}` is not a valid uuid"⟩

/-- `try_lock_reentrant` -/
def tryLockReentrant (now : Nat) (db : Keyspace) (key : String) (owner : OwnerId) (options : LockOptions) :
    Except Error ReentrantShared × Keyspace :=
  match options.validate with
  | .error error => (.error error, db)
  | .ok _ =>
    let (reply, db) := ((Command.acquire options.ttl.asMillisU64).script key owner.token).exec now db
    (acquireReply key owner.token options.ttl reply, db)

/-- `release_one`, or `release_all`, of a handle. -/
def release (now : Nat) (db : Keyspace) (handle : ReentrantShared) (all : Bool) :
    Except Error Unit × Keyspace :=
  if handle.gone then (.ok (), db)
  else if all then
    let (reply, db) := (handle.releaseAllRequest.command.script handle.key handle.token).exec now db
    (handle.releaseAllReply reply, db)
  else
    let (reply, db) := (handle.releaseOneRequest.command.script handle.key handle.token).exec now db
    (handle.releaseOneReply reply, db)

/-- The detached release a dropped handle leaves behind. -/
def dropped (handle : ReentrantShared) : List ReentrantShared :=
  if handle.gone then [] else [handle]

namespace DemoState

def wait (s : DemoState) (delay : Nat) : DemoState := { s with now := s.now + delay }

/-- The store after an acquisition, and its error as the request reports it. -/
def acquired (s : DemoState) (answer : Except Error ReentrantShared × Keyspace) :
    Except ApiError ReentrantShared × DemoState :=
  (answer.1.mapError .ofError, { s with db := answer.2 })

/-- `reentrant_acquire`, as far as the script's answer. -/
def acquire (parseStr : String → Option OwnerId) (s : DemoState) (req : ReentrantAcquireRequest)
    (minted : OwnerId) : Except ApiError ReentrantShared × DemoState :=
  match ownerOf parseStr minted req.ownerId with
  | .error error => (.error error, s)
  | .ok owner => s.acquired (tryLockReentrant s.now s.db req.key owner ⟨clampTtl req.ttlMs⟩)

/-- The rest of `reentrant_acquire`: the handle enters the map and the request is answered. -/
def file (s : DemoState) (handle : ReentrantShared) : DemoState :=
  let name := handleName handle.key handle.token
  { s with
    reentrant := Function.update s.reentrant name (some handle)
    detached := (s.reentrant name).toList.flatMap dropped ++ s.detached
    answers := (handle.key, ⟨handle.token, handle.fence.value⟩) :: s.answers }

/-- `reentrant_release` takes the handle out of the map. -/
def take (s : DemoState) (req : ReentrantReleaseRequest) : Option ReentrantShared × DemoState :=
  let name := handleName req.key req.ownerId
  (s.reentrant name, { s with reentrant := Function.update s.reentrant name none })

/-- The rest of `reentrant_release`, for a handle that was there. -/
def finish (s : DemoState) (handle : ReentrantShared) (all : Bool) : Except ApiError Bool × DemoState :=
  let (result, db) := release s.now s.db handle all
  ((result.map fun _ => true).mapError .ofError, { s with db })

/-- `reentrant_release` without a pause; the answer is its `released`. -/
def reentrantRelease (s : DemoState) (req : ReentrantReleaseRequest) : Except ApiError Bool × DemoState :=
  match s.take req with
  | (none, s) => (.ok false, s)
  | (some handle, s) => s.finish handle (req.all.getD false)

/-- `detached_release_one` -/
def detachedReleaseOne (s : DemoState) (handle : ReentrantShared) : DemoState :=
  { s with db := ((handle.dropRequest.command.script handle.key handle.token).exec s.now s.db).2 }

end DemoState

inductive Action where
  | acquire (req : ReentrantAcquireRequest) (minted : OwnerId)
  | file (handle : ReentrantShared)
  | take (req : ReentrantReleaseRequest)
  | finish (handle : ReentrantShared) (all : Bool)
  | detached (handle : ReentrantShared)
  deriving DecidableEq

structure Timed where
  delay : Nat
  action : Action
  deriving DecidableEq

def DemoState.act (parseStr : String → Option OwnerId) (s : DemoState) : Action → Option DemoState
  | .acquire req minted =>
    match s.acquire parseStr req minted with
    | (.error _, t) => some t
    | (.ok handle, t) => some { t with granted := handle :: t.granted }
  | .file handle =>
    if handle ∈ s.granted then some ({ s with granted := s.granted.erase handle }.file handle) else none
  | .take req =>
    let (found, t) := s.take req
    some { t with releasing := found.toList.map (·, req.all.getD false) ++ t.releasing }
  | .finish handle all =>
    if (handle, all) ∈ s.releasing then
      some ({ s with releasing := s.releasing.erase (handle, all) }.finish handle all).2
    else none
  | .detached handle =>
    if handle ∈ s.detached then
      some ({ s with detached := s.detached.erase handle }.detachedReleaseOne handle)
    else none

/-- The owner's lock has not run out. -/
def DemoState.Unexpired (s : DemoState) (key token : String) : Prop :=
  ∀ r ∈ recordAt key s.db, r.owner = token → s.now < r.stop

instance (s : DemoState) (key token : String) : Decidable (s.Unexpired key token) :=
  inferInstanceAs (Decidable (∀ r ∈ recordAt key s.db, r.owner = token → s.now < r.stop))

/-- A request on the key, unless the owner asks for a release. -/
def Action.Concerns (key token : String) : Action → Prop
  | .acquire req _ => req.key = key
  | .take req => req.key = key ∧ req.ownerId ≠ token
  | _ => True

instance (key token : String) : ∀ action : Action, Decidable (action.Concerns key token)
  | .acquire req _ => inferInstanceAs (Decidable (req.key = key))
  | .take req => inferInstanceAs (Decidable (req.key = key ∧ req.ownerId ≠ token))
  | .file _ | .finish .. | .detached _ => inferInstanceAs (Decidable True)

/-- The steps on the way to the owner's holds. -/
def Entering (key token : String) (s : DemoState) (timed : Timed) : Prop :=
  timed.action.Concerns key token ∧ (s.wait timed.delay).Unexpired key token

instance (key token : String) (s : DemoState) (timed : Timed) : Decidable (Entering key token s timed) :=
  inferInstanceAs (Decidable (_ ∧ _))

/-- The server starts without handles, over a store in which the owner holds nothing. -/
def demo (parseStr : String → Option OwnerId) (key token : String) : Machine DemoState Timed where
  initial s := Sound key s.db ∧ (∀ r ∈ recordAt key s.db, r.owner ≠ token) ∧
    (∀ name, s.reentrant name = none) ∧ s.granted = [] ∧ s.releasing = [] ∧ s.detached = [] ∧ s.answers = []
  step s timed := (s.wait timed.delay).act parseStr timed.action

namespace DemoState

/-- How many acquire requests of the owner were answered with a handle. -/
def entries (s : DemoState) (key token : String) : Nat :=
  s.answers.countP fun answer => decide (answer.1 = key ∧ answer.2.ownerId = token)

/-- Every granted request of the owner is answered and every detached release has run. -/
def Settled (s : DemoState) (token : String) : Prop :=
  ∀ handle ∈ s.granted ++ s.detached, handle.token ≠ token

/-- The owner's hold count. -/
def holdCount (s : DemoState) (key token : String) : Int :=
  match live s.now (recordAt key s.db) with
  | some r => if r.owner = token then r.count else 0
  | none => 0

/-- One release request of the owner after another, each after a delay. -/
def releases (s : DemoState) (key token : String) :
    List (Nat × Option Bool) → List (Except ApiError Bool) × DemoState
  | [] => ([], s)
  | (delay, all) :: rest =>
    let (answer, s) := (s.wait delay).reentrantRelease ⟨key, token, all⟩
    let (answers, s) := s.releases key token rest
    (answer :: answers, s)

/-- None of them comes after the lock ran out. -/
def InTime (s : DemoState) (key token : String) : List (Nat × Option Bool) → Prop
  | [] => True
  | (delay, all) :: rest => (s.wait delay).Unexpired key token ∧
    ((s.wait delay).reentrantRelease ⟨key, token, all⟩).2.InTime key token rest

/-- It takes this many releases, of one hold each, to free the lock, and all are granted. -/
def FreedBy (s : DemoState) (key token : String) (count : Nat) : Prop :=
  ∀ requests : List (Nat × Option Bool), requests.length ≤ count → (∀ request ∈ requests, request.2 ≠ some true) →
    s.InTime key token requests → (∀ answer ∈ (s.releases key token requests).1, answer = .ok true) ∧
      (live (s.releases key token requests).2.now (recordAt key (s.releases key token requests).2.db) = none ↔
        requests.length = count)

end DemoState

/-! What a request gets. -/

theorem clampTtl_millis (ttlMs : Option UInt64) :
    ∃ ms : UInt64, 10 ≤ ms.toNat ∧ clampTtl ttlMs = .fromMillis ms := by
  refine ⟨_, ?_, rfl⟩
  rw [show UInt64.ofNat minTtl.asMillis = 10 from rfl]
  simp only [max]
  split
  · rfl
  · have above := UInt64.le_iff_toNat_le.not.mp ‹_›
    exact (Nat.lt_of_not_le above).le

theorem clampTtl_positive (ttlMs : Option UInt64) : 0 < (clampTtl ttlMs).asMillisU64 := by
  obtain ⟨ms, least, same⟩ := clampTtl_millis ttlMs
  have whole : (Duration.fromMillis ms).asMillis = ms.toNat := Nat.mul_div_cancel _ (by decide)
  rw [same, Duration.asMillisU64, whole, Nat.mod_eq_of_lt ms.toNat_lt]
  omega

theorem validate_clampTtl (ttlMs : Option UInt64) :
    (⟨clampTtl ttlMs⟩ : LockOptions).validate = .ok () := by
  obtain ⟨ms, least, same⟩ := clampTtl_millis ttlMs
  have floor : ¬ (Duration.fromMillis ms).nanos < minTtl.nanos :=
    Nat.not_lt.mpr (Nat.mul_le_mul_right _ least)
  simp [LockOptions.validate, same, floor]

theorem handleName_inj {key first second : String} (same : handleName key first = handleName key second) :
    first = second := by
  unfold handleName at same
  exact String.append_right_inj _ |>.mp same

/-- The acquisition follows the record; a handle is made of a granted one. -/
theorem tryLockReentrant_outcome {db : Keyspace} (sound : Sound key db) (now : Nat) (owner : OwnerId)
    {ttl : Duration} (valid : (⟨ttl⟩ : LockOptions).validate = .ok ()) : ∃ status after result,
      tryLockReentrant now db key owner ⟨ttl⟩ = (result, after) ∧ Sound key after ∧
      Outcome now owner.token (recordAt key db) (.acquire ttl.asMillisU64) status (recordAt key after) ∧
      ((status = 1 ∨ status = 2) ∧ (∃ fence, result = .ok ⟨key, owner.token, fence, ttl, false⟩) ∨
        ¬ (status = 1 ∨ status = 2) ∧ result = .error (.held key)) := by
  obtain ⟨status, fence, after, ran, whole, applied⟩ := sound.follows owner.token now (.acquire ttl.asMillisU64)
  refine ⟨status, after, acquireReply key owner.token ttl (.ok (status, fence)), ?_, whole,
    Command.outcome applied, ?_⟩
  · simp only [tryLockReentrant, valid, ran]
  · by_cases granted : status = 1 ∨ status = 2
    · exact .inl ⟨granted, _, if_pos granted⟩
    · exact .inr ⟨granted, if_neg granted⟩

/-- What an acquire request of a known owner comes to. -/
theorem act_acquire_outcome {parseStr : String → Option OwnerId} {s : DemoState} {owner : OwnerId}
    (req : ReentrantAcquireRequest) (minted : OwnerId) (sound : Sound req.key s.db)
    (who : ownerOf parseStr minted req.ownerId = .ok owner) : ∃ ttl status after, 0 < ttl.asMillisU64 ∧
      Sound req.key after ∧
      Outcome s.now owner.token (recordAt req.key s.db) (.acquire ttl.asMillisU64) status (recordAt req.key after) ∧
      ((status = 1 ∨ status = 2) ∧ (∃ fence, s.act parseStr (.acquire req minted) =
          some { s with db := after, granted := ⟨req.key, owner.token, fence, ttl, false⟩ :: s.granted }) ∨
        ¬ (status = 1 ∨ status = 2) ∧ s.act parseStr (.acquire req minted) = some { s with db := after }) := by
  obtain ⟨status, after, result, ran, whole, outcome, answered⟩ :=
    tryLockReentrant_outcome sound s.now owner (validate_clampTtl req.ttlMs)
  refine ⟨_, status, after, clampTtl_positive req.ttlMs, whole, outcome, ?_⟩
  have asked : s.acquire parseStr req minted = s.acquired (result, after) := by
    simp only [DemoState.acquire, who, ran]
  rcases answered with ⟨granted, fence, rfl⟩ | ⟨refused, rfl⟩
  · refine .inl ⟨granted, fence, ?_⟩
    simp only [DemoState.act, asked, DemoState.acquired, Except.mapError]
  · refine .inr ⟨refused, ?_⟩
    simp only [DemoState.act, asked, DemoState.acquired, Except.mapError]

def releaseCommand (handle : ReentrantShared) (all : Bool) : Command :=
  if all then .releaseAll else .releaseOne handle.ttl.asMillisU64

/-- The release follows the record. -/
theorem release_outcome {db : Keyspace} {handle : ReentrantShared} (sound : Sound handle.key db) (now : Nat)
    (armed : handle.gone = false) (all : Bool) : ∃ status after,
      release now db handle all = (if status < 0 then .error handle.lost else .ok (), after) ∧
      Sound handle.key after ∧ Outcome now handle.token (recordAt handle.key db)
        (releaseCommand handle all) status (recordAt handle.key after) := by
  obtain ⟨status, fence, after, ran, whole, applied⟩ :=
    sound.follows handle.token now (releaseCommand handle all)
  refine ⟨status, after, ?_, whole, Command.outcome applied⟩
  cases all with
  | false =>
    have sent : handle.releaseOneRequest.command = releaseCommand handle false := rfl
    simp [release, armed, sent, ran, ReentrantShared.releaseOneReply]
  | true =>
    have sent : handle.releaseAllRequest.command = releaseCommand handle true := rfl
    simp [release, armed, sent, ran, ReentrantShared.releaseAllReply]

/-! One owner's lock. -/

/-- A refused acquisition leaves the record alone. -/
theorem record_of_refused {ttl : Nat} (outcome : Outcome now token record (.acquire ttl) status after)
    (refused : ¬ (status = 1 ∨ status = 2)) : after = record := by
  cases outcome with
  | opened | reentered => simp at refused
  | denied | missed => rfl

/-- The record is the owner's, is valid and counts this many holds, or the owner has none. -/
structure Balance (token : String) (now : Nat) (record : Option Record) (holds : Nat) : Prop where
  owned : ∀ r ∈ record, r.owner = token → now < r.stop ∧ r.count = holds
  absent : (∀ r ∈ record, r.owner ≠ token) → holds = 0

namespace Balance
variable {token : String} {now holds : Nat} {record after : Option Record} {status : Int}

theorem vacant (nobody : ∀ r ∈ after, r.owner ≠ token) : Balance token now after 0 where
  owned r stored mine := absurd mine (nobody r stored)
  absent _ := rfl

theorem holding {ttl : Nat} (positive : 0 < ttl) : Balance token now (leased now ttl token holds) holds where
  owned r stored _ := by
    obtain ⟨_, rfl⟩ := leased_eq_some.mp stored
    exact ⟨Nat.lt_add_of_pos_right positive, rfl⟩
  absent nobody := absurd rfl (nobody _ (leased_eq_some.mpr ⟨positive.ne', rfl⟩))

variable (balance : Balance token now record holds)
include balance

/-- What is visible of the owner's lock is what it counts. -/
theorem seen {count : Int} {stop : Nat} (held : live now record = some ⟨token, count, stop⟩) :
    count = holds :=
  (balance.owned _ (live_eq_some.mp held).1 rfl).2

theorem later {next : Nat} (running : ∀ r ∈ record, r.owner = token → next < r.stop) :
    Balance token next record holds where
  owned r stored mine := ⟨running r stored mine, (balance.owned r stored mine).2⟩
  absent := balance.absent

/-- What is not visible as the owner's lock counts nothing. -/
theorem unheld (hidden : ∀ r, live now record = some r → r.owner ≠ token) : holds = 0 := by
  apply balance.absent
  intro r stored mine
  exact hidden r (live_eq_some.mpr ⟨stored, (balance.owned r stored mine).1⟩) mine

/-- The scripts of other owners leave the owner's holds alone. -/
theorem other {other : String} (distinct : other ≠ token)
    (outcome : Outcome now other record command status after) : Balance token now after holds := by
  have theirs {count : Int} {stop : Nat} (held : live now record = some ⟨other, count, stop⟩) : holds = 0 := by
    apply balance.unheld
    rintro r seen rfl
    rw [held] at seen
    cases seen
    exact distinct rfl
  have renewed {ttl : Nat} {count : Int} : ∀ r ∈ leased now ttl other count, r.owner ≠ token := by
    intro r stored
    obtain ⟨_, rfl⟩ := leased_eq_some.mp stored
    exact distinct
  cases outcome with
  | opened free =>
    rw [balance.unheld (by simp [free])]
    exact vacant renewed
  | reentered held | extended held =>
    rw [theirs held]
    exact vacant renewed
  | denied | missed => exact balance
  | emptied held | cleared held =>
    rw [theirs held]
    exact vacant nofun
  | reduced held =>
    rw [theirs held]
    refine vacant ?_
    rintro r ⟨⟩
    exact distinct

theorem granted {ttl : Nat} (positive : 0 < ttl)
    (outcome : Outcome now token record (.acquire ttl) status after) (granted : status = 1 ∨ status = 2) :
    Balance token now after (holds + 1) := by
  cases outcome with
  | opened free =>
    rw [balance.unheld (by simp [free])]
    exact holding positive
  | reentered held =>
    rw [balance.seen held]
    exact holding positive
  | denied => simp at granted
  | missed _ other => exact absurd rfl (other ttl)

end Balance

/-- One hold less. -/
theorem Balance.released {token : String} {now holds refresh : Nat} {record after : Option Record} {status : Int}
    (balance : Balance token now record (holds + 1))
    (outcome : Outcome now token record (.releaseOne refresh) status after) : Balance token now after holds := by
  cases outcome with
  | emptied held last =>
    have counted := balance.seen held
    obtain rfl : holds = 0 := by omega
    exact vacant nofun
  | @reduced count stop _ held more =>
    obtain rfl : count = (holds : Int) + 1 := balance.seen held
    have less : (holds : Int) + 1 - 1 = holds := by omega
    have running : now < stop := (live_eq_some.mp held).2
    constructor
    · rintro r ⟨⟩ _
      have renewed : now < if 0 < refresh then now + refresh else stop := by
        split
        · omega
        · exact running
      exact ⟨renewed, less⟩
    · intro nobody
      exact absurd rfl (nobody _ rfl)
  | missed hidden =>
    exact absurd (balance.unheld hidden) (by omega)

/-- The last hold is given back. -/
theorem Balance.last {token : String} {now refresh : Nat} {record after : Option Record} {status : Int}
    (balance : Balance token now record 1)
    (outcome : Outcome now token record (.releaseOne refresh) status after) : status = 0 ∧ after = none := by
  cases outcome with
  | emptied => exact ⟨rfl, rfl⟩
  | reduced held more =>
    have counted := balance.seen held
    omega
  | missed hidden => exact absurd (balance.unheld hidden) (by decide)

/-! Runs. -/

section
variable {key token : String}

/-- The holds that the handles of an owner stand for. -/
def DemoState.owed (s : DemoState) (key token : String) : Nat :=
  s.granted.countP (fun handle => decide (handle.token = token)) +
    s.detached.countP (fun handle => decide (handle.token = token)) +
    (s.reentrant (handleName key token)).toList.length

/-- The owner's holds are its handles, wherever they are; it has one in the map as soon as
a request of it was answered. -/
structure Inv (key token : String) (s : DemoState) : Prop where
  sound : Sound key s.db
  filed : ∀ id handle, s.reentrant (handleName key id) = some handle →
    handle.key = key ∧ handle.token = id ∧ handle.gone = false
  armed : ∀ handle ∈ s.granted, handle.key = key ∧ handle.gone = false
  detached : ∀ handle ∈ s.detached, handle.key = key
  releasing : ∀ entry ∈ s.releasing, entry.1.key = key ∧ entry.1.token ≠ token ∧ entry.1.gone = false
  balance : Balance token s.now (recordAt key s.db) (s.owed key token)
  entered : 0 < s.entries key token → s.reentrant (handleName key token) ≠ none

theorem owed_cons {s : DemoState} {handle : ReentrantShared} {db : Keyspace} :
    { s with db, granted := handle :: s.granted }.owed key token =
      s.owed key token + if handle.token = token then 1 else 0 := by
  simp only [DemoState.owed, List.countP_cons, decide_eq_true_eq]
  omega

theorem displaced_filed {s : DemoState} (inv : Inv key token s) {id : String} {handle : ReentrantShared}
    (member : handle ∈ (s.reentrant (handleName key id)).toList.flatMap dropped) :
    handle.key = key ∧ handle.token = id := by
  obtain ⟨old, filed, left⟩ := List.mem_flatMap.mp member
  have found := inv.filed id old (Option.mem_toList.mp filed)
  rw [dropped, found.2.2, if_neg (by decide), List.mem_singleton] at left
  subst left
  exact ⟨found.1, found.2.1⟩

/-- A handle moves from a request to the map; the one it displaces is dropped. -/
theorem owed_file {s : DemoState} {handle : ReentrantShared} (inv : Inv key token s)
    (member : handle ∈ s.granted) :
    ({ s with granted := s.granted.erase handle }.file handle).owed key token = s.owed key token := by
  have less := countP_erase_add (fun handle : ReentrantShared => decide (handle.token = token)) member
  obtain ⟨rfl, _⟩ := inv.armed handle member
  simp only [DemoState.owed, DemoState.file, List.countP_append]
  by_cases mine : handle.token = token
  · subst mine
    simp only [Function.update_self, decide_true, if_true] at less ⊢
    cases found : s.reentrant (handleName handle.key handle.token) with
    | none => simp; omega
    | some old =>
      obtain ⟨_, same, armed⟩ := inv.filed _ old found
      simp [dropped, armed, same]
      omega
  · have apart : handleName handle.key token ≠ handleName handle.key handle.token :=
      fun same => mine (handleName_inj same).symm
    have theirs : ((s.reentrant (handleName handle.key handle.token)).toList.flatMap dropped).countP
        (fun other => decide (other.token = token)) = 0 := by
      apply List.countP_eq_zero.mpr
      intro other member
      simpa [(displaced_filed inv member).2] using mine
    simp only [Function.update_of_ne apart, theirs, mine, decide_false, Bool.false_eq_true, if_false] at less ⊢
    omega

/-- A detached release runs. -/
theorem owed_erase {s : DemoState} {handle : ReentrantShared} {db : Keyspace} (member : handle ∈ s.detached) :
    { s with db, detached := s.detached.erase handle }.owed key token +
      (if handle.token = token then 1 else 0) = s.owed key token := by
  have less := countP_erase_add (fun handle : ReentrantShared => decide (handle.token = token)) member
  simp only [decide_eq_true_eq] at less
  simp only [DemoState.owed, ← less]
  omega

theorem inv_initial {parseStr : String → Option OwnerId} {s : DemoState}
    (first : (demo parseStr key token).initial s) : Inv key token s := by
  obtain ⟨sound, nobody, empty, granted, releasing, detached, answers⟩ := first
  constructor
  · exact sound
  · simp [empty]
  · simp [granted]
  · simp [detached]
  · simp [releasing]
  · have owed : s.owed key token = 0 := by simp [DemoState.owed, granted, detached, empty]
    rw [owed]
    exact .vacant nobody
  · simp [DemoState.entries, answers]

namespace Inv
variable {parseStr : String → Option OwnerId} {s t : DemoState} (inv : Inv key token s)
include inv

theorem wait {delay : Nat} (unexpired : (s.wait delay).Unexpired key token) : Inv key token (s.wait delay) where
  sound := inv.sound
  filed := inv.filed
  armed := inv.armed
  detached := inv.detached
  releasing := inv.releasing
  balance := inv.balance.later unexpired
  entered := inv.entered

theorem acquire {req : ReentrantAcquireRequest} {minted : OwnerId} (concerns : req.key = key)
    (stepped : s.act parseStr (.acquire req minted) = some t) : Inv key token t := by
  subst concerns
  cases who : ownerOf parseStr minted req.ownerId with
  | error error =>
    simp only [DemoState.act, DemoState.acquire, who] at stepped
    cases stepped
    exact inv
  | ok owner =>
    obtain ⟨ttl, status, after, positive, whole, outcome, answered⟩ := act_acquire_outcome req minted inv.sound who
    rcases answered with ⟨granted, fence, acted⟩ | ⟨refused, acted⟩
    · cases acted.symm.trans stepped
      refine ⟨whole, inv.filed, ?_, inv.detached, inv.releasing, ?_, inv.entered⟩
      · intro handle member
        rcases List.mem_cons.mp member with rfl | member
        · exact ⟨rfl, rfl⟩
        · exact inv.armed handle member
      · change Balance token s.now (recordAt req.key after) _
        rw [owed_cons]
        by_cases mine : owner.token = token
        · subst mine
          rw [if_pos rfl]
          exact inv.balance.granted positive outcome granted
        · rw [if_neg mine]
          exact inv.balance.other mine outcome
    · cases acted.symm.trans stepped
      refine { inv with sound := whole, balance := ?_ }
      change Balance token s.now (recordAt req.key after) (s.owed req.key token)
      rw [record_of_refused outcome refused]
      exact inv.balance

theorem file {handle : ReentrantShared}
    (stepped : s.act parseStr (.file handle) = some t) : Inv key token t := by
  obtain ⟨member, ⟨⟩⟩ := Option.ite_none_right_eq_some.mp stepped
  have owed := owed_file inv member
  obtain ⟨rfl, armed⟩ := inv.armed handle member
  refine ⟨inv.sound, ?_, ?_, ?_, inv.releasing, ?_, ?_⟩
  · intro id other found
    rcases update_eq_some found with ⟨same, entry⟩ | ⟨_, found⟩
    · cases entry
      exact ⟨rfl, (handleName_inj same).symm, armed⟩
    · exact inv.filed id other found
  · intro other member
    exact inv.armed other (List.mem_of_mem_erase member)
  · intro other member
    rcases List.mem_append.mp member with displaced | member
    · exact (displaced_filed inv displaced).1
    · exact inv.detached other member
  · rw [owed]
    exact inv.balance
  · intro entered absent
    have before : s.reentrant (handleName handle.key token) = none ∧ handle.token ≠ token := by
      by_cases mine : handleName handle.key token = handleName handle.key handle.token
      · rw [mine] at absent
        simp [DemoState.file] at absent
      · refine ⟨(Function.update_of_ne mine ..).symm.trans absent, ?_⟩
        rintro rfl
        exact mine rfl
    refine inv.entered ?_ before.1
    simpa [DemoState.entries, DemoState.file, List.countP_cons, before.2] using entered

/-- Only the other owners' handles are taken out. -/
theorem take {req : ReentrantReleaseRequest} (concerns : req.key = key) (distinct : req.ownerId ≠ token)
    (stepped : s.act parseStr (.take req) = some t) : Inv key token t := by
  subst concerns
  cases stepped
  have apart : handleName req.key token ≠ handleName req.key req.ownerId :=
    fun same => distinct (handleName_inj same).symm
  have kept : Function.update s.reentrant (handleName req.key req.ownerId) none (handleName req.key token) =
      s.reentrant (handleName req.key token) := Function.update_of_ne apart ..
  refine ⟨inv.sound, ?_, inv.armed, inv.detached, ?_, ?_, ?_⟩
  · intro id handle found
    rcases update_eq_some found with ⟨_, entry⟩ | ⟨_, found⟩
    · contradiction
    · exact inv.filed id handle found
  · intro entry member
    rcases List.mem_append.mp member with taken | member
    · obtain ⟨handle, found, rfl⟩ := List.mem_map.mp taken
      obtain ⟨own, named, armed⟩ := inv.filed _ handle (Option.mem_toList.mp found)
      exact ⟨own, named ▸ distinct, armed⟩
    · exact inv.releasing entry member
  · have owed := inv.balance
    rw [DemoState.owed, ← kept] at owed
    exact owed
  · intro entered absent
    exact inv.entered entered (kept.symm.trans absent)

theorem finish {handle : ReentrantShared} {all : Bool}
    (stepped : s.act parseStr (.finish handle all) = some t) : Inv key token t := by
  obtain ⟨member, ⟨⟩⟩ := Option.ite_none_right_eq_some.mp stepped
  obtain ⟨rfl, distinct, armed⟩ := inv.releasing _ member
  obtain ⟨status, after, ran, whole, outcome⟩ := release_outcome inv.sound s.now armed all
  have left : ({ s with releasing := s.releasing.erase (handle, all) }.finish handle all).2 =
      { s with db := after, releasing := s.releasing.erase (handle, all) } := by
    simp [DemoState.finish, ran]
  rw [left]
  refine { inv with sound := whole, releasing := ?_, balance := ?_ }
  · intro entry member
    exact inv.releasing entry (List.mem_of_mem_erase member)
  · exact inv.balance.other distinct outcome

theorem detachedReleaseOne {handle : ReentrantShared}
    (stepped : s.act parseStr (.detached handle) = some t) : Inv key token t := by
  obtain ⟨member, ⟨⟩⟩ := Option.ite_none_right_eq_some.mp stepped
  obtain rfl := inv.detached handle member
  obtain ⟨status, fence, after, ran, whole, applied⟩ := inv.sound.follows handle.token s.now (.releaseOne 0)
  have outcome := Command.outcome applied
  have left : { s with detached := s.detached.erase handle }.detachedReleaseOne handle =
      { s with db := after, detached := s.detached.erase handle } := by
    have sent : handle.dropRequest.command = .releaseOne 0 := rfl
    simp [DemoState.detachedReleaseOne, sent, ran]
  rw [left]
  refine { inv with sound := whole, detached := ?_, balance := ?_ }
  · intro other member
    exact inv.detached other (List.mem_of_mem_erase member)
  · have balance := inv.balance
    rw [← owed_erase member] at balance
    by_cases mine : handle.token = token
    · subst mine
      rw [if_pos rfl] at balance
      exact balance.released outcome
    · rw [if_neg mine] at balance
      exact balance.other mine outcome

theorem step {timed : Timed} (entering : Entering key token s timed)
    (stepped : (demo parseStr key token).step s timed = some t) : Inv key token t := by
  obtain ⟨delay, action⟩ := timed
  obtain ⟨concerns, unexpired⟩ := entering
  have waited := inv.wait unexpired
  change (s.wait delay).act parseStr action = some t at stepped
  cases action with
  | acquire req minted => exact waited.acquire concerns stepped
  | file handle => exact waited.file stepped
  | take req => exact waited.take concerns.1 concerns.2 stepped
  | finish handle all => exact waited.finish stepped
  | detached handle => exact waited.detachedReleaseOne stepped

/-- However often the owner entered, one handle is left, and the record counts one hold. -/
theorem settled (settled : s.Settled token) (entered : 0 < s.entries key token) :
    ∃ handle, s.reentrant (handleName key token) = some handle ∧
      Balance token s.now (recordAt key s.db) 1 := by
  obtain ⟨handle, found⟩ := Option.ne_none_iff_exists'.mp (inv.entered entered)
  have none_of {handles : List ReentrantShared} (apart : ∀ handle ∈ handles, handle.token ≠ token) :
      handles.countP (fun handle => decide (handle.token = token)) = 0 := by
    apply List.countP_eq_zero.mpr
    intro handle member
    simpa using apart handle member
  have owed : s.owed key token = 1 := by
    rw [DemoState.owed, none_of fun handle member => settled handle (List.mem_append_left _ member),
      none_of fun handle member => settled handle (List.mem_append_right _ member), found]
    rfl
  exact ⟨handle, found, owed ▸ inv.balance⟩

/-- One release frees the lock. -/
theorem reentrantRelease {handle : ReentrantShared} {all : Option Bool}
    (found : s.reentrant (handleName key token) = some handle)
    (balance : Balance token s.now (recordAt key s.db) 1) (one : all ≠ some true) :
    (s.reentrantRelease ⟨key, token, all⟩).1 = .ok true ∧
      recordAt key (s.reentrantRelease ⟨key, token, all⟩).2.db = none := by
  obtain ⟨rfl, rfl, armed⟩ := inv.filed token handle found
  have single : all.getD false = false := by
    cases all with
    | none => rfl
    | some all => simpa using one
  obtain ⟨status, after, ran, _, outcome⟩ := release_outcome inv.sound s.now armed false
  obtain ⟨rfl, freed⟩ := balance.last outcome
  have served : s.reentrantRelease ⟨handle.key, handle.token, all⟩ = (.ok true,
      { s with
        db := after
        reentrant := Function.update s.reentrant (handleName handle.key handle.token) none }) := by
    simp [DemoState.reentrantRelease, DemoState.take, found, single, DemoState.finish, ran, Except.map,
      Except.mapError]
  rw [served]
  exact ⟨rfl, freed⟩

end Inv

theorem Balance.holdCount {s : DemoState} {holds : Nat} (balance : Balance token s.now (recordAt key s.db) holds) :
    s.holdCount key token = holds := by
  unfold DemoState.holdCount
  split
  · next r held =>
    split
    · next mine => exact (balance.owned r (live_eq_some.mp held).1 mine).2
    · next theirs =>
      have zero : holds = 0 := balance.unheld (by simp [held, theirs])
      rw [zero]
      rfl
  · next hidden =>
    have zero : holds = 0 := balance.unheld (by simp [hidden])
    rw [zero]
    rfl

theorem freedBy_one {s : DemoState} {handle : ReentrantShared} (inv : Inv key token s)
    (found : s.reentrant (handleName key token) = some handle)
    (balance : Balance token s.now (recordAt key s.db) 1) : s.FreedBy key token 1 := by
  rintro requests short one inTime
  match requests with
  | [] =>
    have held : live s.now (recordAt key s.db) ≠ none := by
      intro hidden
      exact absurd (balance.unheld (by simp [hidden])) (by decide)
    simpa [DemoState.releases] using held
  | [(delay, all)] =>
    have waited := inv.wait inTime.1
    have later := balance.later inTime.1
    obtain ⟨answered, freed⟩ := waited.reentrantRelease found later (one _ (List.mem_singleton_self _))
    simp [DemoState.releases, answered, freed, live]
  | _ :: _ :: _ => simp at short

theorem inv_reachable {parseStr : String → Option OwnerId} {s : DemoState}
    (reach : (demo parseStr key token).ReachableWhen (Entering key token) s) : Inv key token s :=
  reach.invariant (fun _ => inv_initial) fun _ _ _ inv entering stepped => inv.step entering stepped

/-- The owner entered `k` times, its requests are answered and the detached releases have run. The
lock counts `k` holds, and `k` releases free it, if it entered once and not otherwise. -/
theorem reentries_counted_iff {parseStr : String → Option OwnerId} {owner : OwnerId} {s : DemoState} {k : Nat}
    (reach : (demo parseStr key owner.token).ReachableWhen (Entering key owner.token) s)
    (settled : s.Settled owner.token) (entered : s.entries key owner.token = k) (positive : 1 ≤ k) :
    (s.holdCount key owner.token = k ∧ s.FreedBy key owner.token k) ↔ k = 1 := by
  have inv := inv_reachable reach
  obtain ⟨handle, found, balance⟩ := inv.settled settled (entered ▸ positive)
  constructor
  · rintro ⟨counted, _⟩
    have single := balance.holdCount
    omega
  · rintro rfl
    exact ⟨balance.holdCount, freedBy_one inv found balance⟩

end

def DemoState.fresh : DemoState := ⟨0, fun _ => none, fun _ => none, [], [], [], []⟩

theorem fresh_initial (parseStr : String → Option OwnerId) (key token : String) :
    (demo parseStr key token).initial .fresh :=
  ⟨⟨nofun, nofun⟩, nofun, fun _ => rfl, rfl, rfl, rfl, rfl⟩

def nilOwner : OwnerId := ⟨0⟩

def ordersHandle (fence : Nat) : ReentrantShared :=
  ⟨"orders", nilOwner.token, ⟨fence⟩, .fromMillis 4000, false⟩

theorem single_entry_counted : ∃ s : DemoState, s.entries "orders" nilOwner.token = 1 ∧
    s.holdCount "orders" nilOwner.token = 1 ∧ s.FreedBy "orders" nilOwner.token 1 := by
  obtain ⟨s, reach, entered, settled⟩ := Machine.exists_reachableWhen (Entering "orders" nilOwner.token)
    (fun s : DemoState => s.entries "orders" nilOwner.token = 1 ∧ s.granted ++ s.detached = [])
    (fresh_initial (fun _ => none) "orders" nilOwner.token)
    [⟨0, .acquire ⟨"orders", none, none⟩ nilOwner⟩, ⟨0, .file (ordersHandle 1)⟩]
    (by decide +kernel)
  exact ⟨s, entered, (reentries_counted_iff reach (by simp [DemoState.Settled, settled]) entered le_rfl).mpr rfl⟩

/-- The owner enters a second time; its first handle is dropped and gives one of the two holds back. -/
theorem reentry_not_counted :
    ¬ ∀ s : DemoState, (demo (fun id => if id = nilOwner.token then some nilOwner else none) "orders"
        nilOwner.token).ReachableWhen (Entering "orders" nilOwner.token) s →
      s.Settled nilOwner.token → s.entries "orders" nilOwner.token = 2 →
      s.holdCount "orders" nilOwner.token = 2 ∧ s.FreedBy "orders" nilOwner.token 2 := by
  intro always
  obtain ⟨s, reach, entered, settled, counted⟩ := Machine.exists_reachableWhen
    (Entering "orders" nilOwner.token)
    (fun s : DemoState => s.entries "orders" nilOwner.token = 2 ∧ s.granted ++ s.detached = [] ∧
      s.holdCount "orders" nilOwner.token = 1)
    (fresh_initial (fun id => if id = nilOwner.token then some nilOwner else none) "orders" nilOwner.token)
    [⟨0, .acquire ⟨"orders", none, none⟩ nilOwner⟩, ⟨0, .file (ordersHandle 1)⟩,
      ⟨5, .acquire ⟨"orders", none, some nilOwner.token⟩ ⟨1⟩⟩, ⟨0, .file (ordersHandle 2)⟩,
      ⟨0, .detached (ordersHandle 1)⟩]
    (by decide +kernel)
  obtain ⟨twice, _⟩ := always s reach (by simp [DemoState.Settled, settled]) entered
  omega

end Palisade.Demo
