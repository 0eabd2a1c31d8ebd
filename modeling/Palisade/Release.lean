import Palisade.OnceOnly
import Palisade.Single.Handles
import Palisade.Redlock.Release
import Palisade.Reentrant.Handles
import Palisade.ReadWrite.Operations
import Palisade.Semaphore.Capacity
import Palisade.Fair.Queue
import Palisade.Fair.Handles
import Palisade.Etcd.Lock
import Palisade.Client.Remote

/-! Releasing a handle. Each of the eight handle types guards its release with a flag
that is set before the store is asked; this is the once-only protocol over that type's
store. A request either executes or fails with a backend error and has no effect. -/
namespace Palisade.Release
open Redis Single OnceOnly

/-- The protocol of a handle whose release is one script on one store. -/
def scripted {α Request : Type} (script : Request → Script α)
    (reply : Request → Except Fault α → Except Error Unit) (records fits : Keyspace → Nat → Prop)
    (earlier : ∀ {db now later}, now ≤ later → records db later → records db now)
    (ended : ∀ {request db now}, fits db now → ¬ records ((script request).exec now db).2 now) :
    Protocol where
  Store := Keyspace
  Attempt := Request × Fate
  Fault := Error
  attempt now a db := match a.2 with
    | .executes =>
      let (answer, db) := (script a.1).exec now db
      (reply a.1 answer, db)
    | .fails message => (.error (.backend message), db)
  records := records
  fits := fits
  misses a db instant := a.2 ≠ .executes ∧ records db instant
  reaches _ _ _ := False
  lapses order := And.imp_right (earlier order)
  left {a db now instant} fit order := by
    obtain ⟨request, fate⟩ := a
    cases fate with
    | fails => simp
    | executes =>
      simp only [ne_eq, not_true, false_and, iff_false]
      exact fun recorded => ended fit (earlier order recorded)
  answered {a db now} _ missed := by
    obtain ⟨request, fate⟩ := a
    cases fate with
    | executes => exact absurd rfl missed.1
    | fails => simp

section
variable {key token : String} {db after : Keyspace} {now later : Nat}

/-! Reentrant handles. Each is one hold of its owner, and the owner's token is all the
store sees of it: this handle's hold is recorded while the count exceeds the holds the
owner has through other handles. -/

def HoldRecorded (key token : String) (others : Nat) (db : Keyspace) (instant : Nat) : Prop :=
  ∃ record, Reentrant.live instant (Reentrant.recordAt key db) = some record ∧
    record.owner = token ∧ (others : Int) < record.count

/-- Beside the holds through other handles there is at most this one. -/
structure HoldFits (key token : String) (others : Nat) (db : Keyspace) (instant : Nat) : Prop where
  sound : Reentrant.Sound key db
  bounded : ∀ record, Reentrant.live instant (Reentrant.recordAt key db) = some record →
    record.owner = token → record.count ≤ others + 1

theorem HoldRecorded.earlier {others : Nat} (order : now ≤ later)
    (recorded : HoldRecorded key token others db later) : HoldRecorded key token others db now := by
  obtain ⟨record, found, own, more⟩ := recorded
  obtain ⟨stored, live⟩ := Reentrant.live_eq_some.mp found
  exact ⟨record, Reentrant.live_eq_some.mpr ⟨stored, by omega⟩, own, more⟩

theorem HoldFits.ended {others : Nat} {departure : Reentrant.Departure}
    (fits : HoldFits key token others db now) :
    ¬ HoldRecorded key token others ((departure.command.script key token).exec now db).2 now := by
  obtain ⟨status, fence, after, ran, _, applied⟩ := fits.sound.follows token now departure.command
  rw [ran]
  rintro ⟨record, found, own, more⟩
  cases departure with
  | all =>
    generalize left : Reentrant.recordAt key after = stored at applied found
    cases Reentrant.Command.outcome applied with
    | cleared => simp [Reentrant.live] at found
    | missed stranger => exact stranger record found own
  | one refresh =>
    generalize left : Reentrant.recordAt key after = stored at applied found
    cases Reentrant.Command.outcome applied with
    | emptied => simp [Reentrant.live] at found
    | reduced held =>
      have bounded := fits.bounded _ held rfl
      obtain ⟨⟨⟩, _⟩ := Reentrant.live_eq_some.mp found
      simp only at more bounded
      omega
    | missed stranger => exact stranger record found own

/-! Read-write handles. -/

/-- A reader is registered in the hash, a writer owns it. -/
def SideRecorded (h : ReadWrite.RwShared) (db : Keyspace) (instant : Nat) : Prop :=
  if h.writeMode then ∃ fields stop, ReadWrite.Writing h.key db instant fields h.token stop
  else ReadWrite.RegisteredAt h.key db instant h.token

theorem SideRecorded.earlier {h : ReadWrite.RwShared} (order : now ≤ later)
    (recorded : SideRecorded h db later) : SideRecorded h db now := by
  unfold SideRecorded at *
  split at recorded
  · obtain ⟨fields, stop, found, shape⟩ := recorded
    rw [if_pos ‹_›]
    exact ⟨fields, stop, Keyspace.lookup_earlier order found, shape⟩
  · obtain ⟨fields, stop, ⟨found, shape⟩, member⟩ := recorded
    rw [if_neg ‹_›]
    exact ⟨fields, stop, ⟨Keyspace.lookup_earlier order found, shape⟩, member⟩

theorem reader_ended (sound : ReadWrite.Sound key db) {ms : Nat} :
    ¬ ReadWrite.RegisteredAt key
      (((ReadWrite.Command.readRelease ms).script key token).exec now db).2 now token := by
  obtain ⟨status, fence, after, ran, effect, _⟩ := sound.answers now token (.readRelease ms)
  rw [ran]
  rintro ⟨fields, stop, ⟨found, shape⟩, member⟩
  have stored : after key = some ⟨.hash fields, some stop⟩ := (Keyspace.lookup_eq_some.mp found).1
  generalize left : after key = entry at effect stored
  cases effect with
  | leave _ _ _ _ registers =>
    obtain ⟨_, ⟨⟩⟩ := ReadWrite.refreshed_eq_some.mp stored
    exact ((registers token).mp member).1 rfl
  | last => contradiction
  | deny denied =>
    rw [Keyspace.lookup_congr left] at found
    have registered : ReadWrite.RegisteredAt key db now token := ⟨fields, stop, ⟨found, shape⟩, member⟩
    obtain absent | ⟨others, last, reading, stranger⟩ | ⟨others, owner, last, writing⟩ := denied
    · exact absent.registeredAt registered
    · exact stranger (reading.registeredAt.mp registered)
    · exact writing.registeredAt registered

theorem writer_ended (sound : ReadWrite.Sound key db) (fields : Hash) (stop : Nat) :
    ¬ ReadWrite.Writing key
      ((ReadWrite.Command.writeRelease.script key token).exec now db).2 now fields token stop := by
  obtain ⟨status, fence, after, ran, effect, _⟩ := sound.answers now token .writeRelease
  rw [ran]
  rintro ⟨found, shape⟩
  have stored : after key = some ⟨.hash fields, some stop⟩ := (Keyspace.lookup_eq_some.mp found).1
  generalize left : after key = entry at effect stored
  cases effect with
  | yield => contradiction
  | deny denied =>
    rw [Keyspace.lookup_congr left] at found
    have writing : ReadWrite.Writing key db now fields token stop := ⟨found, shape⟩
    obtain absent | ⟨others, last, reading⟩ | ⟨others, owner, last, held, foreign⟩ := denied
    · cases absent.symm.trans found
    · exact writing.not_reading reading
    · cases Option.some.inj (held.1.symm.trans found)
      have same := held.2.owner.symm.trans shape.owner
      simp only [Option.some.injEq, Payload.raw.injEq] at same
      exact foreign same

theorem sideRecorded_ended {h : ReadWrite.RwShared} (sound : ReadWrite.Sound h.key db) :
    ¬ SideRecorded h ((h.releaseRequest.script h.key h.token).exec now db).2 now := by
  unfold SideRecorded ReadWrite.RwShared.releaseRequest
  cases h.writeMode with
  | true =>
    rintro ⟨fields, stop, writing⟩
    exact writer_ended sound fields stop writing
  | false => exact reader_ended sound

/-! Permits: members of the set whose own lease has not ended. -/

def PermitRecorded (key token : String) (db : Keyspace) (instant : Nat) : Prop :=
  ∃ members stop score, db.lookup instant key = some ⟨.zset members, stop⟩ ∧
    members.lookup token = some score ∧ instant < score

theorem PermitRecorded.earlier (order : now ≤ later) (recorded : PermitRecorded key token db later) :
    PermitRecorded key token db now := by
  obtain ⟨members, stop, score, found, member, running⟩ := recorded
  exact ⟨members, stop, score, Keyspace.lookup_earlier order found, member, by omega⟩

theorem permitRecorded_ended {maxPermits : Nat} (sound : Semaphore.Sound key maxPermits db) :
    ¬ PermitRecorded key token
      ((Semaphore.Command.release.script key maxPermits token).exec now db).2 now := by
  obtain ⟨members, seen, _⟩ := sound.view now
  obtain ⟨status, fence, after, ran, effect, _⟩ :
      Semaphore.Answers key maxPermits db now token members .release :=
    Semaphore.answers seen sound.counter .release
  rw [ran]
  rintro ⟨others, stop, score, found, member, _⟩
  -- Either way the script leaves a set without the token.
  suffices ∃ kept : ZSet, Script.ZSetAt key now after kept ∧ kept.lookup token = none by
    obtain ⟨kept, ⟨missing, _⟩ | ⟨last, left⟩, absent⟩ := this
    · cases missing.symm.trans found
    · cases Option.some.inj (left.symm.trans found)
      cases absent.symm.trans member
  generalize same : after key = entry at effect
  cases effect with
  | release _ left =>
    refine ⟨members.erase token, ?_, AList.lookup_erase _ _⟩
    simpa only [Script.ZSetAt, Keyspace.lookup_congr same] using left.at_key
  | deny stranger =>
    refine ⟨members, ?_, stranger⟩
    simpa only [Script.ZSetAt, Keyspace.lookup_congr same] using seen

/-! The fair lock hands over to the oldest live waiter; the holder is not among them. -/

structure TurnFits (key : String) (db : Keyspace) (instant : Nat) : Prop where
  sound : Fair.Sound key db
  proper : (Fair.view key db instant).Proper

/-- The stores of every run are like that from then on. -/
theorem turnFits_of_reachable {s : Fair.Waiters} (reach : (Fair.fair key).Reachable s)
    (order : s.now ≤ later) : TurnFits key s.db later :=
  have inv := Fair.Waiters.inv_reachable reach
  ⟨inv.sound, inv.later order⟩

theorem turn_passed {line next : Fair.Line} {ttl : Nat} {status : Int}
    (effect : line.Effect now (.release token ttl) status next) (proper : line.Proper) (stop : Nat) :
    next.holder ≠ some (token, stop) := by
  cases effect with
  | freed => simp
  | handed held last =>
    intro same
    cases Option.some.inj same
    have waiting : token ∈ line.alive := List.mem_of_getLast? last
    exact proper.served _ _ held (Fair.Line.alive_sublist.mem waiting)
  | refused absent => exact absent stop

theorem turn_ended (fits : TurnFits key db now) {ttl : Nat} (positive : 0 < ttl) :
    holder key ((Fair.release key (some (Fair.queueKeyFor key)) token (.int ttl)
      (some (Fair.hbPrefixFor key))).exec now db).2 now ≠ some token := by
  obtain ⟨after, ran, sound, seen⟩ := fits.sound.exec_release positive token now
  rw [ran]
  intro held
  obtain ⟨expiry, found⟩ := holder_eq_some.mp held
  obtain ⟨owner, stop, ⟨⟩⟩ := sound.lock _ (Keyspace.lookup_eq_some.mp found).1
  have found : after.lookup now key = some ⟨.string (.raw token), some stop⟩ := found
  have holding : (Fair.view key after now).holder = some (token, stop) := by
    simp only [Fair.view, found]
  rw [seen] at holding
  exact turn_passed ((Fair.view key db now).effect now (.release token ttl)) fits.proper stop holding

end

/-- A handle of one of the eight types: what its clones share, and where the protocol
needs it how the handle sits in its store. -/
inductive Handle where
  | mutex (shared : Single.HandleShared)
  | redlock (nodes : Nat) (shared : Redlock.Handle)
  | reentrant (shared : Reentrant.ReentrantShared) (others : Nat)
  | readWrite (shared : ReadWrite.RwShared)
  | semaphore (shared : Semaphore.PermitShared) (maxPermits : Nat)
  | fair (key token : String) (fence : FencingToken)
  | etcd (shared : Etcd.HandleShared)
  | remote (shared : Client.RemoteShared) (display : Server.Status → String)

/-- `run_release` over a ring. The holder is whoever a quorum of the nodes records. -/
def ring (nodes : Nat) (shared : Redlock.Handle) : Protocol where
  Store := Nat → Keyspace
  Attempt := Redlock.Pass
  Fault := Error
  attempt now pass := shared.runRelease pass now nodes
  records := shared.Records nodes
  fits _ _ := True
  misses pass store instant :=
    Redlock.quorum nodes ≤ (List.range nodes).countP (shared.keeps pass store instant)
  reaches pass store now := ∃ i < nodes, shared.frees pass now store i = true
  lapses {pass store now later} order missed := by
    refine missed.trans (List.countP_mono_left fun i _ kept => ?_)
    simp only [Redlock.Handle.keeps, Redlock.Handle.recordedOn, Bool.and_eq_true,
      decide_eq_true_eq] at kept ⊢
    exact ⟨kept.1, holder_earlier kept.2 order⟩
  left _ later := Redlock.Handle.records_runRelease nodes later
  answered _ _ := Redlock.Handle.runRelease_ok nodes

def transacted (shared : Etcd.HandleShared) : Protocol where
  Store := Etcd.Store
  Attempt := Etcd.Attempt
  Fault := Error
  attempt now a store :=
    let (outcome, store) := shared.releaseInner now a store
    ((shared.releaseReply outcome).1, store)
  records := shared.Records
  fits _ _ := True
  misses a store instant := a.txn ≠ .executes ∧ shared.Records store instant
  reaches _ _ _ := False
  lapses order := And.imp_right (Etcd.HandleShared.Records.earlier order)
  left _ later := Etcd.HandleShared.records_releaseInner later
  answered {a store now} _ missed := by
    cases failed : a.txn with
    | executes => exact absurd failed missed.1
    | fails => simp [Etcd.HandleShared.releaseInner, Etcd.HandleShared.releaseReply, failed]

/-- Which release of a reentrant handle is called. -/
inductive Departing where
  | one
  | all
  deriving DecidableEq

def Departing.request (shared : Reentrant.ReentrantShared) : Departing → Reentrant.Departure
  | .one => shared.releaseOneRequest
  | .all => shared.releaseAllRequest

def Departing.reply (shared : Reentrant.ReentrantShared) :
    Departing → Reentrant.Reply → Except Error Unit
  | .one => shared.releaseOneReply
  | .all => shared.releaseAllReply

def Handle.protocol : Handle → Protocol
  | .mutex shared =>
    scripted (fun _ : Unit => shared.releaseScript) (fun _ => shared.releaseReply)
      (fun db instant => holder shared.key db instant = some shared.token) (fun _ _ => True)
      (fun order held => holder_earlier held order) (fun _ => holder_release (Nat.le_refl _))
  | .redlock nodes shared => ring nodes shared
  | .reentrant shared others =>
    scripted (fun call : Departing => (call.request shared).command.script shared.key shared.token)
      (fun call => call.reply shared) (HoldRecorded shared.key shared.token others)
      (HoldFits shared.key shared.token others) HoldRecorded.earlier HoldFits.ended
  | .readWrite shared =>
    scripted (fun _ : Unit => shared.releaseRequest.script shared.key shared.token)
      (fun _ => shared.releaseReply) (SideRecorded shared)
      (fun db _ => ReadWrite.Sound shared.key db) SideRecorded.earlier sideRecorded_ended
  | .semaphore shared maxPermits =>
    scripted (fun _ : Unit => Semaphore.Command.release.script shared.key maxPermits shared.token)
      (fun _ => shared.releaseReply) (PermitRecorded shared.key shared.token)
      (fun db _ => Semaphore.Sound shared.key maxPermits db) PermitRecorded.earlier permitRecorded_ended
  | .fair key token fence =>
    let shared : Fair.FairShared := ⟨key, Fair.queueKeyFor key, Fair.hbPrefixFor key, token, fence, false⟩
    scripted (fun _ : Unit => shared.releaseScript) (fun _ => shared.releaseReply)
      (fun db instant => holder key db instant = some token) (TurnFits key)
      (fun order held => holder_earlier held order) (fun fits => turn_ended fits (by decide))
  | .etcd shared => transacted shared
  | .remote shared display =>
    scripted (fun _ : Unit => Single.release shared.key shared.token)
      (fun _ answer => shared.unlockReply display (Server.unlockResponse (Single.unlockReply answer)))
      (fun db instant => holder shared.key db instant = some shared.token) (fun _ _ => True)
      (fun order held => holder_earlier held order) (fun _ => holder_release (Nat.le_refl _))

/-- For a handle of any type, any store it can be facing and any sequence of releases of
its clones: every `Ok` means that the store records the handle no more exactly when what
the first attempt misses, if anything, makes neither that call succeed nor outlasts the
time to the next call. -/
theorem ok_means_released_iff (handle : Handle) (store : handle.protocol.Store)
    (calls : List handle.protocol.Call)
    (fits : ∀ first ∈ calls.head?, handle.protocol.fits store first.instant)
    (ordered : calls.Pairwise (·.instant ≤ ·.instant)) :
    handle.protocol.OkMeansReleased store calls ↔ handle.protocol.Clears store calls :=
  Protocol.okMeansReleased_iff fits ordered

/-- A handle of token `a` whose lease ends at 1000. -/
def sample : Single.HandleShared :=
  ⟨"orders", "a", ⟨1⟩, .fromMillis 1000, .balanced, false, false, false⟩

def leased : Keyspace := fun name =>
  if name = "orders" then some ⟨.string (.raw "a"), some 1000⟩ else none

theorem ok_means_released_when_executed :
    (Handle.mutex sample).protocol.OkMeansReleased leased
      [⟨10, ((), .executes)⟩, ⟨20, ((), .fails "connection reset")⟩] := by
  refine (ok_means_released_iff (.mutex sample) leased _ ?_ ?_).mpr ⟨?_, ?_⟩
  · intro first _
    trivial
  · simp
  · rintro ⟨unreached, _⟩
    exact absurd rfl unreached
  · rintro second _ ⟨unreached, _⟩
    exact absurd rfl unreached

/-- The first call fails; the second is told `Ok` while the lock is held. -/
theorem failed_release_reports_ok :
    ¬ ∀ (handle : Handle) (store : handle.protocol.Store) (calls : List handle.protocol.Call),
      (∀ first ∈ calls.head?, handle.protocol.fits store first.instant) →
      calls.Pairwise (·.instant ≤ ·.instant) → handle.protocol.OkMeansReleased store calls := by
  intro all
  have honest : (Handle.mutex sample).protocol.OkMeansReleased leased
      [⟨10, ((), .fails "connection reset")⟩, ⟨20, ((), .executes)⟩] :=
    all (.mutex sample) leased _ (fun _ _ => trivial) (by simp)
  have held : holder sample.key leased 20 = some sample.token := by decide
  exact honest ⟨20, .ok (), leased⟩ (.tail _ (.head _)) rfl held

end Palisade.Release
