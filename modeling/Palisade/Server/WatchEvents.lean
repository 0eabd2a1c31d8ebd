import Palisade.Single.Exclusivity
import Palisade.Server.WatchHub

/-! The events that watchers of one key receive, beside the mutex operations on the key. The
two commands of a probe are steps of their own; locks and their counters expire as time
passes. -/
namespace Palisade.Server
open Redis Single Transition

def LockEvent.version : LockEvent → Nat
  | .acquired version | .freed version => version

/-- Versions in order, and at the same version freed after acquired. -/
def LockEvent.rank : LockEvent → Nat
  | .acquired version => 2 * version
  | .freed version => 2 * version + 1

/-- The rank of the event of its state. -/
def Channel.rank (channel : Channel) : Nat :=
  (channel.state.map fun state => (transitionEvent state.1 state.2).rank).getD 0

theorem Channel.rank_of_state {channel : Channel} {state : Bool × Nat} (stored : channel.state = some state) :
    channel.rank = (transitionEvent state.1 state.2).rank := by
  simp [rank, stored]

theorem Channel.send_state (channel : Channel) (state : Bool × Nat) :
    (channel.send state).state = some state := by
  unfold send
  split
  · assumption
  · rfl

theorem rank_transitionEvent (held : Bool) (version : Nat) :
    (transitionEvent held version).rank = 2 * version + if held then 0 else 1 := by
  cases held <;> rfl

/-- The decimal digits that `u64::from_str` accepts, after an optional sign. -/
def parseU64 (text : String) : Option Nat :=
  let digits := match text.toList with
    | '+' :: digits => digits
    | digits => digits
  if digits ≠ [] ∧ digits.all Char.isDigit then
    let value := digits.foldl (fun value digit => 10 * value + (digit.toNat - '0'.toNat)) 0
    if value < 2 ^ 64 then some value else none
  else none

/-- The version that `probe_state` makes of the reply of `GET`. Counters of Redis have 64
bits with a sign, so all but the negative ones parse. -/
def probedVersion : Option Payload → Nat
  | some (.int value) => value.toNat
  | some (.raw text) => (parseU64 text).getD 0
  | none => 0

structure Feed where
  now : Nat
  db : Keyspace
  hub : WatchHub

inductive FeedAction where
  | wait (delay : Nat)
  | mutex (call : Call)
  | forceUnlock
  | hub (action : HubAction)
  deriving DecidableEq

namespace Feed

/-- `EXISTS key` -/
def held (key : String) (s : Feed) : Bool := (s.db.lookup s.now key).isSome

/-- The version that `GET` of the counter yields, if it is not an error. -/
def version (key : String) (s : Feed) : Option Nat :=
  ((Script.get (fenceKeyFor key)).exec s.now s.db).1.toOption.map probedVersion

/-- The replies are those of the store, and all watchers watch the key. -/
def Replies (key : String) (s : Feed) : HubAction → Prop
  | .subscribe name => name = key
  | .existsReply _ held => held = s.held key
  | .getReply _ version => s.version key = some version
  | _ => True

instance (key : String) (s : Feed) (action : HubAction) : Decidable (s.Replies key action) :=
  match action with
  | .subscribe name => inferInstanceAs (Decidable (name = key))
  | .existsReply _ held => inferInstanceAs (Decidable (held = s.held key))
  | .getReply _ version => inferInstanceAs (Decidable (s.version key = some version))
  | .spawnPoller _ | .drop _ | .check _ | .retire _ | .send _ | .fail _ | .forward _ => isTrue trivial

def act (key : String) (s : Feed) : FeedAction → Option Feed
  | .wait delay => some { s with now := s.now + delay }
  | .mutex call => some { s with db := ((call.script key).exec s.now s.db).2 }
  | .forceUnlock => some { s with db := ((Script.del key).exec s.now s.db).2 }
  | .hub action => if s.Replies key action then (s.hub.act action).map fun hub => { s with hub } else none

/-- The fence counter is there. -/
def Counting (key : String) (s : Feed) : Prop := (s.db.lookup s.now (fenceKeyFor key)).isSome

instance (key : String) (s : Feed) : Decidable (s.Counting key) := inferInstanceAs (Decidable (_ = true))

/-- The step does not let the counter expire: it is there if it was before, or if there
is a lock. -/
def Retains (key : String) (s : Feed) (action : FeedAction) : Prop :=
  ∀ t ∈ s.act key action, s.Counting key ∨ t.held key → t.Counting key

/-- A probe that saw the key free still finds it free when it reads the version. -/
def Coherent (key : String) (s : Feed) : FeedAction → Prop
  | .hub (.getReply i _) => ∀ channel ∈ s.hub.channels[i]?, channel.poller = .existed false → s.held key = false
  | _ => True

/-- A later event has no smaller version, and a key that was freed at a version is not
acquired at it. -/
def InOrder (s : Feed) : Prop :=
  ∀ subscriber ∈ s.hub.subscribers, subscriber.events.Pairwise fun earlier later =>
    earlier.version ≤ later.version ∧
      ∀ version, earlier = .freed version → later ≠ .acquired version

end Feed

def feed (key : String) : Machine Feed FeedAction where
  initial s := s.db key = none ∧ s.db (fenceKeyFor key) = none ∧ s.hub = .empty
  step s action := s.act key action

namespace Feed
variable {key : String} {s t : Feed} {action : FeedAction}

/-- The counter as a number, 0 while there is none. -/
def fence (key : String) (s : Feed) : Nat := (nextFence (fenceKeyFor key) s.db s.now - 1).toNat

/-- What the mutex scripts leave in the store as long as the counter does not expire. -/
structure Stored (key : String) (s : Feed) : Prop where
  sound : Sound key s.db
  positive : ∀ fence stop, s.db (fenceKeyFor key) = some ⟨.string (.int fence), stop⟩ → 0 ≤ fence
  counted : s.held key = true → s.Counting key

namespace Stored

theorem counter (stored : s.Stored key) (counting : s.Counting key) : ∃ fence stop,
    s.db.lookup s.now (fenceKeyFor key) = some ⟨.string (.int fence), some stop⟩ ∧ 0 ≤ fence := by
  obtain ⟨entry, found⟩ := Option.isSome_iff_exists.mp counting
  have here := (Keyspace.lookup_eq_some.mp found).1
  obtain ⟨fence, stop, rfl⟩ := stored.sound.counter entry here
  exact ⟨fence, stop, found, stored.positive fence _ here⟩

theorem nextFence_pos (stored : s.Stored key) : 0 < nextFence (fenceKeyFor key) s.db s.now := by
  unfold nextFence
  split
  · next found =>
    have nonneg := stored.positive _ _ (Keyspace.lookup_eq_some.mp found).1
    omega
  · decide

theorem version_eq (stored : s.Stored key) : s.version key = some (s.fence key) := by
  cases found : s.db.lookup s.now (fenceKeyFor key) with
  | none =>
    simp [version, fence, nextFence, Script.exec_get_none found, found, probedVersion, Except.toOption]
  | some entry =>
    obtain ⟨value, stop, rfl⟩ := stored.sound.counter entry (Keyspace.lookup_eq_some.mp found).1
    simp [version, fence, nextFence, Script.exec_get_string found, found, probedVersion, Except.toOption]

/-- The counter was set to `value`. -/
theorem fence_of_refreshed {value : Int} {ms : Nat} (counting : t.Counting key)
    (wrote : t.db (fenceKeyFor key) = Keyspace.refreshed t.now (.string (.int value)) ms) :
    t.fence key = value.toNat := by
  obtain ⟨entry, found⟩ := Option.isSome_iff_exists.mp counting
  have here := (Keyspace.lookup_eq_some.mp found).1
  obtain ⟨_, rfl⟩ := Keyspace.refreshed_eq_some.mp (wrote.symm.trans here)
  simp [fence, nextFence, found]

theorem positive_refreshed {value : Int} {ms : Nat} (nonneg : 0 ≤ value)
    (wrote : t.db (fenceKeyFor key) = Keyspace.refreshed t.now (.string (.int value)) ms) :
    ∀ fence stop, t.db (fenceKeyFor key) = some ⟨.string (.int fence), stop⟩ → 0 ≤ fence := by
  intro fence stop here
  cases (Keyspace.refreshed_eq_some.mp (wrote.symm.trans here)).2
  exact nonneg

end Stored

/-- The key is acquired only with a new version, and versions do not fall. -/
structure Rises (key : String) (s t : Feed) : Prop where
  version : s.fence key ≤ t.fence key
  acquired : t.held key = true → s.held key = true ∨ s.fence key < t.fence key

namespace Stored

theorem wait (stored : s.Stored key) {delay : Nat} (retains : s.Retains key (.wait delay)) :
    Stored key { s with now := s.now + delay } ∧ Rises key s { s with now := s.now + delay } := by
  have later := Nat.le_add_right s.now delay
  have kept := retains _ rfl
  have before (live : held key { s with now := s.now + delay } = true) : s.held key = true := by
    obtain ⟨entry, found⟩ := Option.isSome_iff_exists.mp live
    exact Option.isSome_iff_exists.mpr ⟨entry, Keyspace.lookup_earlier later found⟩
  refine ⟨⟨stored.sound, stored.positive, fun live => kept (.inr live)⟩, ?_, fun live => .inl (before live)⟩
  cases found : s.db.lookup s.now (fenceKeyFor key) with
  | none => simp [fence, nextFence, found]
  | some entry =>
    have counting : s.Counting key := Option.isSome_iff_exists.mpr ⟨entry, found⟩
    obtain ⟨after, still⟩ := Option.isSome_iff_exists.mp (kept (.inl counting))
    have same := Keyspace.lookup_earlier later still
    simp only [fence, nextFence, still, same]
    exact Nat.le_refl _

/-- The lock goes, or nothing happens. -/
theorem release (stored : s.Stored key) {db : Keyspace} (unlocked : db = s.db ∨ db = s.db.erase key) :
    Stored key { s with db } ∧ Rises key s { s with db } := by
  obtain rfl | rfl := unlocked
  · exact ⟨stored, Nat.le_refl _, .inl⟩
  · have counter : (s.db.erase key) (fenceKeyFor key) = s.db (fenceKeyFor key) :=
      Keyspace.erase_of_ne (fenceKeyFor_ne key)
    have free : held key { s with db := s.db.erase key } = false := by simp [held]
    refine ⟨⟨stored.sound.erase_lock, ?_, by simp [free]⟩, ?_, by simp [free]⟩
    · simpa only [counter] using stored.positive
    · simp only [fence, nextFence, Keyspace.lookup_congr counter]
      exact Nat.le_refl _

theorem acquire (stored : s.Stored key) {token : String} {ttl : Nat}
    (retains : s.Retains key (.mutex (.acquire token ttl))) :
    Stored key { s with db := (((Call.acquire token ttl).script key).exec s.now s.db).2 } ∧
      Rises key s { s with db := (((Call.acquire token ttl).script key).exec s.now s.db).2 } := by
  have kept := retains _ rfl
  have sound := stored.sound.exec_call (.acquire token ttl) s.now
  by_cases zero : ttl = 0
  · exact stored.release (.inl (by simp [Call.script, exec_acquire, zero]))
  · have ran : (Single.acquire key (fenceKeyFor key) token ttl (fenceTtlMs ttl)).exec s.now s.db = _ :=
      stored.sound.shaped.exec_acquire zero
    by_cases granted : holder key s.db s.now = none ∨ holder key s.db s.now = some token
    · rw [if_pos granted] at ran
      simp only [Call.script, ran] at kept sound ⊢
      have fresh := stored.nextFence_pos
      have lock : (((s.db.refresh s.now key (.string (.raw token)) ttl).refresh s.now (fenceKeyFor key)
          (.string (.int (nextFence (fenceKeyFor key) s.db s.now))) (fenceTtlMs ttl)).lookup s.now key).isSome := by
        rw [Keyspace.lookup_congr (Keyspace.refresh_of_ne (fenceKeyFor_ne key).symm),
          Keyspace.lookup_refresh (Nat.le_refl _), if_pos (by omega)]
        rfl
      have counting := kept (.inr lock)
      have counted := fence_of_refreshed counting Keyspace.refresh_self
      refine ⟨⟨sound, positive_refreshed fresh.le Keyspace.refresh_self, fun _ => counting⟩, ?_, fun _ => .inr ?_⟩
      · rw [counted, fence]
        omega
      · rw [counted, fence]
        omega
    · exact stored.release (.inl (by rw [Call.script, ran, if_neg granted]))

theorem extend (stored : s.Stored key) {token : String} {ttl : Nat}
    (retains : s.Retains key (.mutex (.extend token ttl))) :
    Stored key { s with db := (((Call.extend token ttl).script key).exec s.now s.db).2 } ∧
      Rises key s { s with db := (((Call.extend token ttl).script key).exec s.now s.db).2 } := by
  have kept := retains _ rfl
  have sound := stored.sound.exec_call (.extend token ttl) s.now
  have ran := stored.sound.shaped.exec_extend token ttl (fenceTtlMs ttl) s.now
  by_cases owner : holder key s.db s.now = some token
  · obtain ⟨stop, found⟩ := holder_eq_some.mp owner
    have live : s.held key = true := Option.isSome_iff_exists.mpr ⟨_, found⟩
    have before := stored.counted live
    obtain ⟨value, expiry, here, nonneg⟩ := stored.counter before
    have untouched : (s.db.refresh s.now key (.string (.raw token)) ttl) (fenceKeyFor key) =
        s.db (fenceKeyFor key) := Keyspace.refresh_of_ne (fenceKeyFor_ne key)
    rw [if_pos owner] at ran
    simp only [Call.script, Script.state_bind_pure, ran, Script.exec_pexpire,
      Keyspace.lookup_congr untouched, here] at kept sound ⊢
    have counting := kept (.inl before)
    have counted := fence_of_refreshed counting Keyspace.refresh_self
    refine ⟨⟨sound, positive_refreshed nonneg Keyspace.refresh_self, fun _ => counting⟩, ?_, fun _ => .inl live⟩
    rw [counted]
    simp [fence, nextFence, here]
  · refine stored.release (.inl ?_)
    rw [Call.script, Script.state_bind_pure, ran, if_neg owner]

/-- Every step other than one of the hub. -/
theorem store (stored : s.Stored key) (stepped : s.act key action = some t) (retains : s.Retains key action)
    (outside : ∀ step, action ≠ .hub step) : t.Stored key ∧ Rises key s t ∧ t.hub = s.hub := by
  cases action with
  | wait delay =>
    cases stepped
    obtain ⟨after, rises⟩ := stored.wait retains
    exact ⟨after, rises, rfl⟩
  | mutex call =>
    cases stepped
    cases call with
    | acquire token ttl =>
      obtain ⟨after, rises⟩ := stored.acquire retains
      exact ⟨after, rises, rfl⟩
    | extend token ttl =>
      obtain ⟨after, rises⟩ := stored.extend retains
      exact ⟨after, rises, rfl⟩
    | release token =>
      have gone : (((Call.release token).script key).exec s.now s.db).2 = s.db ∨
          (((Call.release token).script key).exec s.now s.db).2 = s.db.erase key := by
        rw [Call.script, Script.state_bind_pure, stored.sound.shaped.exec_release]
        split_ifs <;> simp
      obtain ⟨after, rises⟩ := stored.release gone
      exact ⟨after, rises, rfl⟩
  | forceUnlock =>
    cases stepped
    have gone : ((Script.del key).exec s.now s.db).2 = s.db ∨
        ((Script.del key).exec s.now s.db).2 = s.db.erase key := by
      rw [Script.exec_del]
      split <;> simp
    obtain ⟨after, rises⟩ := stored.release gone
    exact ⟨after, rises, rfl⟩
  | hub step => exact absurd rfl (outside step)

end Stored

/-- The rank of the event that an exact probe would give now. -/
def level (key : String) (s : Feed) : Nat := (transitionEvent (s.held key) (s.fence key)).rank

theorem Rises.level (rises : Rises key s t) : s.level key ≤ t.level key := by
  have version := rises.version
  have acquired := rises.acquired
  simp only [Feed.level, rank_transitionEvent]
  cases now : t.held key with
  | false =>
    split <;> simp only [Bool.false_eq_true, if_false] <;> omega
  | true =>
    cases before : s.held key with
    | true =>
      simp only [if_true]
      omega
    | false =>
      have newer := (acquired now).resolve_left (by simp [before])
      simp only [if_true, Bool.false_eq_true, if_false]
      omega

/-- What the poller will send is no older than the state of the channel. -/
def Ahead (key : String) (s : Feed) (last : Nat) : Poller → Prop
  | .existed held => last ≤ (transitionEvent held (s.fence key)).rank
  | .probed held version =>
      last ≤ (transitionEvent held version).rank ∧ (transitionEvent held version).rank ≤ s.level key
  | _ => True

/-- The state of the channel is not above the store, nor above what the poller will send. -/
def Covers (key : String) (s : Feed) (channel : Channel) : Prop :=
  channel.rank ≤ s.level key ∧ s.Ahead key channel.rank channel.poller

/-- Events have come in the order of their ranks, none above the state of its channel,
and no channel is above the store. -/
structure Sorted (key : String) (s : Feed) : Prop where
  covered : ∀ channel ∈ s.hub.channels, s.Covers key channel
  reported : ∀ subscriber ∈ s.hub.subscribers, ∀ event ∈ subscriber.events,
    ∃ channel, s.hub.channels[subscriber.channel]? = some channel ∧ event.rank ≤ channel.rank
  ordered : ∀ subscriber ∈ s.hub.subscribers,
    subscriber.events.Pairwise fun earlier later => earlier.rank ≤ later.rank

namespace Sorted

theorem rise (sorted : s.Sorted key) (rises : Rises key s t) (same : t.hub = s.hub) : t.Sorted key where
  covered channel member := by
    obtain ⟨below, ahead⟩ := sorted.covered channel (same ▸ member)
    refine ⟨below.trans rises.level, ?_⟩
    revert ahead
    cases channel.poller with
    | existed held =>
      intro ahead
      have version := rises.version
      simp only [Ahead, rank_transitionEvent] at ahead ⊢
      omega
    | probed held version => exact fun ahead => ⟨ahead.1, ahead.2.trans rises.level⟩
    | unspawned | checking | leaving | probing | retired => exact id
  reported := by
    rw [same]
    exact sorted.reported
  ordered := by
    rw [same]
    exact sorted.ordered

/-- A channel is replaced by one whose state is no older. -/
theorem replace (sorted : s.Sorted key) {i : Nat} {channel next : Channel} {keys : String → Option Nat}
    (here : s.hub.channels[i]? = some channel) (covers : s.Covers key next)
    (newer : channel.rank ≤ next.rank) :
    Sorted key { s with hub := ⟨keys, s.hub.channels.set i next, s.hub.subscribers⟩ } where
  covered other member := by
    obtain before | rfl := List.mem_or_eq_of_mem_set member
    · exact sorted.covered other before
    · exact covers
  reported subscriber member event told := by
    obtain ⟨other, there, above⟩ := sorted.reported subscriber member event told
    by_cases at_i : i = subscriber.channel
    · subst at_i
      obtain rfl := Option.some.inj (here.symm.trans there)
      have inside := (List.getElem?_eq_some_iff.mp here).1
      exact ⟨next, List.getElem?_set_self inside, above.trans newer⟩
    · exact ⟨other, (List.getElem?_set_ne at_i).trans there, above⟩
  ordered := sorted.ordered

/-- The poller moves on to a stage that fits the state. -/
theorem setPoller (sorted : s.Sorted key) {i : Nat} {channel : Channel} {poller : Poller}
    {keys : String → Option Nat} (here : s.hub.channels[i]? = some channel)
    (ahead : s.Ahead key channel.rank poller) :
    Sorted key { s with hub := ⟨keys, s.hub.channels.set i { channel with poller }, s.hub.subscribers⟩ } :=
  sorted.replace here ⟨(sorted.covered channel (List.mem_of_getElem? here)).1, ahead⟩ (Nat.le_refl _)

theorem newcomer (sorted : s.Sorted key) (channels : List Channel) {keys : String → Option Nat} {name : String}
    {i : Nat} (fresh : ∀ channel ∈ channels, channel.state = none ∧ channel.poller = .unspawned) :
    Sorted key { s with hub := ⟨keys, s.hub.channels ++ channels,
      s.hub.subscribers ++ [⟨name, i, true, none, []⟩]⟩ } where
  covered channel member := by
    obtain before | new := List.mem_append.mp member
    · exact sorted.covered channel before
    · obtain ⟨blank, idle⟩ := fresh channel new
      simp [Covers, Channel.rank, Ahead, blank, idle]
  reported subscriber member event told := by
    obtain before | new := List.mem_append.mp member
    · obtain ⟨channel, there, above⟩ := sorted.reported subscriber before event told
      have inside := (List.getElem?_eq_some_iff.mp there).1
      exact ⟨channel, (List.getElem?_append_left inside).trans there, above⟩
    · obtain rfl := List.mem_singleton.mp new
      contradiction
  ordered subscriber member := by
    obtain before | new := List.mem_append.mp member
    · exact sorted.ordered subscriber before
    · obtain rfl := List.mem_singleton.mp new
      exact .nil

theorem setSubscriber (sorted : s.Sorted key) {j : Nat} {next : Subscriber}
    (reported : ∀ event ∈ next.events, ∃ channel, s.hub.channels[next.channel]? = some channel ∧
      event.rank ≤ channel.rank)
    (ordered : next.events.Pairwise fun earlier later => earlier.rank ≤ later.rank) :
    Sorted key { s with hub := { s.hub with subscribers := s.hub.subscribers.set j next } } where
  covered := sorted.covered
  reported subscriber member := by
    obtain before | rfl := List.mem_or_eq_of_mem_set member
    · exact sorted.reported subscriber before
    · exact reported
  ordered subscriber member := by
    obtain before | rfl := List.mem_or_eq_of_mem_set member
    · exact sorted.ordered subscriber before
    · exact ordered

/-- What the poller read is sent. -/
theorem send (sorted : s.Sorted key) {i version : Nat} {held : Bool} {channel : Channel}
    (here : s.hub.channels[i]? = some channel) (answered : channel.poller = .probed held version) :
    Sorted key { s with hub := s.hub.setPoller i (channel.send (held, version)) .checking } := by
  obtain ⟨_, ahead⟩ := sorted.covered channel (List.mem_of_getElem? here)
  rw [answered] at ahead
  have rank : { channel.send (held, version) with poller := Poller.checking }.rank =
      (transitionEvent held version).rank :=
    Channel.rank_of_state (channel.send_state (held, version))
  refine sorted.replace here ⟨?_, trivial⟩ ?_
  · exact rank ▸ ahead.2
  · exact rank ▸ ahead.1

theorem forward (sorted : s.Sorted key) {j : Nat} {subscriber : Subscriber} {channel : Channel}
    (there : s.hub.subscribers[j]? = some subscriber)
    (here : s.hub.channels[subscriber.channel]? = some channel) :
    Sorted key { s with hub :=
      { s.hub with subscribers := s.hub.subscribers.set j (subscriber.forward channel) } } := by
  have member := List.mem_of_getElem? there
  have before (event : LockEvent) (told : event ∈ subscriber.events) : event.rank ≤ channel.rank := by
    obtain ⟨other, found, above⟩ := sorted.reported subscriber member event told
    obtain rfl := Option.some.inj (here.symm.trans found)
    exact above
  have read (event : LockEvent)
      (told : event ∈ (channel.state.map fun state => transitionEvent state.1 state.2).toList) :
      event.rank = channel.rank := by
    obtain ⟨state, stored, rfl⟩ := Option.map_eq_some_iff.mp (Option.mem_toList.mp told)
    exact (Channel.rank_of_state stored).symm
  refine sorted.setSubscriber ?_ ?_
  · intro event told
    refine ⟨channel, here, ?_⟩
    obtain old | new := List.mem_append.mp told
    · exact before event old
    · exact (read event new).le
  · refine List.pairwise_append.mpr ⟨sorted.ordered subscriber member, ?_, ?_⟩
    · cases channel.state with
      | none => exact .nil
      | some state => exact List.pairwise_singleton _ _
    · intro earlier old later new
      exact read later new ▸ before earlier old

theorem hub (sorted : s.Sorted key) (stored : s.Stored key) {step : HubAction} {hub : WatchHub}
    (replies : s.Replies key step) (coherent : s.Coherent key (.hub step))
    (stepped : s.hub.act step = some hub) : Sorted key { s with hub } := by
  cases WatchHub.act_moves stepped with
  | join => simpa using sorted.newcomer [] (by simp)
  | create => exact sorted.newcomer [_] (by simp)
  | turn here running next =>
    refine sorted.setPoller here ?_
    obtain rfl | rfl | rfl := next <;> trivial
  | retire here => exact sorted.setPoller here trivial
  | existsReply here probing =>
    obtain rfl : _ = s.held key := replies
    exact sorted.setPoller here (sorted.covered _ (List.mem_of_getElem? here)).1
  | @getReply i version held channel here asked =>
    obtain rfl : s.fence key = version := Option.some.inj (stored.version_eq.symm.trans replies)
    have ahead := (sorted.covered channel (List.mem_of_getElem? here)).2
    rw [asked] at ahead
    refine sorted.setPoller here ⟨ahead, ?_⟩
    simp only [level, rank_transitionEvent]
    cases held with
    | true => simp
    | false =>
      have free : s.held key = false := coherent channel here asked
      simp [free]
  | send here answered => exact sorted.send here answered
  | @drop j subscriber there =>
    have member := List.mem_of_getElem? there
    exact sorted.setSubscriber (sorted.reported subscriber member) (sorted.ordered subscriber member)
  | forward there live here => exact sorted.forward there here

theorem inOrder (sorted : s.Sorted key) : s.InOrder := by
  intro subscriber member
  refine (sorted.ordered subscriber member).imp ?_
  intro earlier later below
  cases earlier with
  | acquired version =>
    refine ⟨?_, nofun⟩
    cases later <;> simp only [LockEvent.rank, LockEvent.version] at below ⊢ <;> omega
  | freed version =>
    cases later with
    | freed other =>
      simp only [LockEvent.rank, LockEvent.version] at below ⊢
      exact ⟨by omega, nofun⟩
    | acquired other =>
      simp only [LockEvent.rank, LockEvent.version] at below ⊢
      refine ⟨by omega, ?_⟩
      rintro _ ⟨⟩ ⟨⟩
      omega

end Sorted

theorem step_sorted (sorted : s.Sorted key) (stored : s.Stored key) (retains : s.Retains key action)
    (coherent : s.Coherent key action) (stepped : s.act key action = some t) :
    t.Stored key ∧ t.Sorted key := by
  by_cases inside : ∃ step, action = .hub step
  · obtain ⟨step, rfl⟩ := inside
    obtain ⟨replies, stepped⟩ := Option.ite_none_right_eq_some.mp stepped
    obtain ⟨hub, acted, rfl⟩ := Option.map_eq_some_iff.mp stepped
    exact ⟨⟨stored.sound, stored.positive, stored.counted⟩, sorted.hub stored replies coherent acted⟩
  · obtain ⟨after, rises, same⟩ := stored.store stepped retains (not_exists.mp inside)
    exact ⟨after, sorted.rise rises same⟩

end Feed

/-- The counter does not expire, and no probe reads the version of a lock that it did not
see. -/
def Feed.Consistent (key : String) (s : Feed) (action : FeedAction) : Prop :=
  s.Retains key action ∧ s.Coherent key action

/-- In every run in which the counter does not expire and every probe that saw the key free
reads the version while it is free, all events come in the order of their versions. -/
theorem watch_versions_ordered {key : String} {s : Feed} (reach : (feed key).ReachableWhen (Feed.Consistent key) s) :
    s.InOrder := by
  let Holds (s : Feed) : Prop := s.Stored key ∧ s.Sorted key
  have holds : Holds s := by
    refine reach.invariant ?_ fun s action t kept consistent stepped =>
      Feed.step_sorted kept.2 kept.1 consistent.1 consistent.2 stepped
    rintro s ⟨lock, counter, empty⟩
    refine ⟨⟨⟨by simp [lock], by simp [counter]⟩, by simp [counter], ?_⟩, ?_⟩
    · simp [Feed.held, Keyspace.lookup, lock]
    · exact ⟨by simp [empty, WatchHub.empty], by simp [empty, WatchHub.empty], by simp [empty, WatchHub.empty]⟩
  exact holds.2.inOrder

instance (key : String) (s : Feed) (action : FeedAction) : Decidable (s.Retains key action) :=
  inferInstanceAs (Decidable (∀ t ∈ s.act key action, _))

instance (key : String) (s : Feed) (action : FeedAction) : Decidable (s.Coherent key action) :=
  match action with
  | .hub (.getReply i _) => inferInstanceAs (Decidable (∀ channel ∈ s.hub.channels[i]?, _))
  | .wait _ | .mutex _ | .forceUnlock | .hub (.subscribe _) | .hub (.spawnPoller _) | .hub (.drop _)
  | .hub (.check _) | .hub (.retire _) | .hub (.existsReply _ _) | .hub (.send _) | .hub (.fail _)
  | .hub (.forward _) => isTrue trivial

instance (key : String) (s : Feed) (action : FeedAction) : Decidable (s.Consistent key action) :=
  inferInstanceAs (Decidable (_ ∧ _))

def Feed.fresh : Feed := ⟨0, fun _ => none, .empty⟩

theorem Feed.fresh_initial (key : String) : (feed key).initial .fresh := ⟨rfl, rfl, rfl⟩

/-- Two grants and a release, seen by one watcher. -/
theorem watch_versions_ordered_seen : ∃ s : Feed, s.InOrder ∧
    s.hub.subscribers.map Subscriber.events = [[.freed 0, .acquired 1, .freed 1, .acquired 2]] := by
  let probe (held : Bool) (version : Nat) : List FeedAction :=
    [.hub (.check 0), .hub (.existsReply 0 held), .hub (.getReply 0 version), .hub (.send 0), .hub (.forward 0)]
  obtain ⟨s, reach, seen⟩ := (feed "k").exists_reachableWhen (Feed.Consistent "k")
    (fun s : Feed => s.hub.subscribers.map Subscriber.events = [[.freed 0, .acquired 1, .freed 1, .acquired 2]])
    (Feed.fresh_initial "k")
    ([.hub (.subscribe "k"), .hub (.spawnPoller 0)] ++ probe false 0 ++ [.mutex (.acquire "a" 1000)] ++
      probe true 1 ++ [.mutex (.release "a")] ++ probe false 1 ++ [.mutex (.acquire "b" 1000)] ++ probe true 2)
    (by decide)
  exact ⟨s, watch_versions_ordered reach, seen⟩

/-- A grant between the two commands of a probe: freed at version 1, then acquired at it. -/
theorem watch_versions_crossed : ¬ ∀ (key : String) (s : Feed), (feed key).ReachableWhen (Feed.Retains key) s →
    s.InOrder := by
  intro ordered
  obtain ⟨s, reach, seen⟩ := (feed "k").exists_reachableWhen (Feed.Retains "k")
    (fun s : Feed => ∃ subscriber ∈ s.hub.subscribers, subscriber.events = [.freed 1, .acquired 1])
    (Feed.fresh_initial "k")
    [.hub (.subscribe "k"), .hub (.spawnPoller 0), .hub (.check 0), .hub (.existsReply 0 false),
      .mutex (.acquire "a" 1000), .hub (.getReply 0 1), .hub (.send 0), .hub (.forward 0), .hub (.check 0),
      .hub (.existsReply 0 true), .hub (.getReply 0 1), .hub (.send 0), .hub (.forward 0)]
    (by decide)
  obtain ⟨subscriber, member, events⟩ := seen
  have pairwise := ordered "k" s reach subscriber member
  rw [events] at pairwise
  obtain ⟨_, never⟩ := List.rel_of_pairwise_cons pairwise List.mem_cons_self
  exact never 1 rfl rfl

end Palisade.Server
