import Palisade.Transition

/-! The watch fan-out hub. Subscribers of one key share a channel, and the channel has
one poller. The map from keys to channels is behind a mutex: `subscribe` has one locked
section and the poller, on its way out, another. Everything else runs unlocked, and the
replies that a poller has from the store are any. -/
namespace Palisade.Server
open Transition

inductive LockEvent where
  | acquired (version : Nat)
  | freed (version : Nat)
  deriving DecidableEq

def transitionEvent (held : Bool) (version : Nat) : LockEvent :=
  if held then .acquired version else .freed version

/-- Where the poller of a channel stands in its loop. -/
inductive Poller where
  /-- Its channel is in the map; `spawn_poller` has not run. -/
  | unspawned
  | checking
  /-- It saw no receiver, and has not locked the map. -/
  | leaving
  | probing
  /-- `EXISTS` was answered. -/
  | existed (held : Bool)
  /-- The probe was answered; the state has not been sent. -/
  | probed (held : Bool) (version : Nat)
  | retired
  deriving DecidableEq

/-- A channel with the poller that `subscribe` spawns for it. The store state is `none`
until the first probe; `version` counts the times it was modified. -/
structure Channel where
  key : String
  state : Option (Bool × Nat)
  version : Nat
  poller : Poller
  deriving DecidableEq

/-- A receiver of a channel with its forwarder. `seen` is the version it read last. -/
structure Subscriber where
  key : String
  channel : Nat
  live : Bool
  seen : Option Nat
  events : List LockEvent
  deriving DecidableEq

structure WatchHub where
  keys : String → Option Nat
  channels : List Channel
  subscribers : List Subscriber

inductive HubAction where
  /-- The locked section of `subscribe`. -/
  | subscribe (key : String)
  | spawnPoller (i : Nat)
  /-- A receiver is dropped. -/
  | drop (j : Nat)
  /-- The poller reads `receiver_count`, without the lock. -/
  | check (i : Nat)
  /-- The locked re-check. -/
  | retire (i : Nat)
  | existsReply (i : Nat) (held : Bool)
  | getReply (i : Nat) (version : Nat)
  | send (i : Nat)
  /-- The probe fails. -/
  | fail (i : Nat)
  /-- A forwarder reads its channel, at first or after a change, and sends the event. -/
  | forward (j : Nat)
  deriving DecidableEq

namespace WatchHub

def empty : WatchHub := ⟨fun _ => none, [], []⟩

def receiverCount (hub : WatchHub) (channel : Nat) : Nat :=
  hub.subscribers.countP fun subscriber => subscriber.live && subscriber.channel == channel

def setPoller (hub : WatchHub) (i : Nat) (channel : Channel) (poller : Poller) : WatchHub :=
  { hub with channels := hub.channels.set i { channel with poller } }

def subscribe (hub : WatchHub) (key : String) : WatchHub :=
  match hub.keys key with
  | some channel =>
    { hub with subscribers := hub.subscribers ++ [⟨key, channel, true, none, []⟩] }
  | none =>
    let channel := hub.channels.length
    { keys := Function.update hub.keys key (some channel)
      channels := hub.channels ++ [⟨key, none, 0, .unspawned⟩]
      subscribers := hub.subscribers ++ [⟨key, channel, true, none, []⟩] }

/-- The poller leaves if the channel in the map has no receivers. -/
def retire (hub : WatchHub) (i : Nat) (channel : Channel) : WatchHub :=
  match hub.keys channel.key with
  | some entry =>
    if hub.receiverCount entry = 0 then
      { hub.setPoller i channel .retired with keys := Function.update hub.keys channel.key none }
    else hub.setPoller i channel .probing
  | none => hub.setPoller i channel .probing

end WatchHub

/-- `send_if_modified` -/
def Channel.send (channel : Channel) (state : Bool × Nat) : Channel :=
  if channel.state = some state then channel
  else { channel with state := some state, version := channel.version + 1 }

@[simp] theorem Channel.send_key (channel : Channel) (state : Bool × Nat) :
    (channel.send state).key = channel.key := by
  unfold send
  split <;> rfl

/-- `borrow_and_update`, and the event of what was read. -/
def Subscriber.forward (subscriber : Subscriber) (channel : Channel) : Subscriber :=
  { subscriber with
    seen := some channel.version
    events := subscriber.events ++
      (channel.state.map fun state => transitionEvent state.1 state.2).toList }

def WatchHub.act (hub : WatchHub) : HubAction → Option WatchHub
  | .subscribe key => some (hub.subscribe key)
  | .spawnPoller i => do
    let channel ← hub.channels[i]?
    if channel.poller = .unspawned then hub.setPoller i channel .checking else none
  | .drop j => do
    let subscriber ← hub.subscribers[j]?
    some { hub with subscribers := hub.subscribers.set j { subscriber with live := false } }
  | .check i => do
    let channel ← hub.channels[i]?
    if channel.poller = .checking then
      hub.setPoller i channel (if hub.receiverCount i = 0 then .leaving else .probing)
    else none
  | .retire i => do
    let channel ← hub.channels[i]?
    if channel.poller = .leaving then hub.retire i channel else none
  | .existsReply i held => do
    let channel ← hub.channels[i]?
    if channel.poller = .probing then hub.setPoller i channel (.existed held) else none
  | .getReply i version => do
    let channel ← hub.channels[i]?
    match channel.poller with
    | .existed held => hub.setPoller i channel (.probed held version)
    | _ => none
  | .send i => do
    let channel ← hub.channels[i]?
    match channel.poller with
    | .probed held version => hub.setPoller i (channel.send (held, version)) .checking
    | _ => none
  | .fail i => do
    let channel ← hub.channels[i]?
    match channel.poller with
    | .probing | .existed _ => hub.setPoller i channel .checking
    | _ => none
  | .forward j => do
    let subscriber ← hub.subscribers[j]?
    let channel ← hub.channels[subscriber.channel]?
    if subscriber.live ∧ subscriber.seen ≠ some channel.version then
      some { hub with subscribers := hub.subscribers.set j (subscriber.forward channel) }
    else none

def watchHub : Machine WatchHub HubAction where
  initial hub := hub = .empty
  step := WatchHub.act

namespace WatchHub
variable {hub after : WatchHub} {action : HubAction}

/-- Everything an action can do. -/
inductive Moves (hub : WatchHub) : HubAction → WatchHub → Prop where
  | join {key : String} {i : Nat} (stored : hub.keys key = some i) : Moves hub (.subscribe key)
      { hub with subscribers := hub.subscribers ++ [⟨key, i, true, none, []⟩] }
  | create {key : String} (absent : hub.keys key = none) : Moves hub (.subscribe key)
      { keys := Function.update hub.keys key (some hub.channels.length)
        channels := hub.channels ++ [⟨key, none, 0, .unspawned⟩]
        subscribers := hub.subscribers ++ [⟨key, hub.channels.length, true, none, []⟩] }
  | turn {action : HubAction} {i : Nat} {channel : Channel} {poller : Poller}
      (here : hub.channels[i]? = some channel) (running : channel.poller ≠ .retired)
      (next : poller = .checking ∨ poller = .leaving ∨ poller = .probing) :
      Moves hub action (hub.setPoller i channel poller)
  | retire {i entry : Nat} {channel : Channel} (here : hub.channels[i]? = some channel)
      (leaving : channel.poller = .leaving) (stored : hub.keys channel.key = some entry)
      (deserted : hub.receiverCount entry = 0) : Moves hub (.retire i)
      { hub.setPoller i channel .retired with keys := Function.update hub.keys channel.key none }
  | existsReply {i : Nat} {held : Bool} {channel : Channel} (here : hub.channels[i]? = some channel)
      (probing : channel.poller = .probing) :
      Moves hub (.existsReply i held) (hub.setPoller i channel (.existed held))
  | getReply {i version : Nat} {held : Bool} {channel : Channel} (here : hub.channels[i]? = some channel)
      (asked : channel.poller = .existed held) :
      Moves hub (.getReply i version) (hub.setPoller i channel (.probed held version))
  | send {i version : Nat} {held : Bool} {channel : Channel} (here : hub.channels[i]? = some channel)
      (answered : channel.poller = .probed held version) :
      Moves hub (.send i) (hub.setPoller i (channel.send (held, version)) .checking)
  | drop {j : Nat} {subscriber : Subscriber} (there : hub.subscribers[j]? = some subscriber) :
      Moves hub (.drop j)
        { hub with subscribers := hub.subscribers.set j { subscriber with live := false } }
  | forward {j : Nat} {subscriber : Subscriber} {channel : Channel}
      (there : hub.subscribers[j]? = some subscriber) (live : subscriber.live = true)
      (here : hub.channels[subscriber.channel]? = some channel) : Moves hub (.forward j)
        { hub with subscribers := hub.subscribers.set j (subscriber.forward channel) }

theorem act_moves (stepped : hub.act action = some after) : hub.Moves action after := by
  cases action with
  | subscribe key =>
    cases stepped
    unfold subscribe
    split
    · exact .join ‹_›
    · exact .create ‹_›
  | spawnPoller i =>
    obtain ⟨channel, here, stepped⟩ := Option.bind_eq_some_iff.mp stepped
    obtain ⟨pending, ⟨⟩⟩ := Option.ite_none_right_eq_some.mp stepped
    exact .turn here (by simp [pending]) (.inl rfl)
  | drop j =>
    obtain ⟨subscriber, there, ⟨⟩⟩ := Option.bind_eq_some_iff.mp stepped
    exact .drop there
  | check i =>
    obtain ⟨channel, here, stepped⟩ := Option.bind_eq_some_iff.mp stepped
    obtain ⟨checking, ⟨⟩⟩ := Option.ite_none_right_eq_some.mp stepped
    refine .turn here (by simp [checking]) ?_
    split <;> simp
  | retire i =>
    obtain ⟨channel, here, stepped⟩ := Option.bind_eq_some_iff.mp stepped
    obtain ⟨leaving, ⟨⟩⟩ := Option.ite_none_right_eq_some.mp stepped
    have stays : hub.Moves (.retire i) (hub.setPoller i channel .probing) :=
      .turn here (by simp [leaving]) (by simp)
    unfold retire
    split
    · split
      · exact .retire here leaving ‹_› ‹_›
      · exact stays
    · exact stays
  | existsReply i held =>
    obtain ⟨channel, here, stepped⟩ := Option.bind_eq_some_iff.mp stepped
    obtain ⟨probing, ⟨⟩⟩ := Option.ite_none_right_eq_some.mp stepped
    exact .existsReply here probing
  | getReply i version =>
    obtain ⟨channel, here, stepped⟩ := Option.bind_eq_some_iff.mp stepped
    split at stepped
    · cases stepped
      exact .getReply here ‹_›
    · contradiction
  | send i =>
    obtain ⟨channel, here, stepped⟩ := Option.bind_eq_some_iff.mp stepped
    split at stepped
    · cases stepped
      exact .send here ‹_›
    · contradiction
  | fail i =>
    obtain ⟨channel, here, stepped⟩ := Option.bind_eq_some_iff.mp stepped
    split at stepped
    · next probing =>
      cases stepped
      exact .turn here (by simp [probing]) (.inl rfl)
    · next asked =>
      cases stepped
      exact .turn here (by simp [asked]) (.inl rfl)
    · contradiction
  | forward j =>
    obtain ⟨subscriber, there, stepped⟩ := Option.bind_eq_some_iff.mp stepped
    obtain ⟨channel, here, stepped⟩ := Option.bind_eq_some_iff.mp stepped
    obtain ⟨⟨live, _⟩, ⟨⟩⟩ := Option.ite_none_right_eq_some.mp stepped
    exact .forward there live here

theorem keys_update {key name : String} {i : Nat} {entry : Option Nat} (absent : hub.keys key = none)
    (found : hub.keys name = some i) : Function.update hub.keys key entry name = some i := by
  rw [Function.update_of_ne, found]
  rintro rfl
  cases absent.symm.trans found

/-- Map and running pollers name each other, and every live receiver is on the channel
that the map has for its key. -/
structure Inv (hub : WatchHub) : Prop where
  stored : ∀ key i, hub.keys key = some i →
    ∃ channel, hub.channels[i]? = some channel ∧ channel.key = key ∧ channel.poller ≠ .retired
  polled : ∀ i channel, hub.channels[i]? = some channel → channel.poller ≠ .retired →
    hub.keys channel.key = some i
  listening : ∀ subscriber ∈ hub.subscribers, subscriber.live = true →
    hub.keys subscriber.key = some subscriber.channel

namespace Inv

theorem empty : Inv .empty := ⟨nofun, nofun, nofun⟩

/-- A poller that goes on, and what it sends, leave the map alone. -/
theorem replace (inv : hub.Inv) {i : Nat} {channel next : Channel} (here : hub.channels[i]? = some channel)
    (running : channel.poller ≠ .retired) (same : next.key = channel.key)
    (still : next.poller ≠ .retired) : Inv { hub with channels := hub.channels.set i next } where
  stored key j found := by
    obtain ⟨old, there, named, runs⟩ := inv.stored key j found
    by_cases at_i : i = j
    · subst at_i
      obtain rfl := Option.some.inj (here.symm.trans there)
      have inside := (List.getElem?_eq_some_iff.mp here).1
      exact ⟨next, List.getElem?_set_self inside, same.trans named, still⟩
    · exact ⟨old, by rw [List.getElem?_set_ne at_i, there], named, runs⟩
  polled j other there runs := by
    obtain ⟨rfl, rfl⟩ | ⟨_, before⟩ := set_eq_some here there
    · exact same ▸ inv.polled j channel here running
    · exact inv.polled j other before runs
  listening := inv.listening

/-- Receivers that come to the stored channel of their key, or go. -/
theorem attend (inv : hub.Inv) {subscribers : List Subscriber}
    (known : ∀ subscriber ∈ subscribers, subscriber.live = true →
      hub.keys subscriber.key = some subscriber.channel) : Inv { hub with subscribers } where
  stored := inv.stored
  polled := inv.polled
  listening := known

theorem attend_set (inv : hub.Inv) {j : Nat} {subscriber next : Subscriber}
    (there : hub.subscribers[j]? = some subscriber)
    (same : next.live = true → subscriber.live = true ∧ next.key = subscriber.key ∧
      next.channel = subscriber.channel) : Inv { hub with subscribers := hub.subscribers.set j next } := by
  refine inv.attend fun other member live => ?_
  obtain before | rfl := List.mem_or_eq_of_mem_set member
  · exact inv.listening other before live
  · obtain ⟨live, key, channel⟩ := same live
    rw [key, channel]
    exact inv.listening subscriber (List.mem_of_getElem? there) live

theorem create (inv : hub.Inv) {key : String} (absent : hub.keys key = none) : Inv
    { keys := Function.update hub.keys key (some hub.channels.length)
      channels := hub.channels ++ [⟨key, none, 0, .unspawned⟩]
      subscribers := hub.subscribers ++ [⟨key, hub.channels.length, true, none, []⟩] } where
  stored name i found := by
    obtain ⟨rfl, ⟨⟩⟩ | ⟨_, found⟩ := update_eq_some found
    · exact ⟨_, List.getElem?_concat_length, rfl, nofun⟩
    · obtain ⟨channel, here, rest⟩ := inv.stored name i found
      have inside := (List.getElem?_eq_some_iff.mp here).1
      exact ⟨channel, (List.getElem?_append_left inside).trans here, rest⟩
  polled i channel here running := by
    obtain before | ⟨rfl, rfl⟩ := concat_eq_some here
    · exact keys_update absent (inv.polled i channel before running)
    · exact Function.update_self ..
  listening subscriber member live := by
    obtain before | new := List.mem_append.mp member
    · exact keys_update absent (inv.listening subscriber before live)
    · obtain rfl := List.mem_singleton.mp new
      exact Function.update_self ..

/-- A poller on its way out has its own channel in the map, so nobody is left on it. -/
theorem retire (inv : hub.Inv) {i entry : Nat} {channel : Channel} (here : hub.channels[i]? = some channel)
    (leaving : channel.poller = .leaving) (stored : hub.keys channel.key = some entry)
    (deserted : hub.receiverCount entry = 0) : Inv
    { hub.setPoller i channel .retired with keys := Function.update hub.keys channel.key none } where
  stored key j found := by
    obtain ⟨_, ⟨⟩⟩ | ⟨other, found⟩ := update_eq_some found
    obtain ⟨old, there, named, runs⟩ := inv.stored key j found
    have elsewhere : i ≠ j := by
      rintro rfl
      obtain rfl := Option.some.inj (here.symm.trans there)
      exact other named.symm
    exact ⟨old, (List.getElem?_set_ne elsewhere).trans there, named, runs⟩
  polled j old there runs := by
    obtain ⟨rfl, rfl⟩ | ⟨elsewhere, before⟩ := set_eq_some here there
    · exact absurd rfl runs
    have found := inv.polled j old before runs
    have own := inv.polled i channel here (by simp [leaving])
    change Function.update hub.keys channel.key none old.key = some j
    rw [Function.update_of_ne, found]
    intro same
    rw [same] at found
    exact elsewhere (Option.some.inj (found.symm.trans own))
  listening subscriber member live := by
    have found := inv.listening subscriber member live
    change Function.update hub.keys channel.key none subscriber.key = some subscriber.channel
    rw [Function.update_of_ne, found]
    intro same
    rw [same, stored] at found
    have none_left := List.countP_eq_zero.mp deserted subscriber member
    simp [live, Option.some.inj found] at none_left

theorem act (inv : hub.Inv) (stepped : hub.act action = some after) : after.Inv := by
  cases act_moves stepped with
  | @join key i stored =>
    refine inv.attend fun subscriber member live => ?_
    obtain before | new := List.mem_append.mp member
    · exact inv.listening subscriber before live
    · obtain rfl := List.mem_singleton.mp new
      exact stored
  | create absent => exact inv.create absent
  | turn here running next =>
    refine inv.replace here running rfl ?_
    obtain rfl | rfl | rfl := next <;> simp
  | retire here leaving stored deserted => exact inv.retire here leaving stored deserted
  | existsReply here probing => exact inv.replace here (by simp [probing]) rfl (by simp)
  | getReply here asked => exact inv.replace here (by simp [asked]) rfl (by simp)
  | send here answered =>
    exact inv.replace here (by simp [answered]) (Channel.send_key _ _) (by simp)
  | drop there => exact inv.attend_set there (by simp)
  | forward there live => exact inv.attend_set there fun _ => ⟨live, rfl, rfl⟩

end Inv

end WatchHub

/-- In every run: one key has one running poller at most, and every live subscriber is on
the channel that the map has for its key, which a poller serves or is about to. -/
theorem watchers_served {hub : WatchHub} (reach : watchHub.Reachable hub) :
    (∀ (i j : Nat) (channel other : Channel), hub.channels[i]? = some channel → hub.channels[j]? = some other →
      channel.key = other.key → channel.poller ≠ .retired → other.poller ≠ .retired → i = j) ∧
    ∀ subscriber ∈ hub.subscribers, subscriber.live = true →
      hub.keys subscriber.key = some subscriber.channel ∧
      ∃ channel, hub.channels[subscriber.channel]? = some channel ∧ channel.key = subscriber.key ∧
        channel.poller ≠ .retired := by
  have inv : hub.Inv := by
    refine reach.invariant ?_ fun hub action after inv stepped => inv.act stepped
    rintro hub rfl
    exact .empty
  constructor
  · intro i j channel other here there same runs still
    have first := inv.polled i channel here runs
    have second := inv.polled j other there still
    rw [same] at first
    exact Option.some.inj (first.symm.trans second)
  · intro subscriber member live
    have found := inv.listening subscriber member live
    exact ⟨found, inv.stored _ _ found⟩

/-- A subscriber that joins while the poller is on its way out keeps it. -/
theorem late_subscriber_served : ∃ hub : WatchHub, (∃ subscriber ∈ hub.subscribers, subscriber.live = true) ∧
    ∀ subscriber ∈ hub.subscribers, subscriber.live = true →
      hub.keys subscriber.key = some subscriber.channel ∧
      ∃ channel, hub.channels[subscriber.channel]? = some channel ∧ channel.key = subscriber.key ∧
        channel.poller ≠ .retired := by
  obtain ⟨hub, reach, joined⟩ := watchHub.exists_reachableWhen (fun _ _ => True)
    (fun hub : WatchHub => ∃ subscriber ∈ hub.subscribers, subscriber.live = true) (s := .empty) rfl
    [.subscribe "jobs", .spawnPoller 0, .drop 0, .check 0, .subscribe "jobs", .retire 0] (by decide)
  exact ⟨hub, joined, (watchers_served reach).2⟩

end Palisade.Server
