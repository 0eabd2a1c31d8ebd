import Palisade.Server.WatchHub

/-! The forwarders between the channels of the watch hub and its subscribers. A forwarder
reads its channel, sends the event to its subscriber and waits for a change. Each of these is
a step of its own; it notices that its subscriber has left only when it sends. -/
namespace Palisade.Server
open Transition

/-- `SUBSCRIBER_DEPTH` -/
def subscriberDepth : Nat := 16

/-- Where a forwarder stands in its loop. -/
inductive Phase where
  | reading
  | sending (event : LockEvent)
  /-- It awaits `changed`. -/
  | waiting
  | finished
  deriving DecidableEq

/-- A subscriber with its forwarder: whether its event receiver is there and what is in the
event channel. `left` is the version of its watch channel when it left, if the forwarder had
nothing to send it then; no code reads it. -/
structure Client where
  alive : Bool
  buffered : List LockEvent
  phase : Phase
  left : Option Nat
  deriving DecidableEq

/-- The clients come in the order of the subscribers of the hub, whose `live` says whether
the receiver of the watch channel is there. -/
structure Watchers where
  hub : WatchHub
  clients : List Client

/-- The steps of one subscriber and its forwarder. -/
inductive Turn where
  | read
  | push
  | wake
  /-- The subscriber takes an event. -/
  | receive
  /-- The event receiver is dropped. -/
  | leave
  deriving DecidableEq

inductive WatcherAction where
  | subscribe (key : String)
  /-- A step of a poller. -/
  | poll (action : HubAction)
  | turn (j : Nat) (turn : Turn)
  deriving DecidableEq

def HubAction.polls : HubAction → Bool
  | .spawnPoller _ | .check _ | .retire _ | .existsReply _ _ | .getReply _ _ | .send _ | .fail _ => true
  | .subscribe _ | .drop _ | .forward _ => false

/-- The forwarder has nothing to send: it awaits a change that has not come, or is about to
read a channel without a state. -/
def Idle (subscriber : Subscriber) (channel : Channel) (client : Client) : Prop :=
  client.phase = .waiting ∧ subscriber.seen = some channel.version ∨
    client.phase = .reading ∧ channel.state = none

instance (subscriber : Subscriber) (channel : Channel) (client : Client) : Decidable (Idle subscriber channel client) :=
  inferInstanceAs (Decidable (_ ∨ _))

/-- What the forwarder does with the state it has read. -/
def Phase.next (state : Option (Bool × Nat)) : Phase :=
  match state with
  | some (held, version) => .sending (transitionEvent held version)
  | none => .waiting

namespace Watchers

def put (s : Watchers) (j : Nat) (subscriber : Subscriber) (client : Client) : Watchers where
  hub := { s.hub with subscribers := s.hub.subscribers.set j subscriber }
  clients := s.clients.set j client

/-- The forwarder returns and drops its receiver. -/
def finish (s : Watchers) (j : Nat) (subscriber : Subscriber) (client : Client) : Watchers :=
  s.put j { subscriber with live := false } { client with phase := .finished }

def serve (s : Watchers) (j : Nat) (subscriber : Subscriber) (channel : Channel) (client : Client) :
    Turn → Option Watchers
  | .read =>
    if client.phase = .reading then
      some (s.put j (subscriber.forward channel) { client with phase := .next channel.state })
    else none
  | .push =>
    match client.phase with
    | .sending event =>
      if client.alive then
        if client.buffered.length < subscriberDepth then
          some (s.put j subscriber { client with buffered := client.buffered ++ [event], phase := .waiting })
        else none
      else some (s.finish j subscriber client)
    | _ => none
  | .wake =>
    if client.phase = .waiting then
      if subscriber.seen ≠ some channel.version then some (s.put j subscriber { client with phase := .reading })
      else if channel.poller = .retired then some (s.finish j subscriber client)
      else none
    else none
  | .receive =>
    match client.alive, client.buffered with
    | true, _ :: buffered => some (s.put j subscriber { client with buffered })
    | _, _ => none
  | .leave =>
    if client.alive then
      some (s.put j subscriber { client with
        alive := false
        left := if Idle subscriber channel client then some channel.version else none })
    else none

def act (s : Watchers) : WatcherAction → Option Watchers
  | .subscribe key => some ⟨s.hub.subscribe key, s.clients ++ [⟨true, [], .reading, none⟩]⟩
  | .poll action => if action.polls then (s.hub.act action).map fun hub => { s with hub } else none
  | .turn j turn => do
    let subscriber ← s.hub.subscribers[j]?
    let channel ← s.hub.channels[subscriber.channel]?
    let client ← s.clients[j]?
    s.serve j subscriber channel client turn

/-- No forwarder can go on. -/
def Quiescent (s : Watchers) : Prop :=
  ∀ j, s.act (.turn j .read) = none ∧ s.act (.turn j .push) = none ∧ s.act (.turn j .wake) = none

/-- The receivers of the watch channel of a key. -/
def receivers (s : Watchers) (key : String) : Nat :=
  match s.hub.keys key with
  | some i => s.hub.receiverCount i
  | none => 0

/-- The subscribers of a key whose event receiver is there. -/
def audience (s : Watchers) (key : String) : Nat :=
  (s.hub.subscribers.zip s.clients).countP fun (subscriber, client) => client.alive && subscriber.key == key

/-- A subscriber of the key has left when its forwarder had nothing to send, and the state
has not changed since. -/
def LeftIdle (s : Watchers) (key : String) : Prop :=
  ∃ (j : Nat) (subscriber : Subscriber) (channel : Channel) (client : Client), s.hub.subscribers[j]? = some subscriber ∧
    s.hub.channels[subscriber.channel]? = some channel ∧ s.clients[j]? = some client ∧
    subscriber.key = key ∧ client.left = some channel.version

end Watchers

def watchers : Machine Watchers WatcherAction where
  initial s := s = ⟨.empty, []⟩
  step := Watchers.act

/-- Every receiver of a key has its subscriber, and once the last one has left the next
iteration of the poller takes the key out of the map. -/
structure Watchers.Stops (s : Watchers) (key : String) : Prop where
  counts : s.receivers key = s.audience key
  retires : s.audience key = 0 → ∀ (i : Nat) (channel : Channel), s.hub.keys key = some i →
    s.hub.channels[i]? = some channel → channel.poller = .checking →
    ∃ t u, s.act (.poll (.check i)) = some t ∧ t.act (.poll (.retire i)) = some u ∧ u.hub.keys key = none

/-- Two counts of a list are equal exactly if nothing makes the larger one larger. -/
theorem countP_eq_iff {α : Type} {more less : α → Bool} {items : List α}
    (fewer : ∀ item ∈ items, less item = true → more item = true) :
    items.countP more = items.countP less ↔ ∀ item ∈ items, more item = true → less item = true := by
  induction items with
  | nil => simp
  | cons item items ih =>
    have rest := ih fun other member => fewer other (List.mem_cons_of_mem _ member)
    have bound : items.countP less ≤ items.countP more :=
      List.countP_mono_left fun other member => fewer other (List.mem_cons_of_mem _ member)
    have here := fewer item List.mem_cons_self
    rw [List.forall_mem_cons, ← rest, List.countP_cons, List.countP_cons]
    by_cases larger : more item = true
    · by_cases smaller : less item = true
      · simp [larger, smaller]
      · simp only [larger, smaller]
        simp
        omega
    · have smaller : ¬ less item = true := fun counted => larger (here counted)
      simp [larger, smaller]

/-- What holds of a subscriber, its channel and its client in every run. -/
structure Forwarding (subscriber : Subscriber) (channel : Channel) (client : Client) : Prop where
  /-- The channel has no state before its first version. -/
  unset : channel.state = none → channel.version = 0
  finished : subscriber.live = true → client.phase ≠ .finished
  alive : client.alive = true → subscriber.live = true
  read : client.phase ≠ .reading → ∃ seen ≤ channel.version, subscriber.seen = some seen
  /-- A forwarder that is idle with its subscriber gone was so when the subscriber left. -/
  idle : client.alive = false → subscriber.live = true → Idle subscriber channel client →
    client.left = some channel.version
  left : ∀ version, client.left = some version → client.alive = false ∧ version ≤ channel.version ∧
    (version = channel.version → subscriber.live = true ∧ Idle subscriber channel client)

namespace Forwarding
variable {subscriber : Subscriber} {channel next : Channel} {client : Client}

/-- A poller has left the state of its channel or sent another. -/
def Grows (channel next : Channel) : Prop :=
  next.state = channel.state ∧ next.version = channel.version ∨
    next.state.isSome = true ∧ next.version = channel.version + 1

theorem grow (sound : Forwarding subscriber channel client) (grows : Grows channel next) :
    Forwarding subscriber next client := by
  obtain ⟨state, version⟩ | ⟨state, version⟩ := grows
  · obtain ⟨unset, finished, alive, read, idle, left⟩ := sound
    constructor
    case unset => rwa [state, version]
    case finished => exact finished
    case alive => exact alive
    case read => rwa [version]
    case idle => rwa [Idle, state, version]
    case left => simpa only [Idle, state, version] using left
  · have changed : ¬ Idle subscriber next client := by
      rintro (⟨waiting, seen⟩ | ⟨_, unset⟩)
      · obtain ⟨last, before, read⟩ := sound.read (by simp [waiting])
        cases seen.symm.trans read
        omega
      · simp [unset] at state
    constructor
    case unset =>
      intro unset
      simp [unset] at state
    case finished => exact sound.finished
    case alive => exact sound.alive
    case read =>
      intro begun
      obtain ⟨last, before, read⟩ := sound.read begun
      exact ⟨last, by omega, read⟩
    case idle => exact fun _ _ idle => absurd idle changed
    case left =>
      intro last left
      obtain ⟨gone, before, _⟩ := sound.left last left
      exact ⟨gone, by omega, fun same => by omega⟩

theorem forward (sound : Forwarding subscriber channel client) (reading : client.phase = .reading) :
    Forwarding (subscriber.forward channel) channel { client with phase := .next channel.state } where
  unset := sound.unset
  finished live := by
    cases channel.state <;> simp [Phase.next]
  alive := sound.alive
  read _ := ⟨channel.version, Nat.le_refl _, rfl⟩
  idle gone live idle := by
    apply sound.idle gone live
    refine .inr ⟨reading, ?_⟩
    cases state : channel.state with
    | none => rfl
    | some stored => simp [Idle, Phase.next, state] at idle
  left version left := by
    obtain ⟨gone, before, still⟩ := sound.left version left
    refine ⟨gone, before, fun same => ?_⟩
    obtain ⟨live, ⟨waiting, _⟩ | ⟨_, unset⟩⟩ := still same
    · cases reading.symm.trans waiting
    · exact ⟨live, .inl ⟨by simp [Phase.next, unset], rfl⟩⟩

/-- A subscriber that is there is sent its event, or takes one. -/
theorem attended (sound : Forwarding subscriber channel client) {buffered : List LockEvent} {phase : Phase}
    (alive : client.alive = true) (running : phase ≠ .finished) (begun : phase ≠ .reading → client.phase ≠ .reading) :
    Forwarding subscriber channel { client with buffered, phase } where
  unset := sound.unset
  finished _ := running
  alive := sound.alive
  read other := sound.read (begun other)
  idle gone := by
    rw [alive] at gone
    cases gone
  left version left := by
    have gone := (sound.left version left).1
    rw [alive] at gone
    cases gone

/-- A forwarder that is not idle returns. -/
theorem finish (sound : Forwarding subscriber channel client) (begun : client.phase ≠ .reading)
    (gone : client.alive = false) (busy : subscriber.live = true → ¬ Idle subscriber channel client) :
    Forwarding { subscriber with live := false } channel { client with phase := .finished } where
  unset := sound.unset
  finished := nofun
  alive alive := by
    rw [gone] at alive
    cases alive
  read _ := sound.read begun
  idle _ := nofun
  left version left := by
    obtain ⟨_, before, still⟩ := sound.left version left
    refine ⟨gone, before, fun same => ?_⟩
    obtain ⟨live, idle⟩ := still same
    exact absurd idle (busy live)

/-- A change wakes the forwarder up. -/
theorem wake (sound : Forwarding subscriber channel client) (waiting : client.phase = .waiting)
    (changed : subscriber.seen ≠ some channel.version) :
    Forwarding subscriber channel { client with phase := .reading } where
  unset := sound.unset
  finished _ := nofun
  alive := sound.alive
  read begun := absurd rfl begun
  idle _ _ idle := by
    obtain ⟨⟨⟩, _⟩ | ⟨_, unset⟩ := idle
    obtain ⟨last, before, read⟩ := sound.read (by simp [waiting])
    rw [sound.unset unset, Nat.le_zero] at before
    rw [read, before, sound.unset unset] at changed
    exact absurd rfl changed
  left version left := by
    obtain ⟨gone, before, still⟩ := sound.left version left
    refine ⟨gone, before, fun same => ?_⟩
    obtain ⟨_, ⟨_, seen⟩ | ⟨reading, _⟩⟩ := still same
    · exact absurd seen changed
    · cases waiting.symm.trans reading

theorem leave (sound : Forwarding subscriber channel client) (alive : client.alive = true) :
    Forwarding subscriber channel { client with
      alive := false
      left := if Idle subscriber channel client then some channel.version else none } where
  unset := sound.unset
  finished := sound.finished
  alive := nofun
  read := sound.read
  idle _ _ idle := if_pos idle
  left version left := by
    obtain ⟨idle, ⟨⟩⟩ := Option.ite_none_right_eq_some.mp left
    exact ⟨rfl, Nat.le_refl _, fun _ => ⟨sound.alive alive, idle⟩⟩

end Forwarding

namespace Watchers
variable {s t : Watchers} {j : Nat} {subscriber : Subscriber} {channel : Channel} {client : Client}

/-- What any turn of a subscriber and its forwarder leaves. -/
structure Turned (subscriber : Subscriber) (channel : Channel) (next : Subscriber) (client : Client) : Prop where
  key : next.key = subscriber.key
  served : next.channel = subscriber.channel
  live : next.live = true → subscriber.live = true
  sound : Forwarding next channel client

theorem serve_turned {turn : Turn} (sound : Forwarding subscriber channel client)
    (polled : subscriber.live = true → channel.poller ≠ .retired)
    (stepped : s.serve j subscriber channel client turn = some t) :
    ∃ next client, t = s.put j next client ∧ Turned subscriber channel next client := by
  cases turn with
  | read =>
    obtain ⟨reading, ⟨⟩⟩ := Option.ite_none_right_eq_some.mp stepped
    exact ⟨_, _, rfl, rfl, rfl, id, sound.forward reading⟩
  | push =>
    simp only [serve] at stepped
    split at stepped
    · next event sending =>
      split at stepped
      · next alive =>
        obtain ⟨_, ⟨⟩⟩ := Option.ite_none_right_eq_some.mp stepped
        exact ⟨_, _, rfl, rfl, rfl, id, sound.attended alive (by simp) fun _ => by simp [sending]⟩
      · next gone =>
        cases stepped
        refine ⟨_, _, rfl, rfl, rfl, nofun, sound.finish (by simp [sending]) (by simpa using gone) fun _ => ?_⟩
        simp [Idle, sending]
    · contradiction
  | wake =>
    obtain ⟨waiting, stepped⟩ := Option.ite_none_right_eq_some.mp stepped
    split at stepped
    · next changed =>
      cases stepped
      exact ⟨_, _, rfl, rfl, rfl, id, sound.wake waiting changed⟩
    · obtain ⟨retired, ⟨⟩⟩ := Option.ite_none_right_eq_some.mp stepped
      have dropped : subscriber.live ≠ true := fun live => polled live retired
      have gone : client.alive = false := Bool.eq_false_iff.mpr fun alive => dropped (sound.alive alive)
      exact ⟨_, _, rfl, rfl, rfl, nofun, sound.finish (by simp [waiting]) gone fun live => absurd live dropped⟩
  | receive =>
    simp only [serve] at stepped
    split at stepped
    · next alive _ =>
      cases stepped
      refine ⟨_, _, rfl, rfl, rfl, id, sound.attended alive ?_ fun begun => begun⟩
      exact sound.finished (sound.alive alive)
    · contradiction
  | leave =>
    obtain ⟨alive, ⟨⟩⟩ := Option.ite_none_right_eq_some.mp stepped
    exact ⟨_, _, rfl, rfl, rfl, id, sound.leave alive⟩

/-- A step of a poller keeps the subscribers and is about one channel. -/
theorem poll_grows {hub after : WatchHub} {action : HubAction} (polls : action.polls = true)
    (stepped : hub.act action = some after) : after.subscribers = hub.subscribers ∧
      ∃ (i : Nat) (old new : Channel), hub.channels[i]? = some old ∧
        after.channels = hub.channels.set i new ∧ Forwarding.Grows old new := by
  cases WatchHub.act_moves stepped with
  | join | create | drop | forward => cases polls
  | turn here | retire here | existsReply here | getReply here =>
    exact ⟨rfl, _, _, _, here, rfl, .inl ⟨rfl, rfl⟩⟩
  | @send i version held channel here =>
    refine ⟨rfl, _, _, _, here, rfl, ?_⟩
    unfold Channel.send
    split
    · exact .inl ⟨rfl, rfl⟩
    · exact .inr ⟨rfl, rfl⟩

/-- A subscriber comes to a channel that is there or new. -/
theorem subscribe_joins (hub : WatchHub) (key : String) (known : hub.Inv) : ∃ i,
    (hub.subscribe key).subscribers = hub.subscribers ++ [⟨key, i, true, none, []⟩] ∧
      (∃ channel, (hub.subscribe key).channels[i]? = some channel) ∧
      ((hub.subscribe key).channels = hub.channels ∨
        (hub.subscribe key).channels = hub.channels ++ [⟨key, none, 0, .unspawned⟩]) := by
  unfold WatchHub.subscribe
  split
  · next i stored =>
    obtain ⟨channel, here, _⟩ := known.stored key i stored
    exact ⟨i, rfl, ⟨channel, here⟩, .inl rfl⟩
  · exact ⟨hub.channels.length, rfl, ⟨_, List.getElem?_concat_length⟩, .inr rfl⟩

/-- Clients and subscribers go together, and each pair is sound on its channel. -/
structure Inv (s : Watchers) : Prop where
  hub : s.hub.Inv
  paired : s.clients.length = s.hub.subscribers.length
  unset : ∀ (i : Nat) (channel : Channel), s.hub.channels[i]? = some channel → channel.state = none →
    channel.version = 0
  sound : ∀ (j : Nat) (subscriber : Subscriber) (client : Client), s.hub.subscribers[j]? = some subscriber →
    s.clients[j]? = some client → ∃ channel, s.hub.channels[subscriber.channel]? = some channel ∧
      Forwarding subscriber channel client

namespace Inv

theorem empty : Inv ⟨.empty, []⟩ := ⟨.empty, rfl, nofun, nofun⟩

/-- The channel of a receiver has a poller. -/
theorem polled (inv : s.Inv) (there : s.hub.subscribers[j]? = some subscriber)
    (here : s.hub.channels[subscriber.channel]? = some channel) (live : subscriber.live = true) :
    channel.poller ≠ .retired := by
  have stored := inv.hub.listening subscriber (List.mem_of_getElem? there) live
  obtain ⟨other, found, _, running⟩ := inv.hub.stored _ _ stored
  cases here.symm.trans found
  exact running

theorem turn (inv : s.Inv) {next : Subscriber} {after : Client} (there : s.hub.subscribers[j]? = some subscriber)
    (here : s.hub.channels[subscriber.channel]? = some channel) (mine : s.clients[j]? = some client)
    (turned : Turned subscriber channel next after) : (s.put j next after).Inv where
  hub := inv.hub.attend_set there fun live => ⟨turned.live live, turned.key, turned.served⟩
  paired := by simp [put, inv.paired]
  unset := inv.unset
  sound k other owner found owned := by
    obtain ⟨rfl, rfl⟩ | ⟨elsewhere, found⟩ := set_eq_some there found
    · obtain ⟨_, rfl⟩ | ⟨elsewhere, _⟩ := set_eq_some mine owned
      · exact ⟨channel, turned.served ▸ here, turned.sound⟩
      · exact absurd rfl elsewhere
    · obtain ⟨same, _⟩ | ⟨_, owned⟩ := set_eq_some mine owned
      · exact absurd same elsewhere
      · exact inv.sound k other owner found owned

theorem poll (inv : s.Inv) {action : HubAction} {hub : WatchHub} (polls : action.polls = true)
    (stepped : s.hub.act action = some hub) : Inv { s with hub } := by
  obtain ⟨subscribers, i, old, new, here, channels, grows⟩ := poll_grows polls stepped
  refine ⟨inv.hub.act stepped, inv.paired.trans (congrArg List.length subscribers).symm, ?_, ?_⟩
  · intro k channel there unset
    simp only [channels] at there
    obtain ⟨rfl, rfl⟩ | ⟨_, there⟩ := set_eq_some here there
    · obtain ⟨state, version⟩ | ⟨state, _⟩ := grows
      · rw [version]
        exact inv.unset k old here (state ▸ unset)
      · simp [unset] at state
    · exact inv.unset k channel there unset
  · intro j subscriber client there mine
    simp only [subscribers] at there
    obtain ⟨channel, stored, sound⟩ := inv.sound j subscriber client there mine
    simp only [channels]
    by_cases same : i = subscriber.channel
    · subst same
      cases here.symm.trans stored
      exact ⟨new, List.getElem?_set_self (List.getElem?_eq_some_iff.mp here).1, sound.grow grows⟩
    · exact ⟨channel, (List.getElem?_set_ne same).trans stored, sound⟩

theorem subscribe (inv : s.Inv) (key : String) :
    Inv ⟨s.hub.subscribe key, s.clients ++ [⟨true, [], .reading, none⟩]⟩ := by
  obtain ⟨i, subscribers, ⟨joined, here⟩, channels⟩ := subscribe_joins s.hub key inv.hub
  have unset : ∀ (k : Nat) (channel : Channel), (s.hub.subscribe key).channels[k]? = some channel →
      channel.state = none → channel.version = 0 := by
    intro k channel there
    obtain same | appended := channels
    · exact inv.unset k channel (same ▸ there)
    · obtain before | ⟨_, rfl⟩ := concat_eq_some (appended ▸ there)
      · exact inv.unset k channel before
      · exact fun _ => rfl
  have kept {k : Nat} {channel : Channel} (there : s.hub.channels[k]? = some channel) :
      (s.hub.subscribe key).channels[k]? = some channel := by
    obtain same | appended := channels
    · exact same ▸ there
    · rw [appended, List.getElem?_append_left (List.getElem?_eq_some_iff.mp there).1, there]
  have acted : s.hub.act (.subscribe key) = some (s.hub.subscribe key) := rfl
  refine ⟨inv.hub.act acted, by simp [subscribers, inv.paired], unset, ?_⟩
  intro j subscriber client there mine
  simp only [subscribers] at there
  obtain before | ⟨rfl, rfl⟩ := concat_eq_some there
  · obtain mine | ⟨last, _⟩ := concat_eq_some mine
    · obtain ⟨channel, stored, sound⟩ := inv.sound j subscriber client before mine
      exact ⟨channel, kept stored, sound⟩
    · have inside := (List.getElem?_eq_some_iff.mp before).1
      rw [last, inv.paired] at inside
      exact absurd inside (Nat.lt_irrefl _)
  · obtain mine | ⟨_, rfl⟩ := concat_eq_some mine
    · have inside := (List.getElem?_eq_some_iff.mp mine).1
      rw [inv.paired] at inside
      exact absurd inside (Nat.lt_irrefl _)
    · exact ⟨joined, here, unset i joined here, nofun, fun _ => rfl, fun begun => absurd rfl begun, nofun, nofun⟩

theorem act (inv : s.Inv) {action : WatcherAction} (stepped : s.act action = some t) : t.Inv := by
  cases action with
  | subscribe key =>
    cases stepped
    exact inv.subscribe key
  | poll action =>
    obtain ⟨polls, stepped⟩ := Option.ite_none_right_eq_some.mp stepped
    obtain ⟨hub, polled, rfl⟩ := Option.map_eq_some_iff.mp stepped
    exact inv.poll polls polled
  | turn j turn =>
    obtain ⟨subscriber, there, stepped⟩ := Option.bind_eq_some_iff.mp stepped
    obtain ⟨channel, here, stepped⟩ := Option.bind_eq_some_iff.mp stepped
    obtain ⟨client, mine, stepped⟩ := Option.bind_eq_some_iff.mp stepped
    obtain ⟨other, found, sound⟩ := inv.sound j subscriber client there mine
    cases here.symm.trans found
    obtain ⟨next, after, rfl, turned⟩ := serve_turned sound (inv.polled there here) stepped
    exact inv.turn there here mine turned

/-- The receivers of a key are those of its subscribers that have not dropped theirs. -/
theorem receivers_eq (inv : s.Inv) (key : String) : s.receivers key =
    (s.hub.subscribers.zip s.clients).countP fun (subscriber, _) => subscriber.live && subscriber.key == key := by
  have first : (s.hub.subscribers.zip s.clients).map Prod.fst = s.hub.subscribers :=
    List.map_fst_zip inv.paired.ge
  have mapped : (s.hub.subscribers.zip s.clients).countP (fun (subscriber, _) => subscriber.live && subscriber.key == key) =
      s.hub.subscribers.countP fun subscriber => subscriber.live && subscriber.key == key := by
    conv_rhs => rw [← first, List.countP_map]
    rfl
  rw [mapped, receivers]
  cases stored : s.hub.keys key with
  | some i =>
    apply List.countP_congr
    intro subscriber member
    simp only [Bool.and_eq_true, beq_iff_eq, and_congr_right_iff]
    intro live
    have listening := inv.hub.listening subscriber member live
    constructor
    · rintro rfl
      obtain ⟨channel, here, named, _⟩ := inv.hub.stored _ _ listening
      obtain ⟨other, there, same, _⟩ := inv.hub.stored _ _ stored
      cases here.symm.trans there
      exact named.symm.trans same
    · rintro rfl
      exact Option.some.inj (listening.symm.trans stored)
  | none =>
    refine (List.countP_eq_zero.mpr ?_).symm
    intro subscriber member
    simp only [Bool.and_eq_true, beq_iff_eq, not_and]
    rintro live rfl
    cases stored.symm.trans (inv.hub.listening subscriber member live)

/-- A forwarder that cannot go on and whose subscriber has left is idle. -/
theorem idle_of_quiescent (inv : s.Inv) (quiescent : s.Quiescent) (there : s.hub.subscribers[j]? = some subscriber)
    (here : s.hub.channels[subscriber.channel]? = some channel) (mine : s.clients[j]? = some client)
    (live : subscriber.live = true) (gone : client.alive = false) : Idle subscriber channel client := by
  obtain ⟨read, push, wake⟩ := quiescent j
  obtain ⟨other, found, sound⟩ := inv.sound j subscriber client there mine
  cases here.symm.trans found
  cases phase : client.phase with
  | reading => simp [Watchers.act, there, here, mine, serve, phase] at read
  | sending event => simp [Watchers.act, there, here, mine, serve, phase, gone] at push
  | waiting =>
    refine .inl ⟨phase, ?_⟩
    by_contra changed
    simp [Watchers.act, there, here, mine, serve, phase, changed] at wake
  | finished => exact absurd phase (sound.finished live)

/-- Whom the forwarders of a key serve who is not there any more. -/
theorem counts_iff (inv : s.Inv) (key : String) : s.receivers key = s.audience key ↔
    ∀ (j : Nat) (subscriber : Subscriber) (client : Client), s.hub.subscribers[j]? = some subscriber →
      s.clients[j]? = some client → subscriber.key = key → subscriber.live = true → client.alive = true := by
  have pair {subscriber : Subscriber} {client : Client} (member : (subscriber, client) ∈ s.hub.subscribers.zip s.clients) :
      ∃ j : Nat, s.hub.subscribers[j]? = some subscriber ∧ s.clients[j]? = some client := by
    obtain ⟨j, found⟩ := List.getElem?_of_mem member
    exact ⟨j, List.getElem?_zip_eq_some.mp found⟩
  rw [inv.receivers_eq, audience, countP_eq_iff]
  · constructor
    · intro within j subscriber client there mine named live
      have found : (s.hub.subscribers.zip s.clients)[j]? = some (subscriber, client) :=
        List.getElem?_zip_eq_some.mpr ⟨there, mine⟩
      have counted := within (subscriber, client) (List.mem_of_getElem? found) (by simp [named, live])
      exact (Bool.and_eq_true_iff.mp counted).1
    · rintro present ⟨subscriber, client⟩ member counted
      obtain ⟨j, there, mine⟩ := pair member
      simp only [Bool.and_eq_true, beq_iff_eq] at counted ⊢
      exact ⟨present j subscriber client there mine counted.2 counted.1, counted.2⟩
  · rintro ⟨subscriber, client⟩ member counted
    obtain ⟨j, there, mine⟩ := pair member
    obtain ⟨channel, _, sound⟩ := inv.sound j subscriber client there mine
    simp only [Bool.and_eq_true, beq_iff_eq] at counted ⊢
    exact ⟨sound.alive counted.1, counted.2⟩

theorem counts_iff_not_leftIdle (inv : s.Inv) (quiescent : s.Quiescent) (key : String) :
    s.receivers key = s.audience key ↔ ¬ s.LeftIdle key := by
  rw [inv.counts_iff]
  constructor
  · rintro present ⟨j, subscriber, channel, client, there, here, mine, named, left⟩
    obtain ⟨other, found, sound⟩ := inv.sound j subscriber client there mine
    cases here.symm.trans found
    obtain ⟨gone, _, still⟩ := sound.left _ left
    have alive := present j subscriber client there mine named (still rfl).1
    rw [gone] at alive
    cases alive
  · intro attended j subscriber client there mine named live
    by_contra missing
    have gone : client.alive = false := Bool.eq_false_iff.mpr missing
    obtain ⟨channel, here, sound⟩ := inv.sound j subscriber client there mine
    have idle := inv.idle_of_quiescent quiescent there here mine live gone
    exact attended ⟨j, subscriber, channel, client, there, here, mine, named, sound.idle gone live idle⟩

/-- A poller that finds no receiver takes its key out of the map. -/
theorem retires (inv : s.Inv) {key : String} {i : Nat} (deserted : s.receivers key = 0)
    (stored : s.hub.keys key = some i) (here : s.hub.channels[i]? = some channel)
    (checking : channel.poller = .checking) : ∃ t u,
      s.act (.poll (.check i)) = some t ∧ t.act (.poll (.retire i)) = some u ∧ u.hub.keys key = none := by
  have empty : s.hub.receiverCount i = 0 := by simpa [receivers, stored] using deserted
  have named : channel.key = key := by
    obtain ⟨other, there, named, _⟩ := inv.hub.stored key i stored
    cases here.symm.trans there
    exact named
  have leaving : (s.hub.setPoller i channel .leaving).channels[i]? = some { channel with poller := .leaving } :=
    List.getElem?_set_self (List.getElem?_eq_some_iff.mp here).1
  have found : (s.hub.setPoller i channel .leaving).keys channel.key = some i := named ▸ stored
  have still : (s.hub.setPoller i channel .leaving).receiverCount i = 0 := empty
  refine ⟨⟨s.hub.setPoller i channel .leaving, s.clients⟩,
    ⟨(s.hub.setPoller i channel .leaving).retire i { channel with poller := .leaving }, s.clients⟩, ?_, ?_, ?_⟩
  · simp [Watchers.act, HubAction.polls, WatchHub.act, here, checking, empty]
  · simp [Watchers.act, HubAction.polls, WatchHub.act, leaving]
  · simp only [WatchHub.retire, found, if_pos still]
    rw [named]
    exact Function.update_self ..

end Inv

end Watchers

/-- In every run, whenever no forwarder can go on: the receivers of a key are its subscribers,
and its poller retires with the last of them, exactly if none has left when its forwarder had
nothing to send and the state has not changed since. -/
theorem departure_stops_poller_iff {s : Watchers} (reach : watchers.Reachable s) (quiescent : s.Quiescent) (key : String) :
    s.Stops key ↔ ¬ s.LeftIdle key := by
  have inv : s.Inv := by
    refine reach.invariant ?_ fun s action t inv stepped => inv.act stepped
    rintro s rfl
    exact .empty
  rw [← inv.counts_iff_not_leftIdle quiescent]
  refine ⟨Watchers.Stops.counts, fun counts => ⟨counts, fun left i channel stored here checking => ?_⟩⟩
  exact inv.retires (counts.trans left) stored here checking

/-- Only the forwarders of clients that are there can go on. -/
theorem Watchers.quiescent_iff {s : Watchers} : s.Quiescent ↔ ∀ j < s.clients.length,
    s.act (.turn j .read) = none ∧ s.act (.turn j .push) = none ∧ s.act (.turn j .wake) = none := by
  refine ⟨fun quiescent j _ => quiescent j, fun blocked j => ?_⟩
  by_cases inside : j < s.clients.length
  · exact blocked j inside
  · have missing : s.clients[j]? = none := List.getElem?_eq_none_iff.mpr (Nat.le_of_not_lt inside)
    simp [act, missing]

instance (s : Watchers) : Decidable s.Quiescent :=
  decidable_of_iff _ Watchers.quiescent_iff.symm

/-- The subscriber leaves while its event is sent. -/
theorem departure_stops_poller_sending : ∃ s : Watchers, s.Quiescent ∧ s.clients.length = 1 ∧
    s.audience "jobs" = 0 ∧ s.Stops "jobs" := by
  obtain ⟨s, reach, quiescent, subscribed, deserted, busy⟩ := watchers.exists_reachableWhen (fun _ _ => True)
    (fun s : Watchers => s.Quiescent ∧ s.clients.length = 1 ∧ s.audience "jobs" = 0 ∧
      ∀ client ∈ s.clients, client.left = none) (s := ⟨.empty, []⟩) rfl
    [.subscribe "jobs", .poll (.spawnPoller 0), .poll (.check 0), .poll (.existsReply 0 true),
      .poll (.getReply 0 1), .poll (.send 0), .turn 0 .read, .turn 0 .leave, .turn 0 .push] (by decide)
  refine ⟨s, quiescent, subscribed, deserted, (departure_stops_poller_iff reach quiescent "jobs").mpr ?_⟩
  rintro ⟨j, subscriber, channel, client, _, _, mine, _, left⟩
  cases (busy client (List.mem_of_getElem? mine)).symm.trans left

/-- The only subscriber leaves after it has been sent the current state. Its forwarder keeps
the receiver. -/
theorem idle_forwarder_listens : ¬ ∀ s : Watchers, watchers.Reachable s → s.Quiescent → ∀ key, s.Stops key := by
  intro stops
  obtain ⟨s, reach, quiescent, listening, deserted⟩ := watchers.exists_reachableWhen (fun _ _ => True)
    (fun s : Watchers => s.Quiescent ∧ s.receivers "jobs" = 1 ∧ s.audience "jobs" = 0) (s := ⟨.empty, []⟩) rfl
    [.subscribe "jobs", .poll (.spawnPoller 0), .poll (.check 0), .poll (.existsReply 0 true),
      .poll (.getReply 0 1), .poll (.send 0), .turn 0 .read, .turn 0 .push, .turn 0 .receive,
      .turn 0 .leave] (by decide)
  have counts := (stops s reach quiescent "jobs").counts
  rw [listening, deserted] at counts
  cases counts

end Palisade.Server
