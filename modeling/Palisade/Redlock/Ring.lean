import Palisade.Transition
import Palisade.Redlock.TryLock

/-! Concurrent rounds of the quorum lock on one key. A request travels on a wire
and runs on its node at any later instant, in any order with the others, or
never; a caller that stops waiting for one does not take it back. The log
records what ran, newest first, and doubles as the replies callers wait for.
Nodes keep their state and all clocks advance together. -/
namespace Palisade.Redlock
open Redis Lease Single Transition

inductive Command where
  | acquire (ttlMs : Nat)
  | extend (ttlMs : Nat)
  | release
  | incr
  deriving DecidableEq

/-- The script invocation of a request; the allocator's `INCR` answers with its value. -/
def Command.script (key token : String) : Command → Script (Nat × Int)
  | .acquire ttlMs => Single.acquire key (fenceKeyFor key) token ttlMs (ttlMs * 10 % 2 ^ 64)
  | .extend ttlMs => do
    return (← Single.extend key (fenceKeyFor key) token ttlMs (ttlMs * 10 % 2 ^ 64), 0)
  | .release => do
    return (← Single.release key token, 0)
  | .incr => do
    return (1, ← Script.incr allocatorKey)

structure Request where
  token : String
  node : Nat
  command : Command
  deriving DecidableEq

structure Execution where
  request : Request
  time : Nat
  reply : Except Fault (Nat × Int)

/-- The node accepted the round's acquire. -/
def Execution.granted (e : Execution) : Bool :=
  match e.request.command, e.reply with
  | .acquire _, .ok (1, _) | .acquire _, .ok (2, _) => true
  | _, _ => false

/-- Where a call stands: waiting for node `i` since `sent` (past the last node the
loop is over), waiting for the allocator, holding since `returned`, or failed. -/
inductive Phase where
  | visiting (i sent : Nat)
  | allocating
  | holding (fence : FencingToken) (returned : Nat) (released : Option Nat)
  | failed (error : Error)
  deriving DecidableEq

/-- One `try_lock` call and its handle. `collected` is when the quorum was complete. -/
structure Client where
  ttl : Duration
  started : Nat
  acquired : List Nat
  collected : Option Nat
  phase : Phase
  deriving DecidableEq

inductive Event where
  /-- The visited node's reply is taken. -/
  | answer
  | refuse (message : String)
  /-- The slice of the visited node is over. -/
  | elapse
  /-- The quorum and elapsed-time check after the loop. -/
  | check
  | allocated
  | unreachable (message : String)
  /-- A refresh round begins, by the watchdog or by `extend`. -/
  | extend (ttl : Duration)
  /-- The handle is released or its last clone dropped. -/
  | release
  deriving DecidableEq

namespace Client

def ttlMs (c : Client) : Nat := c.ttl.asMillisU64

/-- The end of the lease, counted from the start of the round. -/
def ends (c : Client) : Nat := c.started + c.ttlMs

def push (c : Client) (n i now : Nat) : Client :=
  { c with
    acquired := c.acquired ++ [i]
    collected := if c.acquired.length + 1 = quorum n then some now else c.collected }

/-- The loop goes on to node `i`. -/
def visit (c : Client) (token : String) (n i now : Nat) : Client × List Request :=
  ({ c with phase := .visiting i now }, if i < n then [⟨token, i, .acquire c.ttlMs⟩] else [])

def fail (c : Client) (error : Error) : Client := { c with phase := .failed error }

def step (n : Nat) (key token : String) (now : Nat) (log : List Execution) (c : Client) :
    Event → Option (Client × List Request)
  | .answer =>
    match c.phase with
    | .visiting i _ =>
      match log.find? fun e => e.request = ⟨token, i, .acquire c.ttlMs⟩ with
      | none => none
      | some e =>
        if i < n then
          match e.reply with
          | .ok (1, _) | .ok (2, _) => some ((c.push n i now).visit token n (i + 1) now)
          | .ok _ => some (c.visit token n (i + 1) now)
          | .error fault => some (c.fail (.backend s!"redlock node {i}: {fault.text}"), [])
        else none
    | _ => none
  | .refuse message =>
    match c.phase with
    | .visiting i _ =>
      if i < n then some (c.fail (.backend s!"redlock node {i}: {message}"), []) else none
    | _ => none
  | .elapse =>
    match c.phase with
    | .visiting i sent =>
      if i < n ∧ sent + slice c.ttlMs ≤ now then some (c.visit token n (i + 1) now) else none
    | _ => none
  | .check =>
    match c.phase with
    | .visiting i _ =>
      if i < n then none
      else if quorum n ≤ c.acquired.length ∧ elapsedOk (now - c.started) c.ttl = true then
        some ({ c with phase := .allocating }, [⟨token, 0, .incr⟩])
      else some (c.fail (.held key), c.acquired.map fun i => ⟨token, i, .release⟩)
    | _ => none
  | .allocated =>
    match c.phase with
    | .allocating =>
      match log.find? fun e => e.request = ⟨token, 0, .incr⟩ with
      | none => none
      | some e =>
        match e.reply with
        | .ok (_, value) => some ({ c with phase := .holding ⟨value.toNat⟩ now none }, [])
        | .error fault => some (c.fail (.backend s!"fence allocation failed: {fault.text}"), [])
    | _ => none
  | .unreachable message =>
    match c.phase with
    | .allocating => some (c.fail (.backend s!"fence allocation failed: {message}"), [])
    | _ => none
  | .extend ttl =>
    match c.phase with
    | .holding _ _ none =>
      if ttl.nanos < minTtl.nanos then none
      else some (c, (List.range n).map fun i => ⟨token, i, .extend ttl.asMillisU64⟩)
    | _ => none
  | .release =>
    match c.phase with
    | .holding fence returned none =>
      some ({ c with phase := .holding fence returned (some now) },
        (List.range n).map fun i => ⟨token, i, .release⟩)
    | _ => none

/-- Everything a step can do to the caller, with the requests it sends. -/
inductive Moves (n : Nat) (token : String) (now : Nat) (log : List Execution) (c : Client) :
    Event → Client → List Request → Prop where
  | take (stage : c.phase = .visiting i sent) (inside : i < n) (ran : e ∈ log)
      (asked : e.request = ⟨token, i, .acquire c.ttlMs⟩) (granted : e.granted = true) :
      Moves n token now log c event ((c.push n i now).visit token n (i + 1) now).1
        ((c.push n i now).visit token n (i + 1) now).2
  | pass (stage : c.phase = .visiting i sent) (inside : i < n) :
      Moves n token now log c event (c.visit token n (i + 1) now).1 (c.visit token n (i + 1) now).2
  | abort (error : Error) (waiting : c.phase = .allocating ∨ ∃ i sent, c.phase = .visiting i sent) :
      Moves n token now log c event (c.fail error) []
  | rollback (error : Error) (stage : c.phase = .visiting i sent) :
      Moves n token now log c event (c.fail error) (c.acquired.map fun i => ⟨token, i, .release⟩)
  | allocate (stage : c.phase = .visiting i sent) (majority : quorum n ≤ c.acquired.length) :
      Moves n token now log c event { c with phase := .allocating } [⟨token, 0, .incr⟩]
  | hold (waiting : c.phase = .allocating) (ran : e ∈ log) (asked : e.request = ⟨token, 0, .incr⟩)
      (answered : e.reply = .ok (status, value)) :
      Moves n token now log c event { c with phase := .holding ⟨value.toNat⟩ now none } []
  | extend (ttl : Duration) (held : c.phase = .holding fence returned none) :
      Moves n token now log c (.extend ttl) c
        ((List.range n).map fun i => ⟨token, i, .extend ttl.asMillisU64⟩)
  | release (held : c.phase = .holding fence returned none) :
      Moves n token now log c event { c with phase := .holding fence returned (some now) }
        ((List.range n).map fun i => ⟨token, i, .release⟩)

theorem step_moves {c d : Client} (stepped : c.step n key token now log event = some (d, sent)) :
    c.Moves n token now log event d sent := by
  cases event with
  | answer =>
    simp only [step] at stepped
    split at stepped <;> [skip; contradiction]
    split at stepped <;> [contradiction; skip]
    rename_i stage _ e found
    have ran := List.mem_of_find?_eq_some found
    have asked := of_decide_eq_true (List.find?_some found :)
    split at stepped <;> [skip; contradiction]
    split at stepped <;> cases stepped
    · exact .take stage ‹_› ran asked (by simp [Execution.granted, *])
    · exact .take stage ‹_› ran asked (by simp [Execution.granted, *])
    · exact .pass stage ‹_›
    · exact .abort _ (.inr ⟨_, _, stage⟩)
  | refuse message =>
    simp only [step] at stepped
    split at stepped <;> [skip; contradiction]
    split at stepped <;> cases stepped
    exact .abort _ (.inr ⟨_, _, ‹_›⟩)
  | elapse =>
    simp only [step] at stepped
    split at stepped <;> [skip; contradiction]
    split at stepped <;> cases stepped
    rename_i elapsed
    exact .pass ‹_› elapsed.1
  | check =>
    simp only [step] at stepped
    split at stepped <;> [skip; contradiction]
    split at stepped <;> [contradiction; skip]
    split at stepped <;> cases stepped
    · rename_i enough
      exact .allocate ‹_› enough.1
    · exact .rollback _ ‹_›
  | allocated =>
    simp only [step] at stepped
    split at stepped <;> [skip; contradiction]
    split at stepped <;> [contradiction; skip]
    rename_i found
    split at stepped <;> cases stepped
    · exact .hold ‹_› (List.mem_of_find?_eq_some found)
        (of_decide_eq_true (List.find?_some found :)) ‹_›
    · exact .abort _ (.inl ‹_›)
  | unreachable message =>
    simp only [step] at stepped
    split at stepped <;> cases stepped
    exact .abort _ (.inl ‹_›)
  | extend ttl =>
    simp only [step] at stepped
    split at stepped <;> [skip; contradiction]
    split at stepped <;> cases stepped
    exact .extend ttl ‹_›
  | release =>
    simp only [step] at stepped
    split at stepped <;> cases stepped
    exact .release ‹_›

end Client

structure Ring where
  now : Nat
  nodes : Nat → Keyspace
  wire : List Request
  log : List Execution
  clients : String → Option Client

inductive Action where
  | start (token : String) (options : LockOptions)
  | client (token : String) (event : Event)
  | run (request : Request)
  deriving DecidableEq

structure Timed where
  delay : Nat
  action : Action
  deriving DecidableEq

namespace Ring

def put (s : Ring) (token : String) (client : Client) (sent : List Request) : Ring :=
  { s with
    clients := Function.update s.clients token (some client)
    wire := sent ++ s.wire }

theorem put_clients {s : Ring} (found : (s.put token d sent).clients other = some c) :
    (other = token ∧ c = d) ∨ (other ≠ token ∧ s.clients other = some c) := by
  rcases update_eq_some found with ⟨same, entry⟩ | old
  · exact .inl ⟨same, (Option.some.inj entry).symm⟩
  · exact .inr old

/-- A call begins. Refused options end it before anything is sent. -/
def start (n : Nat) (s : Ring) (token : String) (options : LockOptions) : Ring :=
  let client : Client := ⟨options.ttl, s.now, [], none, .visiting 0 s.now⟩
  match options.validate with
  | .error error => s.put token (client.fail error) []
  | .ok () => s.put token (client.visit token n 0 s.now).1 (client.visit token n 0 s.now).2

def run (key : String) (s : Ring) (r : Request) : Ring :=
  let (reply, db) := (r.command.script key r.token).exec s.now (s.nodes r.node)
  { s with
    nodes := Function.update s.nodes r.node db
    wire := s.wire.erase r
    log := ⟨r, s.now, reply⟩ :: s.log }

def wait (s : Ring) (delay : Nat) : Ring := { s with now := s.now + delay }

def act (n : Nat) (key : String) (s : Ring) : Action → Option Ring
  | .start token options => if s.clients token = none then some (s.start n token options) else none
  | .client token event =>
    match s.clients token with
    | none => none
    | some client =>
      match client.step n key token s.now s.log event with
      | none => none
      | some (client, sent) => some (s.put token client sent)
  | .run request => if request ∈ s.wire then some (s.run key request) else none

end Ring

/-- The ring before the first call: the stores are arbitrary, except that the
fence allocator, where it exists, is a counter without an expiry. -/
def ring (n : Nat) (key : String) : Machine Ring Timed where
  initial s := s.wire = [] ∧ s.log = [] ∧ (∀ token, s.clients token = none) ∧
    ∀ entry, s.nodes 0 allocatorKey = some entry → ∃ value ≥ 0, entry = ⟨.string (.int value), none⟩
  step s timed := (s.wait timed.delay).act n key timed.action

def Ring.fresh : Ring := ⟨0, fun _ _ => none, [], [], fun _ => none⟩

theorem Ring.fresh_initial (n : Nat) (key : String) : (ring n key).initial .fresh :=
  ⟨rfl, rfl, fun _ => rfl, by simp [Ring.fresh]⟩

def oneSecond : Duration := .fromMillis 1000

/-- After a delay, a call whose requests all run and are answered at once, up to
its check. -/
def collects (n : Nat) (token : String) (ttl : Duration) (delay : Nat) : List Timed :=
  ⟨delay, .start token ⟨ttl⟩⟩ ::
  (List.range n).flatMap (fun i =>
    [⟨0, .run ⟨token, i, .acquire ttl.asMillisU64⟩⟩, ⟨0, .client token .answer⟩]) ++
  [⟨0, .client token .check⟩]

def allocates (token : String) : List Timed :=
  [⟨0, .run ⟨token, 0, .incr⟩⟩, ⟨0, .client token .allocated⟩]

def undisturbed (n : Nat) (token : String) (ttl : Duration) (delay : Nat) : List Timed :=
  collects n token ttl delay ++ allocates token

/-- What is true at the start and survives waiting, new calls, callers' moves and
executions is true throughout the runs allowed by `ok`. -/
theorem ring_invariant {ok : Ring → Timed → Prop} {P : Ring → Prop}
    (initial : ∀ s, (ring n key).initial s → P s)
    (wait : ∀ s delay, P s → P (s.wait delay))
    (start : ∀ s token options, P s → s.clients token = none → P (s.start n token options))
    (client : ∀ s delay token event c d sent, P (s.wait delay) →
      ok s ⟨delay, .client token event⟩ → s.clients token = some c →
      c.Moves n token (s.wait delay).now s.log event d sent → P ((s.wait delay).put token d sent))
    (run : ∀ s delay request, P (s.wait delay) → ok s ⟨delay, .run request⟩ →
      request ∈ s.wire → P ((s.wait delay).run key request))
    (reach : (ring n key).ReachableWhen ok s) : P s := by
  refine Machine.ReachableWhen.invariant initial ?_ reach
  rintro s ⟨delay, action⟩ t held allowed stepped
  have waited := wait s delay held
  simp only [ring, Ring.act] at stepped
  cases action with
  | start token options =>
    simp only at stepped
    split at stepped <;> cases stepped
    exact start _ token options waited ‹_›
  | client token event =>
    simp only at stepped
    split at stepped <;> [contradiction; skip]
    split at stepped <;> cases stepped
    exact client s delay token event _ _ _ waited allowed ‹_› (Client.step_moves ‹_›)
  | run request =>
    simp only at stepped
    split at stepped <;> cases stepped
    exact run s delay request waited allowed ‹_›

/-! What an execution does to the lock key of its node. -/

theorem holder_eq_none_of_int {key : String} {db : Keyspace} {value : Int} {stop : Option Nat}
    (stored : db key = some ⟨.string (.int value), stop⟩) (instant : Nat) :
    holder key db instant = none := by
  unfold holder
  cases seen : db.lookup instant key with
  | none => rfl
  | some entry =>
    cases Option.some.inj ((Keyspace.lookup_eq_some.mp seen).1.symm.trans stored)
    rfl

theorem incr_step {key counter : String} {db : Keyspace} {now : Nat} :
    Step now (holder key db) (holder key ((Script.incr counter).exec now db).2) .idle := by
  refine .idle fun instant later => ?_
  by_cases same : key = counter
  · subst same
    rw [Script.exec_incr]
    match found : db.lookup now key with
    | none =>
      have gone : db.lookup instant key = none := Keyspace.lookup_missing later found
      rw [holder_eq_none_of_int Keyspace.put_self]
      simp [holder, gone]
    | some ⟨.string (.int value), stop⟩ =>
      rw [holder_eq_none_of_int (Keyspace.lookup_eq_some.mp found).1,
        holder_eq_none_of_int Keyspace.put_self]
    | some ⟨.string (.raw _), _⟩ | some ⟨.hash _, _⟩ | some ⟨.zset _, _⟩ | some ⟨.list _, _⟩ => rfl
  · rw [holder_congr (Script.leaves_incr same now db)]

/-- The lease event of an execution. Only a release by the token frees its hold,
and a grant or renewal runs for the lease its request asks for. -/
theorem command_step (key token : String) (command : Command) (db : Keyspace) (now : Nat) :
    ∃ event, Step now (holder key db) (holder key ((command.script key token).exec now db).2) event ∧
      (∀ who, event = .free who → command = .release ∧ who = token) ∧
      (∀ who lease, event = .renew who lease →
        (command = .acquire lease ∨ command = .extend lease) ∧ who = token) ∧
      ∀ lease status fence, command = .acquire lease →
        ((command.script key token).exec now db).1 = .ok (status, fence) →
        status = 1 ∨ status = 2 → event = .grant token lease ∨ event = .renew token lease := by
  have distinct := (fenceKeyFor_ne key).symm
  cases command with
  | acquire ttlMs =>
    obtain ⟨event, step, shape, reported⟩ := acquire_step distinct
      (show (Single.acquire key (fenceKeyFor key) token ttlMs (ttlMs * 10 % 2 ^ 64)).exec now db =
        (_, _) from rfl)
    refine ⟨event, step, ?_, ?_, ?_⟩
    · rintro who rfl
      simp at shape
    · rintro who lease rfl
      simp only [reduceCtorEq, Event.renew.injEq, false_or] at shape
      obtain ⟨rfl, rfl⟩ := shape
      exact ⟨.inl rfl, rfl⟩
    · rintro lease status fence ⟨⟩ answered granted
      rw [reported status fence answered]
      rcases granted with rfl | rfl
      · exact .inl rfl
      · exact .inr rfl
  | extend ttlMs =>
    rcases ran : (Single.extend key (fenceKeyFor key) token ttlMs (ttlMs * 10 % 2 ^ 64)).exec now db
      with ⟨reply, after⟩
    have state : (((Command.extend ttlMs).script key token).exec now db).2 = after := by
      rw [Command.script, Script.state_bind_pure, ran]
    refine ⟨_, state ▸ extend_step distinct ran, ?_, ?_, by simp⟩
    · intro who freed
      split at freed <;> cases freed
    · intro who lease renewed
      split at renewed <;> cases renewed
      exact ⟨.inr rfl, rfl⟩
  | release =>
    rcases ran : (Single.release key token).exec now db with ⟨reply, after⟩
    have state : ((Command.release.script key token).exec now db).2 = after := by
      rw [Command.script, Script.state_bind_pure, ran]
    refine ⟨_, state ▸ release_step ran, ?_, ?_, by simp⟩
    · intro who freed
      split at freed <;> cases freed
      exact ⟨rfl, rfl⟩
    · intro who lease renewed
      split at renewed <;> cases renewed
  | incr =>
    have state : ((Command.incr.script key token).exec now db).2 =
        ((Script.incr allocatorKey).exec now db).2 := by
      rw [Command.script, Script.state_bind_pure]
    exact ⟨_, state ▸ incr_step, by simp, by simp, by simp⟩

end Palisade.Redlock
