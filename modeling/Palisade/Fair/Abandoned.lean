import Palisade.Fair.Queue

/-! The callers of the fair mutex. A call mints a token, polls with it and returns; its entry
in the queue and its heartbeat stay behind. Calls poll and handles are released at any
instants, with the arguments that the scripts document. A poll whose answer is lost makes the
call fail, and may run after that. -/
namespace Palisade.Fair
open Redis Single Transition

/-- Where a call of `try_lock_fair` or `try_lock_fair_for` stands, and then its handle. -/
inductive Progress where
  | starting
  /-- The last poll found the lock held. -/
  | waiting
  | granted
  /-- It returned `Held`, or `Timeout`. -/
  | abandoned
  /-- It returned a backend error; its last poll may be under way. -/
  | failed (underway : Bool)
  | released
  deriving DecidableEq

structure Caller where
  token : String
  ttl : Nat
  /-- A call of `try_lock_fair_for`, which polls until its time is over. -/
  waits : Bool
  progress : Progress
  deriving DecidableEq

/-- `received` are the tokens that became the value of the lock key after their call was
abandoned; no code reads it. -/
structure Callers where
  now : Nat
  db : Keyspace
  calls : List Caller
  received : List String

inductive CallerAction where
  /-- Tokens are fresh. -/
  | begin (token : String) (ttl : Nat) (waits : Bool)
  | poll (i : Nat)
  /-- A poll is not answered; it has run, or is under way. -/
  | fail (i : Nat) (ran : Bool)
  | late (i : Nat)
  /-- The call returns `Held` after its one poll, or `Timeout` after one of many. -/
  | giveUp (i : Nat)
  | release (i : Nat)
  deriving DecidableEq

structure CallerMoment where
  delay : Nat
  action : CallerAction
  deriving DecidableEq

/-- The script of `try_lock_fair_as`. -/
def Caller.poll (caller : Caller) : Call := .acquire caller.token caller.ttl (max caller.ttl 2000)

/-- The script of a handle's `release`. -/
def Caller.releases (caller : Caller) : Call := .release caller.token 30000

/-- The call goes on to poll: `try_lock_fair` does it once. -/
def Caller.polls (caller : Caller) : Bool :=
  caller.progress == .starting || (caller.waits && caller.progress == .waiting)

/-- What the call makes of the answer to a poll. -/
def answered : Except Fault (Int × Int) → Progress
  | .error _ => .failed false
  | .ok (status, _) => if status = 1 ∨ status = 2 then .granted else .waiting

namespace Callers

def wait (s : Callers) (delay : Nat) : Callers := { s with now := s.now + delay }

def isAbandoned (s : Callers) (token : String) : Bool :=
  s.calls.any fun caller => decide (caller.progress = .abandoned ∧ caller.token = token)

/-- A script has run. -/
def store (key : String) (s : Callers) (db : Keyspace) : Callers :=
  { s with
    db
    received := match holder key db s.now with
      | some token =>
        if holder key s.db s.now ≠ some token ∧ s.isAbandoned token = true then token :: s.received
        else s.received
      | none => s.received }

def set (s : Callers) (i : Nat) (caller : Caller) (progress : Progress) : Callers :=
  { s with calls := s.calls.set i { caller with progress } }

/-- A script runs whose answer nobody waits for. -/
def run (key : String) (s : Callers) (call : Call) : Callers :=
  s.store key ((call.script key).exec s.now s.db).2

def act (key : String) (s : Callers) : CallerAction → Option Callers
  | .begin token ttl waits =>
    if 0 < ttl ∧ ∀ caller ∈ s.calls, caller.token ≠ token then
      some { s with calls := s.calls ++ [⟨token, ttl, waits, .starting⟩] }
    else none
  | .poll i => do
    let caller ← s.calls[i]?
    if caller.polls then
      let (reply, db) := (caller.poll.script key).exec s.now s.db
      some ((s.store key db).set i caller (answered reply))
    else none
  | .fail i ran => do
    let caller ← s.calls[i]?
    if caller.polls then
      some ((if ran then s.run key caller.poll else s).set i caller (.failed !ran))
    else none
  | .late i => do
    let caller ← s.calls[i]?
    if caller.progress = .failed true then some ((s.run key caller.poll).set i caller (.failed false)) else none
  | .giveUp i => do
    let caller ← s.calls[i]?
    if caller.progress = .waiting then some (s.set i caller .abandoned) else none
  | .release i => do
    let caller ← s.calls[i]?
    if caller.progress = .granted then some ((s.run key caller.releases).set i caller .released) else none

end Callers

/-- The keys of the lock start out absent; the rest of the store is arbitrary. -/
def callers (key : String) : Machine Callers CallerMoment where
  initial s := s.db key = none ∧ s.db (queueKeyFor key) = none ∧ s.db (fenceKeyFor key) = none ∧
    (∀ token, s.db (hbKeyFor key token) = none) ∧ s.calls = [] ∧ s.received = []
  step s moment := (s.wait moment.delay).act key moment.action

/-- Who gets the lock when the token releases it: the oldest waiter that beats. -/
def Callers.heir (key : String) (s : Callers) (token : String) : Option String :=
  if holder key s.db s.now = some token then (view key s.db s.now).alive.getLast? else none

/-- A release finds no waiter that beats, or the oldest of them is not abandoned. -/
def Callers.Attended (key : String) (s : Callers) (moment : CallerMoment) : Prop :=
  match moment.action with
  | .release i => ((s.wait moment.delay).calls[i]?).all (fun caller =>
      ((s.wait moment.delay).heir key caller.token).all fun oldest => !s.isAbandoned oldest) = true
  | _ => True

instance (key : String) (s : Callers) (moment : CallerMoment) : Decidable (s.Attended key moment) :=
  match moment with
  | ⟨_, .release _⟩ => inferInstanceAs (Decidable (_ = true))
  | ⟨_, .begin _ _ _⟩ | ⟨_, .poll _⟩ | ⟨_, .fail _ _⟩ | ⟨_, .late _⟩ | ⟨_, .giveUp _⟩ => isTrue trivial

namespace Line
variable {line : Line}

/-- Whom a call can make the new holder. -/
inductive Gives (line : Line) : Call → String → Prop where
  | polls : Gives line (.acquire token ttl hbTtl) token
  | hands : line.holder.map Prod.fst = some token → line.alive.getLast? = some oldest →
      Gives line (.release token ttl) oldest

theorem Effect.gives {after : Line} (effect : line.Effect now call status after) {owner : String}
    (holds : after.holder.map Prod.fst = some owner) :
    line.holder.map Prod.fst = some owner ∨ line.Gives call owner := by
  cases effect with
  | refreshed held =>
    cases holds
    exact .inr .polls
  | queued held other => exact .inl holds
  | granted free dead =>
    cases holds
    exact .inr .polls
  | promoted free last =>
    cases holds
    exact .inr .polls
  | blocked free last other => exact .inl holds
  | freed held dead => simp at holds
  | handed held last =>
    cases holds
    exact .inr (.hands (by simp [held]) last)
  | refused absent => exact .inl holds

end Line

theorem Sound.holder_eq (sound : Sound key db) (now : Nat) :
    holder key db now = (view key db now).holder.map Prod.fst := by
  unfold holder
  rcases sound.lookup_lock now with ⟨free, absent⟩ | ⟨token, stop, held, present⟩
  · rw [free, absent]
    rfl
  · rw [held, present]
    rfl

namespace Callers

structure Inv (key : String) (s : Callers) : Prop where
  sound : Sound key s.db
  distinct : Distinct Caller.token s.calls
  positive : ∀ caller ∈ s.calls, 0 < caller.ttl
  unreceived : s.received = []

section
variable {key : String} {s : Callers} {caller : Caller} {i : Nat}

theorem store_received {db : Keyspace} (kept : ∀ owner, holder key db s.now = some owner →
    holder key s.db s.now = some owner ∨ s.isAbandoned owner = false) :
    (s.store key db).received = s.received := by
  unfold store
  dsimp only
  split
  · rename_i owner holds
    rw [if_neg]
    rintro ⟨new, abandoned⟩
    rcases kept owner holds with same | attended
    · exact new same
    · simp [attended] at abandoned
  · rfl

/-- A script that makes no abandoned token the new holder. -/
theorem Inv.run (inv : s.Inv key) {call : Call} (valid : call.valid = true)
    (attended : ∀ owner, (view key s.db s.now).Gives call owner → s.isAbandoned owner = false) :
    (s.run key call).Inv key := by
  obtain ⟨fence, after, ran, whole, seen⟩ := inv.sound.exec_call valid s.now
  have effect := (view key s.db s.now).effect s.now call
  rw [← seen] at effect
  have ends : s.run key call = s.store key after := by rw [Callers.run, ran]
  rw [ends]
  refine ⟨whole, inv.distinct, inv.positive, ?_⟩
  rw [store_received, inv.unreceived]
  intro owner holds
  rw [whole.holder_eq] at holds
  rw [inv.sound.holder_eq]
  exact (effect.gives holds).imp_right (attended owner)

theorem Inv.set (inv : s.Inv key) (here : s.calls[i]? = some caller) (progress : Progress) :
    (s.set i caller progress).Inv key where
  sound := inv.sound
  distinct := inv.distinct.set here rfl
  positive found member := by
    rcases List.mem_or_eq_of_mem_set member with before | rfl
    · exact inv.positive found before
    · exact inv.positive caller (List.mem_of_getElem? here)
  unreceived := inv.unreceived

theorem Inv.wait (inv : s.Inv key) (delay : Nat) : (s.wait delay).Inv key :=
  ⟨inv.sound, inv.distinct, inv.positive, inv.unreceived⟩

/-- Tokens are fresh: nobody else is behind this one. -/
theorem Inv.isAbandoned_eq (inv : s.Inv key) (here : s.calls[i]? = some caller)
    (active : caller.progress ≠ .abandoned) : s.isAbandoned caller.token = false := by
  simp only [isAbandoned, List.any_eq_false, decide_eq_true_eq]
  rintro other member ⟨abandoned, same⟩
  obtain ⟨j, there⟩ := List.mem_iff_getElem?.mp member
  obtain rfl := inv.distinct j i other caller there here same
  cases there.symm.trans here
  exact active abandoned

theorem Inv.poll (inv : s.Inv key) (here : s.calls[i]? = some caller)
    (active : caller.progress ≠ .abandoned) : (s.run key caller.poll).Inv key := by
  have positive := inv.positive caller (List.mem_of_getElem? here)
  apply inv.run
  · exact decide_eq_true ⟨positive, lt_of_lt_of_le positive (Nat.le_max_left ..)⟩
  · rintro owner ⟨⟩
    exact inv.isAbandoned_eq here active

theorem polls_active (polls : caller.polls = true) : caller.progress ≠ .abandoned := by
  intro abandoned
  simp [Caller.polls, abandoned] at polls

theorem Inv.begin (inv : s.Inv key) {token : String} {ttl : Nat} {waits : Bool} (positive : 0 < ttl)
    (unused : ∀ caller ∈ s.calls, caller.token ≠ token) :
    { s with calls := s.calls ++ [⟨token, ttl, waits, .starting⟩] : Callers }.Inv key where
  sound := inv.sound
  distinct := inv.distinct.concat unused
  positive caller member := by
    rcases List.mem_append.mp member with before | last
    · exact inv.positive caller before
    · rw [List.mem_singleton.mp last]
      exact positive
  unreceived := inv.unreceived

theorem Inv.release (inv : s.Inv key) (attended : (s.heir key caller.token).all (!s.isAbandoned ·) = true) :
    (s.run key caller.releases).Inv key := by
  apply inv.run
  · rfl
  · rintro owner given
    cases given with
    | hands held last =>
      rw [← inv.sound.holder_eq] at held
      rw [heir, if_pos held, last] at attended
      simpa using attended

theorem Inv.step {t : Callers} {moment : CallerMoment} (inv : s.Inv key)
    (attended : s.Attended key moment) (stepped : (callers key).step s moment = some t) :
    t.Inv key := by
  obtain ⟨delay, action⟩ := moment
  replace inv := inv.wait delay
  replace stepped : (s.wait delay).act key action = some t := stepped
  cases action with
  | begin token ttl waits =>
    obtain ⟨⟨positive, unused⟩, ⟨⟩⟩ := Option.ite_none_right_eq_some.mp stepped
    exact inv.begin positive unused
  | poll i =>
    obtain ⟨caller, here, stepped⟩ := Option.bind_eq_some_iff.mp stepped
    obtain ⟨polls, ⟨⟩⟩ := Option.ite_none_right_eq_some.mp stepped
    exact (inv.poll here (polls_active polls)).set here _
  | fail i ran =>
    obtain ⟨caller, here, stepped⟩ := Option.bind_eq_some_iff.mp stepped
    obtain ⟨polls, ⟨⟩⟩ := Option.ite_none_right_eq_some.mp stepped
    cases ran with
    | false => exact inv.set here _
    | true => exact (inv.poll here (polls_active polls)).set here _
  | late i =>
    obtain ⟨caller, here, stepped⟩ := Option.bind_eq_some_iff.mp stepped
    obtain ⟨underway, ⟨⟩⟩ := Option.ite_none_right_eq_some.mp stepped
    exact (inv.poll here (by simp [underway])).set here _
  | giveUp i =>
    obtain ⟨caller, here, stepped⟩ := Option.bind_eq_some_iff.mp stepped
    obtain ⟨_, ⟨⟩⟩ := Option.ite_none_right_eq_some.mp stepped
    exact inv.set here _
  | release i =>
    obtain ⟨caller, here, stepped⟩ := Option.bind_eq_some_iff.mp stepped
    obtain ⟨_, ⟨⟩⟩ := Option.ite_none_right_eq_some.mp stepped
    have unabandoned : ((s.wait delay).heir key caller.token).all (!s.isAbandoned ·) = true := by
      simpa [Attended, here] using attended
    exact (inv.release unabandoned).set here _

end

def fresh : Callers := ⟨0, fun _ => none, [], []⟩

theorem fresh_initial (key : String) : (callers key).initial .fresh :=
  ⟨rfl, rfl, rfl, fun _ => rfl, rfl, rfl⟩

end Callers

/-- Where every release finds the oldest beating waiter still there, no token becomes the
value of the lock key after its call was abandoned. -/
theorem abandoned_never_receives {key : String} {s : Callers}
    (reach : (callers key).ReachableWhen (Callers.Attended key) s) : s.received = [] := by
  have inv : s.Inv key := by
    refine reach.invariant ?_ fun s moment t inv attended stepped => inv.step attended stepped
    rintro s ⟨lock, queue, counter, beats, none, unreceived⟩
    refine ⟨.absent lock queue counter beats, ?_, ?_, unreceived⟩
    · simp [none, Distinct]
    · simp [none]
  exact inv.unreceived

/-- One call is told that the lock is held and its heartbeat ends; another one waits, is
handed the lock and finds it. -/
theorem abandoned_never_receives_waiter : ∃ s : Callers, s.received = [] ∧
    holder "orders" s.db s.now = some "c" ∧
    s.calls.map Caller.progress = [.released, .abandoned, .granted] := by
  obtain ⟨s, reach, facts⟩ := Machine.exists_reachableWhen (Callers.Attended "orders")
    (fun s : Callers => holder "orders" s.db s.now = some "c" ∧
      s.calls.map Caller.progress = [.released, .abandoned, .granted])
    (Callers.fresh_initial "orders")
    [⟨0, .begin "a" 5000 false⟩, ⟨0, .poll 0⟩, ⟨0, .begin "b" 1000 false⟩, ⟨10, .poll 1⟩,
      ⟨0, .giveUp 1⟩, ⟨0, .begin "c" 1000 true⟩, ⟨1000, .poll 2⟩, ⟨1500, .release 0⟩, ⟨50, .poll 2⟩]
    (by decide)
  exact ⟨s, abandoned_never_receives reach, facts⟩

/-- A call that asked once is handed the lock after it was told that the lock is held. -/
theorem abandoned_receives : ¬ ∀ s, (callers "orders").Reachable s → s.received = [] := by
  intro always
  obtain ⟨s, reach, received⟩ := Machine.exists_reachableWhen (fun _ _ => True)
    (fun s : Callers => s.received = ["b"])
    (Callers.fresh_initial "orders")
    [⟨0, .begin "a" 1000 false⟩, ⟨0, .poll 0⟩, ⟨0, .begin "b" 1000 false⟩, ⟨10, .poll 1⟩,
      ⟨0, .giveUp 1⟩, ⟨10, .release 0⟩]
    (by decide)
  rw [always s reach] at received
  contradiction

end Palisade.Fair
