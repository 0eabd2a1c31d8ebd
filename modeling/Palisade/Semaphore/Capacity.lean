import Palisade.Transition
import Palisade.Lease
import Palisade.Semaphore.Scripts

/-! Permits and runs of a semaphore on one key. As for the other handles, a call
sends its script and handles the reply later. The ledger keeps the last grant or
successful extension of every permit whose release has not succeeded; no script
and no handle reads it. -/
namespace Palisade.Semaphore
open Redis Single Lease Transition

/-- State shared by the clones of a permit; `gone` once it is released, dropped or lost. -/
structure PermitShared where
  key : String
  token : String
  fence : FencingToken
  gone : Bool
  deriving DecidableEq

abbrev Reply := Except Fault (Nat × Int)

namespace PermitShared

def lost (h : PermitShared) : Error := .lost h.key h.fence.value

/-- The request `extend` sends, or the error it returns at once. -/
def extendRequest (h : PermitShared) (ttl : Duration) : Except Error Command :=
  if ttl.nanos < minTtl.nanos then
    .error (.invalidConfig s!"extend ttl {ttl.debug} is below the {minTtl.debug} floor")
  else if h.gone then .error h.lost
  else .ok (.extend ttl.asMillisU64)

def extendReply (h : PermitShared) : Reply → Except Error Unit × PermitShared
  | .error fault => (.error (.backend s!"semaphore extend failed: {fault.text}"), h)
  | .ok (status, _) => if status ≠ 1 then (.error h.lost, { h with gone := true }) else (.ok (), h)

def releaseReply (h : PermitShared) : Reply → Except Error Unit
  | .error fault => .error (.backend s!"semaphore release failed: {fault.text}")
  | .ok (status, _) => if status ≠ 1 then .error h.lost else .ok ()

end PermitShared

/-- The request `try_acquire` sends. -/
def acquireRequest (options : LockOptions) : Except Error Command := do
  options.validate
  return .acquire options.ttl.asMillisU64

def acquireReply (key token : String) : Reply → Except Error PermitShared
  | .error fault => .error (.backend s!"semaphore acquire failed: {fault.text}")
  | .ok (status, fence) =>
    if status ≠ 1 then .error (.held key) else .ok ⟨key, token, ⟨fence.toNat⟩, false⟩

structure Request where
  token : String
  command : Command
  deriving DecidableEq

structure Execution where
  request : Request
  reply : Reply
  deriving DecidableEq

/-- What a call amounts to so far. -/
inductive Caller where
  | asking
  | holding (shared : PermitShared)
  | refused (error : Error)
  deriving DecidableEq

/-- The ledger after a script answered at `now`. -/
def record (leases : Ledger String) (now : Nat) (token : String) : Command → Reply → Ledger String
  | .acquire ttl, .ok (1, _) | .extend ttl, .ok (1, _) =>
    Function.update leases token (some ⟨now, ttl⟩)
  | .release, .ok (1, _) => Function.update leases token none
  | _, _ => leases

structure Permits where
  now : Nat
  db : Keyspace
  wire : List Request
  log : List Execution
  callers : String → Option Caller
  leases : Ledger String

inductive Action where
  /-- `try_acquire` is called; tokens are fresh. -/
  | ask (token : String) (options : LockOptions)
  /-- The reply to that call's script arrives. -/
  | answer (execution : Execution)
  | extend (token : String) (ttl : Duration)
  | extended (execution : Execution)
  /-- The permit is released or its last clone dropped: both send the same script. -/
  | release (token : String)
  | run (request : Request)
  deriving DecidableEq

structure Timed where
  delay : Nat
  action : Action
  deriving DecidableEq

namespace Permits

def wait (s : Permits) (delay : Nat) : Permits := { s with now := s.now + delay }

def put (s : Permits) (token : String) (caller : Caller) (sent : List Request) : Permits :=
  { s with callers := Function.update s.callers token (some caller), wire := sent ++ s.wire }

def run (key : String) (maxPermits : Nat) (s : Permits) (r : Request) : Permits :=
  let (reply, db) := (r.command.script key maxPermits r.token).exec s.now s.db
  { s with
    db
    wire := s.wire.erase r
    log := ⟨r, reply⟩ :: s.log
    leases := record s.leases s.now r.token r.command reply }

def act (key : String) (maxPermits : Nat) (s : Permits) : Action → Option Permits
  | .ask token options =>
    if s.callers token = none then
      match acquireRequest options with
      | .error error => some (s.put token (.refused error) [])
      | .ok command => some (s.put token .asking [⟨token, command⟩])
    else none
  | .answer e =>
    match s.callers e.request.token, e.request.command with
    | some .asking, .acquire _ =>
      if e ∈ s.log then
        match acquireReply key e.request.token e.reply with
        | .error error => some (s.put e.request.token (.refused error) [])
        | .ok shared => some (s.put e.request.token (.holding shared) [])
      else none
    | _, _ => none
  | .extend token ttl =>
    match s.callers token with
    | some (.holding shared) =>
      match shared.extendRequest ttl with
      | .error _ => none
      | .ok command => some (s.put token (.holding shared) [⟨token, command⟩])
    | _ => none
  | .extended e =>
    match s.callers e.request.token, e.request.command with
    | some (.holding shared), .extend _ =>
      if e ∈ s.log then some (s.put e.request.token (.holding (shared.extendReply e.reply).2) [])
      else none
    | _, _ => none
  | .release token =>
    match s.callers token with
    | some (.holding shared) =>
      if shared.gone then none
      else some (s.put token (.holding { shared with gone := true }) [⟨token, .release⟩])
    | _ => none
  | .run request => if request ∈ s.wire then some (s.run key maxPermits request) else none

/-- Only executions touch the store and the ledger. -/
theorem act_cases {s t : Permits} (stepped : s.act key maxPermits action = some t) :
    (∃ request ∈ s.wire, action = .run request ∧ t = s.run key maxPermits request) ∨
      ∃ token caller sent, t = s.put token caller sent := by
  cases action with
  | run request =>
    simp only [act] at stepped
    split at stepped <;> cases stepped
    exact .inl ⟨request, ‹_›, rfl, rfl⟩
  | ask token options =>
    simp only [act] at stepped
    split at stepped <;> [skip; contradiction]
    split at stepped <;> cases stepped <;> exact .inr ⟨_, _, _, rfl⟩
  | answer e =>
    simp only [act] at stepped
    split at stepped <;> [skip; contradiction]
    split at stepped <;> [skip; contradiction]
    split at stepped <;> cases stepped <;> exact .inr ⟨_, _, _, rfl⟩
  | extend token ttl =>
    simp only [act] at stepped
    split at stepped <;> [skip; contradiction]
    split at stepped <;> cases stepped
    exact .inr ⟨_, _, _, rfl⟩
  | extended e =>
    simp only [act] at stepped
    split at stepped <;> [skip; contradiction]
    split at stepped <;> cases stepped
    exact .inr ⟨_, _, _, rfl⟩
  | release token =>
    simp only [act] at stepped
    split at stepped <;> [skip; contradiction]
    split at stepped <;> cases stepped
    exact .inr ⟨_, _, _, rfl⟩

end Permits

/-- Both keys start out absent; the rest of the store is arbitrary. -/
def semaphore (key : String) (maxPermits : Nat) : Machine Permits Timed where
  initial s := s.db key = none ∧ s.db (fenceKeyFor key) = none ∧ s.wire = [] ∧ s.log = [] ∧
    (∀ token, s.callers token = none) ∧ ∀ token, s.leases token = none
  step s timed := (s.wait timed.delay).act key maxPermits timed.action

/-- At no instant are there more permits inside their own leases than allowed. -/
def Permits.WithinCapacity (maxPermits : Nat) (s : Permits) : Prop :=
  ∀ now, s.now ≤ now → ∀ holders : Finset String,
    (∀ token ∈ holders, ∃ term, s.leases token = some term ∧ now < term.ends) →
    holders.card ≤ maxPermits

/-- A script that rewrites the expiry of the permits, by granting or extending
one, does not end it before the lease of another. -/
def Fits (key : String) (maxPermits : Nat) (db : Keyspace) (leases : Ledger String) (now : Nat)
    (token : String) (command : Command) : Prop :=
  ∀ members, Script.ZSetAt key now db members →
    let within (ms : Nat) := ∀ other ≠ token, ∀ term, leases other = some term → term.ends ≤ now + ms
    match command with
    | .acquire ms => (pruned now members).keys.length < maxPermits → within ms
    | .extend ms => (members.lookup token).isSome → within ms
    | .release => True

def Orderly (key : String) (maxPermits : Nat) (s : Permits) : Timed → Prop
  | ⟨delay, .run ⟨token, command⟩⟩ =>
    Fits key maxPermits s.db s.leases (s.now + delay) token command
  | _ => True

/-- The entry carries a permit at least until `bound`. -/
def Carries (entry : Option Entry) (token : String) (bound : Nat) : Prop :=
  ∃ members stop, entry = some ⟨.zset members, some stop⟩ ∧ members.lookup token = some bound ∧
    bound ≤ stop

/-- Every lease that is still running is carried by the stored permits. -/
structure Backed (key : String) (maxPermits now : Nat) (db : Keyspace) (leases : Ledger String) :
    Prop where
  sound : Sound key maxPermits db
  backed : ∀ token term, leases token = some term →
    term.ends ≤ now ∨ Carries (db key) token term.ends

section
variable {key token other : String} {maxPermits now next ms : Nat} {db after : Keyspace}
  {leases : Ledger String} {members kept : ZSet} {term : Term}

theorem Backed.later (backed : Backed key maxPermits now db leases) (later : now ≤ next) :
    Backed key maxPermits next db leases := by
  refine ⟨backed.sound, fun token term held => ?_⟩
  rcases backed.backed token term held with elapsed | carried
  · exact .inl (Nat.le_trans elapsed later)
  · exact .inr carried

/-- A running lease is the score of its permit in the set the scripts see. -/
theorem Backed.score (backed : Backed key maxPermits now db leases)
    (seen : Script.ZSetAt key now db members) (held : leases token = some term)
    (running : now < term.ends) : members.lookup token = some term.ends ∧
      ∃ stop, db.lookup now key = some ⟨.zset members, some stop⟩ ∧ term.ends ≤ stop := by
  rcases backed.backed token term held with elapsed | ⟨stored, stop, entry, score, bounded⟩
  · omega
  · have found : db.lookup now key = some ⟨.zset stored, some stop⟩ :=
      Keyspace.lookup_eq_some.mpr ⟨entry, by simp; omega⟩
    rcases seen with ⟨missing, _⟩ | ⟨last, same⟩
    · cases missing.symm.trans found
    · cases Option.some.inj (same.symm.trans found)
      exact ⟨score, stop, found, bounded⟩

theorem carries_refreshed (score : members.lookup token = some term.ends) (running : now < term.ends)
    (bounded : term.ends ≤ now + ms) : Carries (refreshed now members ms) token term.ends := by
  have positive : ms ≠ 0 := by omega
  exact ⟨members, now + ms, Keyspace.refreshed_eq_some.mpr ⟨positive, rfl⟩, score, bounded⟩

/-- Taking members out leaves the expiry of the rest alone. -/
theorem Backed.carries_left (backed : Backed key maxPermits now db leases)
    (seen : Script.ZSetAt key now db members) (left : Script.Left key now db members after kept)
    (held : leases token = some term) (running : now < term.ends)
    (score : kept.lookup token = some term.ends) : Carries (after key) token term.ends := by
  obtain ⟨_, stop, found, bounded⟩ := backed.score seen held running
  rcases left.entry with ⟨unchanged, rfl⟩ | ⟨_, rfl⟩ | ⟨last, same, stays⟩
  · exact ⟨kept, stop, unchanged.trans (Keyspace.lookup_eq_some.mp found).1, score, bounded⟩
  · simp at score
  · cases Option.some.inj (same.symm.trans found)
    exact ⟨kept, stop, stays, score, bounded⟩

theorem lookup_pruned (score : members.lookup token = some bound) (running : now < bound) :
    (pruned now members).lookup token = some bound := by
  rw [pruned, Script.lookup_retain, score]
  simp [running]

/-- After a script for one permit, it is enough to carry the running leases of the others. -/
theorem backed_update {lease : Option Term} (sound : Sound key maxPermits after)
    (own : ∀ term, lease = some term → now < term.ends → Carries (after key) token term.ends)
    (others : ∀ other ≠ token, ∀ term, leases other = some term → now < term.ends →
      Carries (after key) other term.ends) :
    Backed key maxPermits now after (Function.update leases token lease) := by
  refine ⟨sound, fun other term held => ?_⟩
  rcases Nat.lt_or_ge now term.ends with running | elapsed
  · rcases update_eq_some held with ⟨rfl, given⟩ | ⟨distinct, held⟩
    · exact .inr (own term given running)
    · exact .inr (others other distinct term held running)
  · exact .inl elapsed

/-- A script that scores one permit anew and refreshes the whole set. -/
theorem backed_refresh (sound : Sound key maxPermits after)
    (stored : after key = refreshed now (kept.insert token (now + ms)) ms)
    (others : ∀ other ≠ token, ∀ term, leases other = some term → now < term.ends →
      kept.lookup other = some term.ends ∧ term.ends ≤ now + ms) :
    Backed key maxPermits now after (Function.update leases token (some ⟨now, ms⟩)) := by
  apply backed_update sound
  · rintro term ⟨⟩ running
    rw [stored]
    exact carries_refreshed (AList.lookup_insert kept) running le_rfl
  · intro other distinct term held running
    obtain ⟨score, bounded⟩ := others other distinct term held running
    rw [stored]
    exact carries_refreshed ((AList.lookup_insert_ne distinct).trans score) running bounded

theorem Backed.run (backed : Backed key maxPermits now db leases) {command : Command}
    {status : Nat} {fence : Int} (seen : Script.ZSetAt key now db members)
    (small : members.keys.length ≤ maxPermits)
    (fits : Fits key maxPermits db leases now token command)
    (effect : Effect key maxPermits db now token members command status (after key))
    (counts : Counts key after) :
    Backed key maxPermits now after (record leases now token command (.ok (status, fence))) := by
  have sound := effect.sound backed.sound small counts
  generalize entry : after key = left at effect
  cases effect with
  | grant room =>
    apply backed_refresh sound entry
    intro other distinct term held running
    have score := (backed.score seen held running).1
    exact ⟨lookup_pruned score running, fits members seen room other distinct term held⟩
  | full taken left =>
    refine ⟨sound, fun other term held => ?_⟩
    rcases Nat.lt_or_ge now term.ends with running | elapsed
    · have score := (backed.score seen held running).1
      rw [entry]
      exact .inr (backed.carries_left seen left held running (lookup_pruned score running))
    · exact .inl elapsed
  | extend member =>
    apply backed_refresh sound entry
    intro other distinct term held running
    exact ⟨(backed.score seen held running).1, fits members seen member other distinct term held⟩
  | release member left =>
    apply backed_update sound (by simp)
    intro other distinct term held running
    have score := (backed.score seen held running).1
    rw [entry]
    exact backed.carries_left seen left held running
      ((AList.lookup_erase_ne distinct).trans score)
  | deny stranger other =>
    have same : record leases now token command (.ok (0, fence)) = leases := by
      cases command <;> rfl
    rw [same]
    exact ⟨sound, fun token term held => entry ▸ backed.backed token term held⟩

/-- The holders of running leases are members of the stored set. -/
theorem Backed.capacity (backed : Backed key maxPermits now db leases) {holders : Finset String}
    (running : ∀ token ∈ holders, ∃ term, leases token = some term ∧ now < term.ends) :
    holders.card ≤ maxPermits := by
  obtain ⟨members, seen, small⟩ := backed.sound.view now
  have stored : holders ⊆ members.keys.toFinset := by
    intro token held
    obtain ⟨term, held, running⟩ := running token held
    have score := (backed.score seen held running).1
    exact List.mem_toFinset.mpr (AList.mem_keys.mp (AList.lookup_isSome.mp (by simp [score])))
  calc holders.card ≤ members.keys.toFinset.card := Finset.card_le_card stored
    _ ≤ members.keys.length := List.toFinset_card_le _
    _ ≤ maxPermits := small

end

theorem Permits.backed_reachable {s : Permits}
    (reach : (semaphore key maxPermits).ReachableWhen (Orderly key maxPermits) s) :
    Backed key maxPermits s.now s.db s.leases := by
  refine Machine.ReachableWhen.invariant
    (P := fun s : Permits => Backed key maxPermits s.now s.db s.leases) ?_ ?_ reach
  · rintro s ⟨permits, counter, _, _, _, leases⟩
    exact ⟨⟨by simp [permits], by simp [Counts, counter]⟩, by simp [leases]⟩
  · rintro s ⟨delay, action⟩ t backed orderly stepped
    have waited := backed.later (Nat.le_add_right s.now delay)
    rcases Permits.act_cases stepped with ⟨⟨token, command⟩, _, rfl, rfl⟩ | ⟨token, caller, sent, rfl⟩
    · obtain ⟨members, seen, small⟩ := backed.sound.view (s.now + delay)
      obtain ⟨status, fence, after, ran, effect, counts⟩ : Answers key maxPermits s.db
        (s.now + delay) token members command := answers seen backed.sound.counter command
      simp only [Permits.run, Permits.wait, ran]
      exact waited.run seen small orderly effect counts
    · exact waited

/-- There are never more running permits than allowed in the runs where no grant
or extension of one permit ends the shared expiry before the lease of another. -/
theorem capacity_respected {s : Permits}
    (reach : (semaphore key maxPermits).ReachableWhen (Orderly key maxPermits) s) :
    s.WithinCapacity maxPermits := by
  intro now later holders running
  exact ((Permits.backed_reachable reach).later later).capacity running

/-- Only a grant or an extension puts a lease on the ledger. -/
theorem record_eq_some {leases : Ledger String} {reply : Reply}
    (held : record leases now token command reply other = some term) :
    leases other = some term ∨
      term.start = now ∧ (command = .acquire term.lease ∨ command = .extend term.lease) := by
  unfold record at held
  split at held
  · rcases update_eq_some held with ⟨rfl, given⟩ | ⟨_, old⟩
    · cases given
      exact .inr ⟨rfl, .inl rfl⟩
    · exact .inl old
  · rcases update_eq_some held with ⟨rfl, given⟩ | ⟨_, old⟩
    · cases given
      exact .inr ⟨rfl, .inr rfl⟩
    · exact .inl old
  · rcases update_eq_some held with ⟨rfl, given⟩ | ⟨_, old⟩
    · contradiction
    · exact .inl old
  · exact .inl held

/-- Every permit is leased for the same time. -/
def Uniform (lease : Nat) (_ : Permits) : Timed → Prop
  | ⟨_, .run ⟨_, .acquire ms⟩⟩ | ⟨_, .run ⟨_, .extend ms⟩⟩ => ms = lease
  | _ => True

instance (lease : Nat) (s : Permits) (timed : Timed) : Decidable (Uniform lease s timed) :=
  match timed with
  | ⟨_, .run ⟨_, .acquire _⟩⟩ | ⟨_, .run ⟨_, .extend _⟩⟩ => inferInstanceAs (Decidable (_ = _))
  | ⟨_, .run ⟨_, .release⟩⟩ | ⟨_, .ask _ _⟩ | ⟨_, .answer _⟩ | ⟨_, .extend _ _⟩ | ⟨_, .extended _⟩
  | ⟨_, .release _⟩ => isTrue trivial

/-- With one lease for all permits, a later refresh never ends an earlier lease. -/
theorem orderly_of_uniform {s : Permits}
    (reach : (semaphore key maxPermits).ReachableWhen (Uniform lease) s) :
    (semaphore key maxPermits).ReachableWhen (Orderly key maxPermits) s ∧
      ∀ token term, s.leases token = some term → term.lease = lease ∧ term.start ≤ s.now := by
  induction reach with
  | initial first => exact ⟨.initial first, by simp [first.2.2.2.2.2]⟩
  | @next s timed t _ uniform stepped ih =>
    obtain ⟨reach, ledger⟩ := ih
    obtain ⟨delay, action⟩ := timed
    have within (token : String) : ∀ other ≠ token, ∀ term, s.leases other = some term →
        term.ends ≤ s.now + delay + lease := by
      intro other _ term held
      obtain ⟨rfl, early⟩ := ledger other term held
      unfold Term.ends
      omega
    have orderly : Orderly key maxPermits s ⟨delay, action⟩ := by
      cases action with
      | run request =>
        obtain ⟨token, command⟩ := request
        cases command with
        | acquire ms =>
          obtain rfl : ms = lease := uniform
          exact fun _ _ _ => within token
        | extend ms =>
          obtain rfl : ms = lease := uniform
          exact fun _ _ _ => within token
        | release => exact fun _ _ => trivial
      | ask | answer | extend | extended | release => trivial
    refine ⟨.next reach orderly stepped, fun other term held => ?_⟩
    have kept (held : s.leases other = some term) : term.lease = lease ∧ term.start ≤ s.now + delay :=
      (ledger other term held).imp_right (Nat.le_trans · (Nat.le_add_right ..))
    rcases Permits.act_cases stepped with ⟨⟨token, command⟩, _, rfl, rfl⟩ | ⟨token, caller, sent, rfl⟩
    · rcases record_eq_some held with old | ⟨now, rfl | rfl⟩
      · exact kept old
      · exact ⟨uniform, now.le⟩
      · exact ⟨uniform, now.le⟩
    · exact kept held

def Permits.fresh : Permits := ⟨0, fun _ => none, [], [], fun _ => none, fun _ => none⟩

theorem Permits.fresh_initial (key : String) (maxPermits : Nat) :
    (semaphore key maxPermits).initial .fresh :=
  ⟨rfl, rfl, rfl, rfl, fun _ => rfl, fun _ => rfl⟩

/-- After a delay, a call whose script runs at once. -/
def granted (token : String) (ms : UInt64) (delay : Nat) : List Timed :=
  [⟨delay, .ask token ⟨.fromMillis ms⟩⟩, ⟨0, .run ⟨token, .acquire ms.toNat⟩⟩]

/-- Two permits of a second each exhaust a semaphore of two; the third call gets none. -/
theorem uniform_permits_fit : ∃ s : Permits, s.WithinCapacity 2 ∧ s.now = 500 ∧
    s.leases "a" = some ⟨0, 1000⟩ ∧ s.leases "b" = some ⟨500, 1000⟩ ∧ s.leases "c" = none := by
  obtain ⟨s, reach, facts⟩ := Machine.exists_reachableWhen (Uniform 1000)
    (fun s : Permits => s.now = 500 ∧ s.leases "a" = some ⟨0, 1000⟩ ∧ s.leases "b" = some ⟨500, 1000⟩ ∧
      s.leases "c" = none)
    (Permits.fresh_initial "pool" 2)
    (granted "a" 1000 0 ++ granted "b" 1000 500 ++ granted "c" 1000 0)
    (by decide)
  exact ⟨s, capacity_respected (orderly_of_uniform reach).1, facts⟩

/-- Permit `a` is leased for ten seconds. The grant of `b` for ten milliseconds
lets the whole set expire that soon, and two more permits are granted while the
lease of `a` runs. -/
theorem short_permit_drops_long_one :
    ¬ ∀ s, (semaphore "pool" 2).Reachable s → s.WithinCapacity 2 := by
  intro always
  obtain ⟨s, reach, now, a, c, d⟩ := Machine.exists_reachableWhen (fun _ _ => True)
    (fun s : Permits => s.now = 10 ∧ s.leases "a" = some ⟨0, 10000⟩ ∧ s.leases "c" = some ⟨10, 10000⟩ ∧
      s.leases "d" = some ⟨10, 10000⟩)
    (Permits.fresh_initial "pool" 2)
    (granted "a" 10000 0 ++ granted "b" 10 0 ++ granted "c" 10000 10 ++ granted "d" 10000 0)
    (by decide)
  refine absurd (always s reach 10 now.le {"a", "c", "d"} ?_) (by decide)
  intro token member
  simp only [Finset.mem_insert, Finset.mem_singleton] at member
  rcases member with rfl | rfl | rfl
  · exact ⟨_, a, by decide⟩
  · exact ⟨_, c, by decide⟩
  · exact ⟨_, d, by decide⟩

end Palisade.Semaphore
