import Palisade.Single.Exclusivity
import Palisade.Testing.Sim

/-! The simulated store beside the Lua scripts it stands for. Both are driven by the same
acquires and releases on one key; no acquire uses the token of another. The counter is
retained for ten times the lease. -/
namespace Palisade.Testing
open Redis Single Transition

/-- An acquire of the past, with the fence the simulated store gave it; 0 when denied. -/
structure Attempt where
  worker : Nat
  token : String
  fence : Nat
  deriving DecidableEq

structure Mirror where
  sim : SimStore
  db : Keyspace
  /-- Newest first. -/
  attempts : List Attempt
  lastGrant : Option Nat

inductive MirrorAction where
  | acquire (delay worker : Nat) (token : String)
  /-- Somebody releases what an earlier acquire was given. -/
  | release (delay : Nat) (attempt : Attempt)
  deriving DecidableEq

inductive Outcome where
  | granted (fence : Int)
  | denied
  | released
  | lost
  deriving DecidableEq

def SimStore.later (s : SimStore) (delay : Nat) : SimStore := { s with nowMs := s.nowMs + delay }

@[simp] theorem SimStore.later_nowMs (s : SimStore) (delay : Nat) : (s.later delay).nowMs = s.nowMs + delay := rfl

namespace Mirror

def acquireScript (key token : String) (ttl : Nat) : Script (Nat × Int) :=
  Single.acquire key (fenceKeyFor key) token ttl (fenceTtlMultiplier * ttl)

def acquire (key : String) (ttl : Nat) (s : Mirror) (delay worker : Nat) (token : String) : Mirror :=
  let sim := s.sim.later delay
  let (granted, next) := sim.casGrant worker ttl
  { sim := next
    db := ((acquireScript key token ttl).exec sim.nowMs s.db).2
    attempts := ⟨worker, token, granted.getD 0⟩ :: s.attempts
    lastGrant := if granted.isSome then some sim.nowMs else s.lastGrant }

def release (key : String) (s : Mirror) (delay : Nat) (attempt : Attempt) : Mirror :=
  let sim := s.sim.later delay
  { s with
    sim := (sim.release attempt.worker attempt.fence).2
    db := ((Single.release key attempt.token).exec sim.nowMs s.db).2 }

/-- What the simulated store answers. -/
def simOutcome (ttl : Nat) (s : Mirror) : MirrorAction → Outcome
  | .acquire delay worker _ =>
    match ((s.sim.later delay).casGrant worker ttl).1 with
    | some fence => .granted fence
    | none => .denied
  | .release delay attempt =>
    if ((s.sim.later delay).release attempt.worker attempt.fence).1 then .released else .lost

/-- What the scripts answer; none for an error or an answer they do not have. -/
def luaOutcome (key : String) (ttl : Nat) (s : Mirror) : MirrorAction → Option Outcome
  | .acquire delay _ token =>
    match ((acquireScript key token ttl).exec (s.sim.nowMs + delay) s.db).1 with
    | .ok (1, fence) | .ok (2, fence) => some (.granted fence)
    | .ok (0, _) => some .denied
    | _ => none
  | .release delay attempt =>
    match ((Single.release key attempt.token).exec (s.sim.nowMs + delay) s.db).1 with
    | .ok 1 => some .released
    | .ok 0 => some .lost
    | _ => none

/-- A grant comes less than the retention after the grant before it. -/
def Recent (ttl : Nat) (s : Mirror) : MirrorAction → Prop
  | .acquire delay worker _ => ((s.sim.later delay).casGrant worker ttl).1.isSome →
      ∀ last ∈ s.lastGrant, s.sim.nowMs + delay < last + fenceTtlMultiplier * ttl
  | .release _ _ => True

instance (ttl : Nat) (s : Mirror) (action : MirrorAction) : Decidable (s.Recent ttl action) :=
  match action with
  | .acquire _ _ _ => inferInstanceAs (Decidable (_ → ∀ last ∈ _, _))
  | .release _ _ => isTrue trivial

end Mirror

/-- Both stores start out empty under the key and its counter. -/
def mirror (key : String) (ttl : Nat) : Machine Mirror MirrorAction where
  initial s := s.sim.entry = none ∧ s.sim.fenceCounter = 0 ∧ s.sim.brokenCas = false ∧
    s.db key = none ∧ s.db (fenceKeyFor key) = none ∧ s.attempts = [] ∧ s.lastGrant = none
  step s
    | .acquire delay worker token =>
      if ∀ attempt ∈ s.attempts, attempt.token ≠ token then some (s.acquire key ttl delay worker token) else none
    | .release delay attempt => if attempt ∈ s.attempts then some (s.release key delay attempt) else none

namespace Mirror
variable {key : String} {ttl : Nat} {s t : Mirror}

/-- The two stores hold the same, entry for entry. -/
structure Mirrors (key : String) (ttl : Nat) (s : Mirror) : Prop where
  cas : s.sim.brokenCas = false
  free : s.sim.entry = none → s.db key = none
  held : ∀ e, s.sim.entry = some e → ∃ token, ⟨e.holder, token, e.fence⟩ ∈ s.attempts ∧ e.fence ≠ 0 ∧
    s.db key = some ⟨.string (.raw token), some e.expiresMs⟩
  uncounted : s.lastGrant = none → s.db (fenceKeyFor key) = none ∧ s.sim.fenceCounter = 0
  counted : ∀ last, s.lastGrant = some last → s.db (fenceKeyFor key) =
    some ⟨.string (.int s.sim.fenceCounter), some (last + fenceTtlMultiplier * ttl)⟩
  bounded : ∀ attempt ∈ s.attempts, attempt.fence ≤ s.sim.fenceCounter
  fences : s.attempts.Pairwise fun newer older => newer.fence ≠ 0 → newer.fence ≠ older.fence
  tokens : s.attempts.Pairwise fun newer older => newer.token ≠ older.token

theorem Mirrors.start (first : (mirror key ttl).initial s) : Mirrors key ttl s := by
  obtain ⟨entry, counter, cas, lock, uncounted, attempts, last⟩ := first
  refine ⟨cas, fun _ => lock, ?_, fun _ => ⟨uncounted, counter⟩, ?_, ?_, ?_, ?_⟩
  · simp [entry]
  · simp [last]
  · simp [attempts]
  · simp [attempts]
  · simp [attempts]

theorem Mirrors.sound (mirrors : Mirrors key ttl s) : Sound key s.db where
  lock entry stored := by
    cases found : s.sim.entry with
    | none => simp [mirrors.free found] at stored
    | some e =>
      obtain ⟨token, _, _, same⟩ := mirrors.held e found
      rw [same] at stored
      exact ⟨token, _, (Option.some.inj stored).symm⟩
  counter entry stored := by
    cases found : s.lastGrant with
    | none => simp [(mirrors.uncounted found).1] at stored
    | some last =>
      rw [mirrors.counted last found] at stored
      exact ⟨_, _, (Option.some.inj stored).symm⟩

/-- Worker and fence of a grant say as much as its token. -/
theorem Mirrors.attempt_iff (mirrors : Mirrors key ttl s) {first second : Attempt}
    (left : first ∈ s.attempts) (right : second ∈ s.attempts) (granted : first.fence ≠ 0) :
    (first.worker = second.worker ∧ first.fence = second.fence) ↔ first.token = second.token := by
  by_cases same : first = second
  · simp [same]
  · have apart : first.token ≠ second.token := by
      have pair := ordered mirrors.tokens same left right
      exact pair.elim id Ne.symm
    have fences : first.fence ≠ second.fence := by
      intro equal
      have pair := ordered mirrors.fences same left right
      exact pair.elim (fun newer => newer granted equal) fun newer => newer (equal ▸ granted) equal.symm
    simp [apart, fences]

section
variable {delay : Nat} {token : String} (mirrors : Mirrors key ttl s)
include mirrors

theorem Mirrors.holder_free (free : (s.sim.later delay).live = false) :
    holder key s.db (s.sim.nowMs + delay) = none := by
  cases found : s.sim.entry with
  | none => simp [holder, Keyspace.lookup, mirrors.free found]
  | some e =>
    obtain ⟨own, _, _, stored⟩ := mirrors.held e found
    have ended : e.expiresMs ≤ s.sim.nowMs + delay := by
      simpa [SimStore.live, SimStore.later, found] using free
    simp [holder, Keyspace.lookup, stored, ended]

theorem Mirrors.holder_live (live : (s.sim.later delay).live = true) :
    ∃ e own, s.sim.entry = some e ∧ s.sim.nowMs + delay < e.expiresMs ∧ ⟨e.holder, own, e.fence⟩ ∈ s.attempts ∧
      e.fence ≠ 0 ∧ holder key s.db (s.sim.nowMs + delay) = some own := by
  obtain ⟨e, found, running⟩ := Option.any_eq_true _ _ |>.mp live
  obtain ⟨own, member, positive, stored⟩ := mirrors.held e found
  have running : s.sim.nowMs + delay < e.expiresMs := of_decide_eq_true running
  refine ⟨e, own, found, running, member, positive, holder_eq_some.mpr ⟨some e.expiresMs, ?_⟩⟩
  exact Keyspace.lookup_eq_some.mpr ⟨stored, by simpa using running⟩

/-- The retained counter continues where the simulated one does. -/
theorem Mirrors.nextFence (recent : ∀ last ∈ s.lastGrant, s.sim.nowMs + delay < last + fenceTtlMultiplier * ttl) :
    nextFence (fenceKeyFor key) s.db (s.sim.nowMs + delay) = (s.sim.fenceCounter + 1 : Nat) := by
  cases found : s.lastGrant with
  | none =>
    obtain ⟨stored, zero⟩ := mirrors.uncounted found
    simp [Single.nextFence, Keyspace.lookup, stored, zero]
  | some last =>
    have alive := recent last found
    have seen : s.db.lookup (s.sim.nowMs + delay) (fenceKeyFor key) = _ :=
      Keyspace.lookup_eq_some.mpr ⟨mirrors.counted last found, by simpa using alive⟩
    simp [Single.nextFence, seen]

theorem Mirrors.acquire_denied (worker : Nat) (live : (s.sim.later delay).live = true) (lease : 0 < ttl)
    (fresh : ∀ attempt ∈ s.attempts, attempt.token ≠ token) :
    (s.sim.later delay).casGrant worker ttl = (none, s.sim.later delay) ∧
      (acquireScript key token ttl).exec (s.sim.nowMs + delay) s.db = (.ok (0, 0), s.db) := by
  obtain ⟨e, own, _, _, member, _, held⟩ := mirrors.holder_live live
  have foreign : own ≠ token := fresh _ member
  constructor
  · have cas : (s.sim.later delay).brokenCas = false := mirrors.cas
    simp [SimStore.casGrant, live, cas]
  · rw [acquireScript, mirrors.sound.shaped.exec_acquire (Nat.ne_of_gt lease), held]
    simp [foreign]

theorem Mirrors.acquire_granted (worker : Nat) (token : String) (free : (s.sim.later delay).live = false) (lease : 0 < ttl)
    (recent : ∀ last ∈ s.lastGrant, s.sim.nowMs + delay < last + fenceTtlMultiplier * ttl) :
    (s.sim.later delay).casGrant worker ttl = (some (s.sim.fenceCounter + 1),
        { s.sim with
          nowMs := s.sim.nowMs + delay
          fenceCounter := s.sim.fenceCounter + 1
          entry := some ⟨worker, s.sim.nowMs + delay + ttl, s.sim.fenceCounter + 1⟩ }) ∧
      (acquireScript key token ttl).exec (s.sim.nowMs + delay) s.db = (.ok (1, (s.sim.fenceCounter + 1 : Nat)),
        (s.db.put key ⟨.string (.raw token), some (s.sim.nowMs + delay + ttl)⟩).put (fenceKeyFor key)
          ⟨.string (.int (s.sim.fenceCounter + 1 : Nat)),
            some (s.sim.nowMs + delay + fenceTtlMultiplier * ttl)⟩) := by
  have retention : fenceTtlMultiplier * ttl ≠ 0 := by
    unfold fenceTtlMultiplier
    omega
  constructor
  · simp only [SimStore.casGrant, free, Bool.false_and, Bool.false_eq_true, if_false]
    rfl
  · rw [acquireScript, mirrors.sound.shaped.exec_acquire (Nat.ne_of_gt lease), mirrors.holder_free free,
      mirrors.nextFence recent]
    simp [Keyspace.refresh, Nat.ne_of_gt lease, retention]

theorem Mirrors.release_eq (delay : Nat) {attempt : Attempt} (member : attempt ∈ s.attempts) :
    ((s.sim.later delay).release attempt.worker attempt.fence =
        (true, { s.sim with nowMs := s.sim.nowMs + delay, entry := none }) ∧
      (Single.release key attempt.token).exec (s.sim.nowMs + delay) s.db = (.ok 1, s.db.erase key)) ∨
    ((s.sim.later delay).release attempt.worker attempt.fence = (false, s.sim.later delay) ∧
      (Single.release key attempt.token).exec (s.sim.nowMs + delay) s.db = (.ok 0, s.db)) := by
  rw [mirrors.sound.shaped.exec_release]
  cases live : (s.sim.later delay).live with
  | false =>
    have invalid : (s.sim.later delay).holdsValidly attempt.worker attempt.fence = false := by
      by_contra valid
      rw [Bool.not_eq_false, SimStore.holdsValidly, Option.any_eq_true] at valid
      obtain ⟨e, found, valid⟩ := valid
      obtain ⟨_, _, running⟩ := of_decide_eq_true valid
      have alive : (s.sim.later delay).live = true := Option.any_eq_true _ _ |>.mpr ⟨e, found, decide_eq_true running⟩
      exact absurd (live.symm.trans alive) (by decide)
    refine .inr ⟨by simp [SimStore.release, invalid], ?_⟩
    simp [mirrors.holder_free live]
  | true =>
    obtain ⟨e, own, found, running, recorded, positive, held⟩ := mirrors.holder_live live
    have same := mirrors.attempt_iff recorded member positive
    have valid : (s.sim.later delay).holdsValidly attempt.worker attempt.fence = true ↔ own = attempt.token := by
      simpa [SimStore.holdsValidly, SimStore.later, found, running] using same
    rw [held]
    by_cases mine : own = attempt.token
    · refine .inl ⟨?_, by simp [mine]⟩
      rw [SimStore.release, if_pos (valid.mpr mine)]
      rfl
    · refine .inr ⟨?_, by simp [mine]⟩
      rw [SimStore.release, if_neg (mt valid.mp mine)]

theorem Mirrors.acquire {worker : Nat} (lease : 0 < ttl) (fresh : ∀ attempt ∈ s.attempts, attempt.token ≠ token)
    (recent : Recent ttl s (.acquire delay worker token)) :
    Mirrors key ttl (s.acquire key ttl delay worker token) := by
  have tokens : ∀ attempt ∈ s.attempts, token ≠ attempt.token := fun attempt member => (fresh attempt member).symm
  cases live : (s.sim.later delay).live with
  | true =>
    obtain ⟨denied, unchanged⟩ := mirrors.acquire_denied worker live lease fresh
    have after : s.acquire key ttl delay worker token =
        ⟨s.sim.later delay, s.db, ⟨worker, token, 0⟩ :: s.attempts, s.lastGrant⟩ := by
      simp only [Mirror.acquire, denied, SimStore.later_nowMs, unchanged]
      rfl
    rw [after]
    refine ⟨mirrors.cas, mirrors.free, ?_, mirrors.uncounted, mirrors.counted, ?_, ?_, ?_⟩
    · intro e found
      obtain ⟨own, member, rest⟩ := mirrors.held e found
      exact ⟨own, List.mem_cons_of_mem _ member, rest⟩
    · exact List.forall_mem_cons.mpr ⟨Nat.zero_le _, mirrors.bounded⟩
    · exact List.pairwise_cons.mpr ⟨fun _ _ granted => absurd rfl granted, mirrors.fences⟩
    · exact List.pairwise_cons.mpr ⟨tokens, mirrors.tokens⟩
  | false =>
    have wouldGrant : ((s.sim.later delay).casGrant worker ttl).1.isSome := by simp [SimStore.casGrant, live]
    obtain ⟨granted, stored⟩ := mirrors.acquire_granted worker token live lease (recent wouldGrant)
    simp only [Mirror.acquire, granted, SimStore.later_nowMs, stored, Option.isSome_some, if_true,
      Option.getD_some]
    refine ⟨mirrors.cas, fun none => absurd none (by simp), ?_, fun none => absurd none (by simp), ?_, ?_, ?_, ?_⟩
    · rintro e ⟨⟩
      refine ⟨token, List.mem_cons_self, Nat.succ_ne_zero _, ?_⟩
      exact (Keyspace.put_of_ne (fenceKeyFor_ne key).symm).trans Keyspace.put_self
    · rintro last ⟨⟩
      exact Keyspace.put_self
    · refine List.forall_mem_cons.mpr ⟨Nat.le_refl _, fun attempt member => ?_⟩
      exact Nat.le_succ_of_le (mirrors.bounded attempt member)
    · refine List.pairwise_cons.mpr ⟨fun attempt member _ => ?_, mirrors.fences⟩
      have below := mirrors.bounded attempt member
      dsimp only
      omega
    · exact List.pairwise_cons.mpr ⟨tokens, mirrors.tokens⟩

theorem Mirrors.release (delay : Nat) {attempt : Attempt} (member : attempt ∈ s.attempts) :
    Mirrors key ttl (s.release key delay attempt) := by
  simp only [Mirror.release, SimStore.later_nowMs]
  obtain ⟨sim, lua⟩ | ⟨sim, lua⟩ := mirrors.release_eq delay member
  · rw [sim, lua]
    have counter : s.db.erase key (fenceKeyFor key) = s.db (fenceKeyFor key) :=
      Keyspace.erase_of_ne (fenceKeyFor_ne key)
    refine ⟨mirrors.cas, fun _ => Keyspace.erase_self, fun e found => absurd found (by simp), ?_, ?_,
      mirrors.bounded, mirrors.fences, mirrors.tokens⟩
    · intro none
      exact ⟨counter.trans (mirrors.uncounted none).1, (mirrors.uncounted none).2⟩
    · exact fun last found => counter.trans (mirrors.counted last found)
  · rw [sim, lua]
    exact ⟨mirrors.cas, mirrors.free, mirrors.held, mirrors.uncounted, mirrors.counted, mirrors.bounded,
      mirrors.fences, mirrors.tokens⟩

end

theorem Mirrors.reachable (lease : 0 < ttl) (reach : (mirror key ttl).ReachableWhen (Recent ttl) s) :
    Mirrors key ttl s := by
  refine Machine.ReachableWhen.invariant (fun _ => .start) ?_ reach
  intro s action t mirrors recent stepped
  cases action with
  | acquire delay worker token =>
    simp only [mirror] at stepped
    split at stepped
    · cases stepped
      exact mirrors.acquire lease ‹_› recent
    · contradiction
  | release delay attempt =>
    simp only [mirror] at stepped
    split at stepped
    · cases stepped
      exact mirrors.release delay ‹_›
    · contradiction

end Mirror

open Mirror

/-- The simulated store answers every step as the scripts do, fences included. -/
theorem sim_mirrors_scripts {key : String} {ttl : Nat} {s t : Mirror} {action : MirrorAction} (lease : 0 < ttl)
    (reach : (mirror key ttl).ReachableWhen (Recent ttl) s) (recent : Recent ttl s action)
    (stepped : (mirror key ttl).step s action = some t) :
    s.luaOutcome key ttl action = some (s.simOutcome ttl action) := by
  have mirrors := Mirrors.reachable lease reach
  cases action with
  | acquire delay worker token =>
    simp only [mirror, Option.ite_none_right_eq_some] at stepped
    cases live : (s.sim.later delay).live with
    | true =>
      obtain ⟨denied, unchanged⟩ := mirrors.acquire_denied worker live lease stepped.1
      simp only [luaOutcome, simOutcome, denied, unchanged]
    | false =>
      have wouldGrant : ((s.sim.later delay).casGrant worker ttl).1.isSome := by simp [SimStore.casGrant, live]
      obtain ⟨granted, stored⟩ := mirrors.acquire_granted worker token live lease (recent wouldGrant)
      simp only [luaOutcome, simOutcome, granted, stored]
  | release delay attempt =>
    simp only [mirror, Option.ite_none_right_eq_some] at stepped
    obtain ⟨sim, lua⟩ | ⟨sim, lua⟩ := mirrors.release_eq delay stepped.1
    · simp only [luaOutcome, simOutcome, sim, lua, if_true]
    · simp only [luaOutcome, simOutcome, sim, lua, Bool.false_eq_true, if_false]

/-- A denial, a release and a grant that lapses: the third grant has fence 3 on both sides. -/
theorem sim_mirrors_third_grant : ∃ s : Mirror, s.simOutcome 100 (.acquire 100 1 "d") = .granted 3 ∧
    s.luaOutcome "orders" 100 (.acquire 100 1 "d") = some (.granted 3) := by
  obtain ⟨s, reach, enabled, recent, grants⟩ := (mirror "orders" 100).exists_reachableWhen (Recent 100)
    (fun s : Mirror => (∀ attempt ∈ s.attempts, attempt.token ≠ "d") ∧ s.Recent 100 (.acquire 100 1 "d") ∧
      s.simOutcome 100 (.acquire 100 1 "d") = .granted 3)
    (s := ⟨⟨0, none, 0, 0, false, false⟩, fun _ => none, [], none⟩) ⟨rfl, rfl, rfl, rfl, rfl, rfl, rfl⟩
    [.acquire 0 0 "a", .acquire 50 1 "b", .release 10 ⟨0, "a", 1⟩, .acquire 5 1 "c"] (by decide)
  refine ⟨s, grants, ?_⟩
  rw [sim_mirrors_scripts (by decide) reach recent (if_pos enabled), grants]

end Palisade.Testing
