import Palisade.Single.Exclusivity

/-! How long the fence counter of a mutex is retained. Leases may grow and shrink from one
operation to the next; a lease of `d` always comes with a retention of ten times `d`. -/
namespace Palisade.Single
open Redis Lease Transition

inductive LeaseCall where
  | acquire (token : String) (ttl : Nat)
  | extend (token : String) (ttl : Nat)
  | release (token : String)
  /-- `force_unlock` deletes the lock, whoever holds it. -/
  | forceUnlock
  deriving DecidableEq

namespace LeaseCall

/-- The answer is a status and, for a grant, its fence. -/
def script (key : String) : LeaseCall → Script (Nat × Int)
  | .acquire token ttl => Single.acquire key (fenceKeyFor key) token ttl (fenceTtlMultiplier * ttl)
  | .extend token ttl => do
    return (← Single.extend key (fenceKeyFor key) token ttl (fenceTtlMultiplier * ttl), 0)
  | .release token => do
    return (← Single.release key token, 0)
  | .forceUnlock => do
    return (← Script.del key, 0)

/-- The lease of a successful acquire or extend. -/
def renewed : LeaseCall → Except Fault (Nat × Int) → Option Nat
  | .acquire _ ttl, .ok (1, _) | .acquire _ ttl, .ok (2, _) | .extend _ ttl, .ok (1, _) => some ttl
  | _, _ => none

/-- The fence of a grant. -/
def issued : LeaseCall → Except Fault (Nat × Int) → Option Int
  | .acquire _ _, .ok (1, fence) | .acquire _ _, .ok (2, fence) => some fence
  | _, _ => none

end LeaseCall

structure Renewal where
  instant : Nat
  lease : Nat
  deriving DecidableEq

/-- The store, the most recent successful acquire or extend, and the fences of all grants
with the newest first. -/
structure Retention where
  now : Nat
  db : Keyspace
  last : Option Renewal
  fences : List Int

structure TimedCall where
  delay : Nat
  call : LeaseCall
  deriving DecidableEq

def Retention.exec (key : String) (s : Retention) (action : TimedCall) : Retention :=
  let now := s.now + action.delay
  let (reply, db) := (action.call.script key).exec now s.db
  { now, db
    last := ((action.call.renewed reply).map fun lease => ⟨now, lease⟩).or s.last
    fences := (action.call.issued reply).toList ++ s.fences }

def retention (key : String) : Machine Retention TimedCall where
  initial s := s.db key = none ∧ s.db (fenceKeyFor key) = none ∧ s.last = none ∧ s.fences = []
  step s action := some (s.exec key action)

/-- An acquire comes inside the retention window of the last renewal. -/
def Retention.Recent (s : Retention) (action : TimedCall) : Prop :=
  match action.call with
  | .acquire _ _ => ∀ renewal ∈ s.last,
      s.now + action.delay < renewal.instant + fenceTtlMultiplier * renewal.lease
  | _ => True

instance (s : Retention) (action : TimedCall) : Decidable (s.Recent action) :=
  match action with
  | ⟨_, .acquire _ _⟩ => inferInstanceAs (Decidable (∀ renewal ∈ _, _))
  | ⟨_, .extend _ _⟩ | ⟨_, .release _⟩ | ⟨_, .forceUnlock⟩ => isTrue trivial

namespace Retention
variable {key token : String} {s : Retention} {db after : Keyspace} {now lease : Nat}

/-- The last renewal accounts for both expiries, and the counter for all fences. -/
structure Kept (key : String) (s : Retention) : Prop where
  sound : Sound key s.db
  lock : ∀ entry, s.db key = some entry →
    ∃ renewal ∈ s.last, entry.expireAt = some (renewal.instant + renewal.lease)
  counter : ∀ renewal ∈ s.last, renewal.lease ≠ 0 → ∃ fence, s.db (fenceKeyFor key) =
    some ⟨.string (.int fence), some (renewal.instant + fenceTtlMultiplier * renewal.lease)⟩
  value : ∀ fence stop, s.db (fenceKeyFor key) = some ⟨.string (.int fence), stop⟩ →
    ∀ older ∈ s.fences, older ≤ fence
  past : ∀ renewal ∈ s.last, renewal.instant ≤ s.now
  unissued : s.last = none → s.fences = []
  increasing : s.fences.Pairwise fun newer older => older < newer

theorem Kept.start (first : (retention key).initial s) : Kept key s := by
  obtain ⟨lock, counter, last, fences⟩ := first
  exact ⟨⟨by simp [lock], by simp [counter]⟩, by simp [lock], by simp [last], by simp [counter],
    by simp [last], fun _ => fences, by simp [fences]⟩

/-- While the lock lives, so does its counter. -/
theorem Kept.outlives (kept : Kept key s) {entry : Entry} {instant : Nat} (later : s.now ≤ instant)
    (live : s.db.lookup instant key = some entry) :
    ∃ renewal fence, renewal ∈ s.last ∧ instant < renewal.instant + renewal.lease ∧
      entry.expireAt = some (renewal.instant + renewal.lease) ∧
      s.db.lookup instant (fenceKeyFor key) =
        some ⟨.string (.int fence), some (renewal.instant + fenceTtlMultiplier * renewal.lease)⟩ := by
  obtain ⟨stored, running⟩ := Keyspace.lookup_eq_some.mp live
  obtain ⟨renewal, member, stop⟩ := kept.lock entry stored
  have early : instant < renewal.instant + renewal.lease := by
    simpa [Entry.expired, stop] using running
  have began := kept.past renewal member
  obtain ⟨fence, counted⟩ := kept.counter renewal member (by omega)
  refine ⟨renewal, fence, member, early, stop, Keyspace.lookup_eq_some.mpr ⟨counted, ?_⟩⟩
  simp only [Entry.expired_some, decide_eq_false_iff_not, fenceTtlMultiplier]
  omega

/-- Inside the retention window the next fence is a new one. -/
theorem Kept.nextFence_newer (kept : Kept key s) (later : s.now ≤ now)
    (recent : ∀ renewal ∈ s.last, now < renewal.instant + fenceTtlMultiplier * renewal.lease) :
    ∀ older ∈ s.fences, older < nextFence (fenceKeyFor key) s.db now := by
  intro older member
  cases found : s.last with
  | none => simp [kept.unissued found] at member
  | some renewal =>
    have window := recent renewal found
    have began := kept.past renewal found
    have positive : renewal.lease ≠ 0 := by
      rintro zero
      simp only [zero, Nat.mul_zero] at window
      omega
    obtain ⟨fence, counted⟩ := kept.counter renewal found positive
    have seen : s.db.lookup now (fenceKeyFor key) = _ :=
      Keyspace.lookup_eq_some.mpr ⟨counted, by simpa using window⟩
    have below := kept.value fence _ counted older member
    simp only [nextFence, seen]
    omega

/-- A renewal sets both expiries. -/
theorem Kept.renew (sound : Sound key db) (now : Nat) (token : String) (lease : Nat) {fence : Int} {fences : List Int}
    (newest : ∀ older ∈ fences, older ≤ fence)
    (increasing : fences.Pairwise fun newer older => older < newer) :
    Kept key ⟨now, (db.refresh now key (.string (.raw token)) lease).refresh now (fenceKeyFor key)
      (.string (.int fence)) (fenceTtlMultiplier * lease), some ⟨now, lease⟩, fences⟩ := by
  have lock : ((db.refresh now key (.string (.raw token)) lease).refresh now (fenceKeyFor key)
      (.string (.int fence)) (fenceTtlMultiplier * lease)) key = Keyspace.refreshed now _ lease :=
    (Keyspace.refresh_of_ne (fenceKeyFor_ne key).symm).trans Keyspace.refresh_self
  refine ⟨sound.refresh_lock.refresh_counter, ?_, ?_, ?_, ?_, ?_, increasing⟩
  · intro entry stored
    rw [(Keyspace.refreshed_eq_some.mp (lock.symm.trans stored)).2]
    exact ⟨_, rfl, rfl⟩
  · rintro renewal ⟨⟩ positive
    refine ⟨fence, Keyspace.refresh_self.trans (Keyspace.refreshed_eq_some.mpr ⟨?_, rfl⟩)⟩
    exact Nat.mul_ne_zero (by decide) positive
  · intro other stop stored
    cases (Keyspace.refreshed_eq_some.mp (Keyspace.refresh_self.symm.trans stored)).2
    exact newest
  · rintro renewal ⟨⟩
    exact Nat.le_refl _
  · exact fun none => absurd none (by simp)

/-- Time passes, and the lock may go. -/
theorem Kept.leave (kept : Kept key s) (later : s.now ≤ now) (sound : Sound key after)
    (lock : ∀ entry, after key = some entry → s.db key = some entry)
    (counter : after (fenceKeyFor key) = s.db (fenceKeyFor key)) : Kept key { s with now, db := after } where
  sound := sound
  lock entry stored := kept.lock entry (lock entry stored)
  counter := by
    dsimp only
    rw [counter]
    exact kept.counter
  value := by
    dsimp only
    rw [counter]
    exact kept.value
  past renewal member := Nat.le_trans (kept.past renewal member) later
  unissued := kept.unissued
  increasing := kept.increasing

theorem Kept.exec_acquire (kept : Kept key s) (token : String) (delay lease : Nat)
    (recent : s.Recent ⟨delay, .acquire token lease⟩) : Kept key (s.exec key ⟨delay, .acquire token lease⟩) := by
  have later := Nat.le_add_right s.now delay
  by_cases zero : lease = 0
  · have idle := kept.leave later kept.sound (fun _ => id) rfl
    simpa [exec, LeaseCall.script, Single.exec_acquire, zero, LeaseCall.renewed, LeaseCall.issued] using idle
  · simp only [exec, LeaseCall.script, kept.sound.shaped.exec_acquire zero]
    split
    · have newer := kept.nextFence_newer later recent
      have granted := Kept.renew kept.sound (s.now + delay) token lease
        (List.forall_mem_cons.mpr ⟨Int.le_refl _, fun older member => Int.le_of_lt (newer older member)⟩)
        (List.pairwise_cons.mpr ⟨newer, kept.increasing⟩)
      split <;> exact granted
    · exact kept.leave later kept.sound (fun _ => id) rfl

theorem Kept.exec_extend (kept : Kept key s) (token : String) (delay lease : Nat) :
    Kept key (s.exec key ⟨delay, .extend token lease⟩) := by
  have later := Nat.le_add_right s.now delay
  simp only [exec, LeaseCall.script, Script.exec_bind, kept.sound.shaped.exec_extend]
  by_cases owner : holder key s.db (s.now + delay) = some token
  · obtain ⟨stop, held⟩ := holder_eq_some.mp owner
    obtain ⟨renewal, fence, member, _, _, counted⟩ := kept.outlives later held
    have untouched : (s.db.refresh (s.now + delay) key (.string (.raw token)) lease) (fenceKeyFor key) =
        s.db (fenceKeyFor key) := Keyspace.refresh_of_ne (fenceKeyFor_ne key)
    rw [if_pos owner]
    simp only [Script.exec_pexpire, Keyspace.lookup_congr untouched, counted]
    exact Kept.renew kept.sound _ token lease (kept.value fence _ (Keyspace.lookup_eq_some.mp counted).1)
      kept.increasing
  · rw [if_neg owner]
    exact kept.leave later kept.sound (fun _ => id) rfl

theorem Kept.erase (kept : Kept key s) (later : s.now ≤ now) : Kept key { s with now, db := s.db.erase key } :=
  kept.leave later kept.sound.erase_lock (fun _ stored => absurd stored (by simp))
    (Keyspace.erase_of_ne (fenceKeyFor_ne key))

theorem Kept.exec (kept : Kept key s) (action : TimedCall) (recent : s.Recent action) :
    Kept key (s.exec key action) := by
  obtain ⟨delay, call⟩ := action
  have later := Nat.le_add_right s.now delay
  cases call with
  | acquire token lease => exact kept.exec_acquire token delay lease recent
  | extend token lease => exact kept.exec_extend token delay lease
  | release token =>
    simp only [Retention.exec, LeaseCall.script, Script.exec_bind, kept.sound.shaped.exec_release]
    split_ifs
    · exact kept.erase later
    · exact kept.leave later kept.sound (fun _ => id) rfl
  | forceUnlock =>
    simp only [Retention.exec, LeaseCall.script, Script.exec_bind, Script.exec_del]
    cases s.db.lookup (s.now + delay) key with
    | none => exact kept.leave later kept.sound (fun _ => id) rfl
    | some entry => exact kept.erase later

end Retention

/-- In every run whose acquires all come inside the retention window, the counter outlives
the lock and the fences of the grants strictly increase. -/
theorem retained_fences_increase {key : String} {s : Retention}
    (reach : (retention key).ReachableWhen Retention.Recent s) :
    (∀ instant entry, s.now ≤ instant → s.db.lookup instant key = some entry →
      ∃ counter ends retained, s.db.lookup instant (fenceKeyFor key) = some counter ∧
        entry.expireAt = some ends ∧ counter.expireAt = some retained ∧ ends ≤ retained) ∧
    s.fences.Pairwise fun newer older => older < newer := by
  have kept : Retention.Kept key s := by
    refine Machine.ReachableWhen.invariant (fun _ => .start) ?_ reach
    rintro s action t kept recent ⟨⟩
    exact kept.exec action recent
  refine ⟨fun instant entry later live => ?_, kept.increasing⟩
  obtain ⟨renewal, fence, _, _, stop, counted⟩ := kept.outlives later live
  refine ⟨_, _, _, counted, stop, rfl, ?_⟩
  unfold fenceTtlMultiplier
  omega

/-- A lease of a second cut down to 20 ms: the next grant, 90 ms later, has fence 2. -/
theorem retained_fences_increase_cut : ∃ s : Retention, s.fences = [2, 1] ∧
    (s.fences.Pairwise fun newer older => older < newer) ∧ (s.db.lookup s.now "orders").isSome := by
  obtain ⟨s, reach, fences, live⟩ := (retention "orders").exists_reachableWhen Retention.Recent
    (fun s : Retention => s.fences = [2, 1] ∧ (s.db.lookup s.now "orders").isSome)
    (s := ⟨0, fun _ => none, none, []⟩) ⟨rfl, rfl, rfl, rfl⟩
    [⟨0, .acquire "a" 1000⟩, ⟨10, .extend "a" 20⟩, ⟨90, .acquire "b" 50⟩] (by decide)
  exact ⟨s, fences, (retained_fences_increase reach).2, live⟩

end Palisade.Single
