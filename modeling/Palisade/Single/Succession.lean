import Palisade.Names

/-! Testaments along the holders of one key. The state remembers how the latest hold ended
that did end, and whether a will was set since; no script reads either. Neither
`RedisLockHandle::release` nor `unlock_with_token` touches the will: both run `release.lua`,
whose one key is the lock, and take the status 1 for success. -/
namespace Palisade.Testament
open Redis Single Transition Script

inductive Ending where
  | released
  /-- The lease ran out. -/
  | lapsed
  deriving DecidableEq

structure Succession where
  now : Nat
  db : Keyspace
  ended : Option Ending
  bequeathed : Bool

inductive Operation where
  | acquire (token : String) (ttl fenceTtl : Nat)
  | extend (token : String) (ttl fenceTtl : Nat)
  | setTestament (token : String) (ttl : Duration) (payload : Payload)
  | clearTestament (token : String)
  | release (token : String)
  | readTestament
  deriving DecidableEq

/-- One operation by anybody, `delay` after the operation before it. -/
structure Timed where
  delay : Nat
  operation : Operation
  deriving DecidableEq

namespace Succession

/-- Time passes, and a lease may run out in it. -/
def wait (key : String) (s : Succession) (delay : Nat) : Succession :=
  if (s.db.lookup s.now key).isSome ∧ (s.db.lookup (s.now + delay) key).isNone then
    { s with now := s.now + delay, ended := some .lapsed, bequeathed := false }
  else { s with now := s.now + delay }

def act (key : String) (s : Succession) : Operation → Succession
  | .acquire token ttl fenceTtl =>
    { s with db := ((Single.acquire key (fenceKeyFor key) token ttl fenceTtl).exec s.now s.db).2 }
  | .extend token ttl fenceTtl =>
    { s with db := ((Single.extend key (fenceKeyFor key) token ttl fenceTtl).exec s.now s.db).2 }
  | .setTestament token ttl payload =>
    match setTestament key token ttl payload s.now s.db with
    | (.ok _, db) => { s with db, bequeathed := true }
    | (.error _, db) => { s with db }
  | .clearTestament token => { s with db := (clearTestament key token s.now s.db).2 }
  | .release token =>
    match (Single.release key token).exec s.now s.db with
    | (.ok 1, db) => { s with db, ended := some .released, bequeathed := false }
    | (_, db) => { s with db }
  | .readTestament => s

end Succession

/-- Runs from a key without a lock and a will. -/
def succession (key : String) : Machine Succession Timed where
  initial s := s.db key = none ∧ s.db (willKeyFor key) = none ∧ s.ended = none ∧ s.bequeathed = false
  step s timed := some ((s.wait key timed.delay).act key timed.operation)

/-- A release that succeeds finds no will. -/
def Cleared (key : String) (s : Succession) : Timed → Prop
  | ⟨delay, .release token⟩ => holder key s.db (s.now + delay) = some token →
    s.db.lookup (s.now + delay) (willKeyFor key) = none
  | _ => True

/-- Once the latest hold was released and no will was set since, there is none. -/
def Succession.Settled (key : String) (s : Succession) : Prop :=
  s.ended = some .released → s.bequeathed = false → s.db.lookup s.now (willKeyFor key) = none

section
variable {key : String} {s : Succession}

@[simp] theorem Succession.wait_db (delay : Nat) : (s.wait key delay).db = s.db := by
  unfold Succession.wait
  split <;> rfl

@[simp] theorem Succession.wait_now (delay : Nat) : (s.wait key delay).now = s.now + delay := by
  unfold Succession.wait
  split <;> rfl

theorem Succession.Settled.wait (settled : s.Settled key) (delay : Nat) : (s.wait key delay).Settled key := by
  by_cases lapsed : (s.db.lookup s.now key).isSome ∧ (s.db.lookup (s.now + delay) key).isNone
  · rw [Succession.wait, if_pos lapsed]
    rintro ⟨⟩
  · rw [Succession.wait, if_neg lapsed]
    intro ended unset
    exact Keyspace.lookup_missing (Nat.le_add_right _ _) (settled ended unset)

/-- The mutex scripts write the lock and its counter only. -/
theorem lookup_will {α : Type} {script : Script α} (within : script.Within {key, fenceKeyFor key}) (now : Nat)
    (db : Keyspace) :
    (script.exec now db).2.lookup now (willKeyFor key) = db.lookup now (willKeyFor key) := by
  refine Keyspace.lookup_congr (within _ ?_ now db)
  simp [willKeyFor_ne, willKeyFor_ne_fenceKeyFor]

/-- A `set_testament` that fails leaves the store as it is. -/
theorem setTestament_error {token : String} {ttl : Duration} {payload : Payload} {now : Nat} {db after : Keyspace}
    {error : Error} (failed : setTestament key token ttl payload now db = (.error error, after)) : after = db := by
  have post : wp now (willSet key (willKeyFor key) token payload ttl.asMillisU64)
      (fun status after => status = 1 ∨ after = db) (fun after => after = db) db := by
    refine wp_bind ((reads_get key).wp rfl fun owner _ => ?_)
    split
    · refine wp_bind (wp_setPx ?_ ?_)
      · rfl
      · exact fun _ _ => Or.inl rfl
    · exact Or.inr rfl
  unfold wp at post
  unfold setTestament at failed
  rcases ran : (willSet key (willKeyFor key) token payload ttl.asMillisU64).exec now db with ⟨reply, left⟩
  rw [ran] at post failed
  obtain ⟨refused, rfl⟩ := Prod.mk.inj failed
  cases reply with
  | error => exact post
  | ok status =>
    rcases post with rfl | same
    · contradiction
    · exact same

theorem clearTestament_lookup {token : String} {now : Nat} {db : Keyspace}
    (missing : db.lookup now (willKeyFor key) = none) :
    (clearTestament key token now db).2.lookup now (willKeyFor key) = none := by
  have post : wp now (willDel key (willKeyFor key) token)
      (fun _ after => after.lookup now (willKeyFor key) = none)
      (fun after => after.lookup now (willKeyFor key) = none) db := by
    refine wp_bind ((reads_get key).wp missing fun owner _ => ?_)
    split
    · refine wp_bind (wp_del ?_ ?_)
      · exact fun absent => absent
      · exact Keyspace.lookup_erase_self
    · exact missing
  exact post.state

theorem Succession.Settled.act (settled : s.Settled key) {operation : Operation}
    (cleared : ∀ token, operation = .release token → holder key s.db s.now = some token →
      s.db.lookup s.now (willKeyFor key) = none) : (s.act key operation).Settled key := by
  cases operation with
  | acquire token ttl fenceTtl =>
    intro ended unset
    rw [← settled ended unset]
    exact lookup_will (Names.mutex_acquire_within (by simp) (by simp) fenceTtl) s.now s.db
  | extend token ttl fenceTtl =>
    intro ended unset
    rw [← settled ended unset]
    exact lookup_will (Names.mutex_extend_within (by simp) (by simp) fenceTtl) s.now s.db
  | setTestament token ttl payload =>
    rcases ran : setTestament key token ttl payload s.now s.db with ⟨result, after⟩
    cases result with
    | ok =>
      simp only [Succession.act, ran]
      intro _ set
      contradiction
    | error error =>
      cases setTestament_error ran
      simpa only [Succession.act, ran] using settled
  | clearTestament token =>
    intro ended unset
    exact clearTestament_lookup (settled ended unset)
  | release token =>
    by_cases owner : holder key s.db s.now = some token
    · have missing := cleared token rfl owner
      have within : (Single.release key token).Within {key, fenceKeyFor key} := Names.mutex_release_within (by simp)
      have left := lookup_will within s.now s.db
      rw [exec_release_owner owner, missing] at left
      simp only [Succession.act, exec_release_owner owner]
      exact fun _ _ => left
    · obtain ⟨failed, same⟩ := exec_release_stranger owner
      rcases ran : (Single.release key token).exec s.now s.db with ⟨reply, after⟩
      rw [ran] at failed same
      subst same
      simpa only [Succession.act, ran] using settled
  | readTestament => exact settled

/-- In the runs where every release that succeeds finds no will, a key whose latest hold was
released has none, unless one was set since. -/
theorem released_without_testament (reach : (succession key).ReachableWhen (Cleared key) s)
    (ended : s.ended = some .released) (unset : s.bequeathed = false) :
    readTestament key s.now s.db = .ok none := by
  have settled : s.Settled key := by
    refine reach.invariant ?_ ?_
    · rintro s ⟨_, _, ended, _⟩ released
      cases ended.symm.trans released
    · rintro s ⟨delay, operation⟩ t settled cleared stepped
      cases Option.some.inj stepped
      refine (settled.wait delay).act ?_
      rintro token rfl owner
      rw [Succession.wait_db, Succession.wait_now] at owner ⊢
      exact cleared owner
  exact readTestament_none (settled ended unset)

end

/-- Whether a step meets `Cleared` is decided by two lookups. -/
instance (key : String) (s : Succession) (timed : Timed) : Decidable (Cleared key s timed) :=
  match timed with
  | ⟨_, .release _⟩ => inferInstanceAs (Decidable (_ → _))
  | ⟨_, .acquire ..⟩ | ⟨_, .extend ..⟩ | ⟨_, .setTestament ..⟩ | ⟨_, .clearTestament _⟩ | ⟨_, .readTestament⟩ =>
    isTrue trivial

def Succession.fresh : Succession := ⟨0, fun _ => none, none, false⟩

theorem Succession.fresh_initial (key : String) : (succession key).initial .fresh := ⟨rfl, rfl, rfl, rfl⟩

/-- A lease of one second. -/
def second : Duration := ⟨10 ^ 9, by decide⟩

/-- A holder that clears its will and releases leaves none to its successor. -/
theorem released_after_clearing : ∃ s : Succession, s.ended = some .released ∧ s.bequeathed = false ∧
    holder "job" s.db s.now = some "b" ∧ readTestament "job" s.now s.db = .ok none := by
  obtain ⟨s, reach, ended, unset, held⟩ := (succession "job").exists_reachableWhen (Cleared "job")
    (fun s => s.ended = some .released ∧ s.bequeathed = false ∧ holder "job" s.db s.now = some "b")
    (Succession.fresh_initial "job")
    [⟨0, .acquire "a" 1000 10000⟩, ⟨1, .setTestament "a" second (.raw "step 3")⟩, ⟨1, .clearTestament "a"⟩,
      ⟨1, .release "a"⟩, ⟨1, .acquire "b" 1000 10000⟩]
    (by decide)
  exact ⟨s, ended, unset, held, released_without_testament reach ended unset⟩

/-- A holder that sets a will and releases leaves it to be read. -/
theorem released_testament_survives : ¬ ∀ s, (succession "job").Reachable s → s.ended = some .released →
    s.bequeathed = false → readTestament "job" s.now s.db = .ok none := by
  intro always
  obtain ⟨s, reach, ended, unset, left⟩ := (succession "job").exists_reachableWhen (fun _ _ => True)
    (fun s => s.ended = some .released ∧ s.bequeathed = false ∧
      readTestament "job" s.now s.db = .ok (some (.raw "step 3")))
    (Succession.fresh_initial "job")
    [⟨0, .acquire "a" 1000 10000⟩, ⟨1, .setTestament "a" second (.raw "step 3")⟩, ⟨1, .release "a"⟩,
      ⟨1, .acquire "b" 1000 10000⟩]
    (by decide)
  cases left.symm.trans (always s reach ended unset)

end Palisade.Testament
