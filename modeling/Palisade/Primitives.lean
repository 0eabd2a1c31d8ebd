import Palisade.Redis.Upkeep
import Palisade.Counters

/-! What the scripts of all primitives keep up. A script works on its lock key, the fair ones
also on the queue and a heartbeat; a grant ends by counting, for which its rule goes on. -/
namespace Palisade.Primitives
open Redis Single Script

section
variable {now ttl : Nat} {u : Upkeep now} {key fenceKey token : String} {db : Keyspace}

/-! Scripts that do not count. -/

section
variable (lock : key ∈ u.keys) (held : u.Held db)
include lock held

theorem mutex_release_keeps : u.Keeps (Single.release key token) db := by
  refine wp_bind ((reads_get key).wp held fun payload _ => ?_)
  split
  · exact Upkeep.wp_del lock (u.loosen lock held) fun _ _ held => held
  · exact held

theorem reentrant_releaseOne_keeps {refresh : Nat} (allowed : u.allowed refresh) :
    u.Keeps (Reentrant.releaseOne key token refresh) db := by
  refine wp_bind ((reads_existsKey key).wp held fun present seen => ?_)
  cases seen
  split
  · exact held
  rename_i live
  refine wp_bind ((reads_hget key "owner").wp held fun owner _ => ?_)
  split
  · exact held
  refine wp_bind (wp_hincrby held fun count value => ?_)
  have held := u.overwrite_live lock held (Bool.eq_true_of_not_eq_false live) value
  split
  · exact Upkeep.keeps_del lock (u.loosen lock held)
  · split
    · exact Upkeep.keeps_pexpire lock (u.loosen lock held) allowed
    · exact held

theorem reentrant_releaseAll_keeps : u.Keeps (Reentrant.releaseAll key token) db := by
  refine wp_bind ((reads_existsKey key).wp held fun _ _ => ?_)
  split
  · exact held
  refine wp_bind ((reads_hget key "owner").wp held fun owner _ => ?_)
  split
  · exact Upkeep.keeps_del lock (u.loosen lock held)
  · exact held

theorem reentrant_extend_keeps (allowed : u.allowed ttl) : u.Keeps (Reentrant.extend key token ttl) db := by
  refine wp_bind ((reads_existsKey key).wp held fun _ _ => ?_)
  split
  · exact held
  refine wp_bind ((reads_hget key "owner").wp held fun owner _ => ?_)
  split
  · exact Upkeep.keeps_pexpire lock (u.loosen lock held) allowed
  · exact held

theorem readRelease_keeps {refresh : Nat} (allowed : u.allowed refresh) :
    u.Keeps (ReadWrite.readRelease key token refresh) db := by
  refine wp_bind ((reads_existsKey key).wp held fun _ _ => ?_)
  split
  · exact held
  refine wp_bind ((reads_hget key "mode").wp held fun mode _ => ?_)
  split
  · exact held
  refine wp_bind ((reads_hexists key _).wp held fun registered _ => ?_)
  split
  · exact held
  refine wp_bind (wp_hdel held fun _ _ cut => ?_)
  -- The hash may be gone by now, and the count starts it anew without an expiry.
  have held := Upkeep.cut lock held cut
  refine wp_bind (wp_hincrby held fun readers value => ?_)
  split
  · exact Upkeep.keeps_del lock (u.overwrite lock held value)
  · exact Upkeep.keeps_pexpire lock (u.overwrite lock held value) allowed

theorem writeRelease_keeps : u.Keeps (ReadWrite.writeRelease key token) db := by
  refine wp_bind ((reads_existsKey key).wp held fun _ _ => ?_)
  split
  · exact held
  refine wp_bind ((reads_hget key "mode").wp held fun mode _ => ?_)
  split
  · refine wp_bind ((reads_hget key "owner").wp held fun owner _ => ?_)
    split
    · exact Upkeep.keeps_del lock (u.loosen lock held)
    · exact held
  · exact held

theorem readWrite_extend_keeps (allowed : u.allowed ttl) : u.Keeps (ReadWrite.extend key token ttl) db := by
  refine wp_bind ((reads_existsKey key).wp held fun _ _ => ?_)
  split
  · exact held
  refine wp_bind ((reads_hget key "mode").wp held fun mode _ => ?_)
  split
  · exact Upkeep.keeps_pexpire lock (u.loosen lock held) allowed
  refine wp_bind ((reads_hget key "mode").wp held fun mode _ => ?_)
  split
  · refine wp_bind ((reads_hget key "owner").wp held fun owner _ => ?_)
    split
    · exact Upkeep.keeps_pexpire lock (u.loosen lock held) allowed
    · exact held
  · exact held

theorem semaphore_extend_keeps (allowed : u.allowed ttl) : u.Keeps (Semaphore.extend key token ttl) db := by
  refine wp_bind (reads_time.wp held fun _ _ => ?_)
  refine wp_bind ((reads_zscore key token).wp held fun score _ => ?_)
  split
  · exact wp_bind (wp_zadd held fun value => Upkeep.keeps_pexpire lock (u.overwrite lock held value) allowed)
  · exact held

theorem semaphore_release_keeps : u.Keeps (Semaphore.release key token) db := by
  refine wp_bind (wp_zrem held fun removed after cut => ?_)
  have held := Upkeep.cut lock held cut
  split
  · refine wp_bind ((reads_zcard key).wp held fun left _ => ?_)
    split
    · exact Upkeep.keeps_del lock (u.loosen lock held)
    · exact held
  · exact held

theorem fair_extend_keeps (allowed : u.allowed ttl) : u.Keeps (Fair.extend key token ttl) db := by
  refine wp_bind ((reads_get key).wp held fun payload _ => ?_)
  split
  · exact wp_bind (Upkeep.wp_pexpire lock (u.loosen lock held) allowed fun _ _ held => held)
  · exact held

theorem handOff_keeps {queueKey : String} {lease : Nat} {hbPrefix : Option String} (queue : queueKey ∈ u.keys)
    (allowed : u.allowed lease) (more : Nat) : u.Keeps (Fair.handOff key queueKey (.int lease) hbPrefix more) db := by
  induction more generalizing db with
  | zero => exact held
  | succ more ih =>
    refine wp_bind (wp_rpop held fun item after cut => ?_)
    have held := Upkeep.cut queue held cut
    cases item with
    | none => exact ih held
    | some waiter =>
      refine wp_bind ((Fair.reads_beats hbPrefix waiter).wp held fun alive _ => ?_)
      split
      · exact Upkeep.wp_setPx lock held held allowed fun _ held => held
      · exact ih held

theorem fair_release_keeps {queueKey : String} {lease : Nat} {hbPrefix : Option String} (queue : queueKey ∈ u.keys)
    (allowed : u.allowed lease) : u.Keeps (Fair.release key (some queueKey) token (.int lease) hbPrefix) db := by
  refine wp_bind ((reads_get key).wp held fun payload _ => ?_)
  split
  · exact held
  refine wp_bind (Upkeep.wp_del lock (u.loosen lock held) fun _ _ held => ?_)
  refine wp_bind ((reads_required _ _).wp held fun name seen => ?_)
  cases seen
  refine wp_bind ((reads_llen queueKey).wp held fun length _ => ?_)
  exact wp_bind (handOff_keeps lock held queue allowed length)

/-- The release of a dropped handle names no queue and stops there. -/
theorem fair_drop_keeps {px : Payload} : u.Keeps (Fair.release key none token px none) db := by
  refine wp_bind ((reads_get key).wp held fun payload _ => ?_)
  split
  · exact held
  · exact wp_bind (Upkeep.wp_del lock (u.loosen lock held) fun _ _ held => held)

end

/-! Grants. `counted` goes on where a script counts. -/

section
variable {E : Keyspace → Prop} (lock : key ∈ u.keys) (held : u.Held db) (fault : ∀ db, u.Held db → E db)
include lock held fault

theorem mutex_acquire_wp {Q : Nat × Int → Keyspace → Prop} {fenceTtl : Nat} (allowed : u.allowed ttl)
    (refused : ∀ db, u.Held db → Q (0, 0) db)
    (counted : ∀ status db, status = 1 ∨ status = 2 → u.Held db → wp now (allocate fenceKey fenceTtl status) Q E db) :
    wp now (Single.acquire key fenceKey token ttl fenceTtl) Q E db := by
  refine wp_bind (Upkeep.wp_setNxPx lock held (fault _ held) allowed ?_ fun after taken => ?_)
  · refine wp_bind ((reads_get key).wp (fault _ held) fun payload _ => ?_)
    split
    · exact wp_bind (Upkeep.wp_pexpire lock (u.loosen lock held) allowed fun _ after held => counted 2 after (.inr rfl) held)
    · exact refused _ held
  · exact counted 1 after (.inl rfl) taken

theorem mutex_extend_wp {Q : Nat → Keyspace → Prop} {fenceTtl : Nat} (allowed : u.allowed ttl)
    (refused : ∀ db, u.Held db → Q 0 db)
    (retained : ∀ db, u.Held db → wp now (do let _ ← pexpire fenceKey fenceTtl; return 1) Q E db) :
    wp now (Single.extend key fenceKey token ttl fenceTtl) Q E db := by
  refine wp_bind ((reads_get key).wp (fault _ held) fun payload _ => ?_)
  split
  · exact wp_bind (Upkeep.wp_pexpire lock (u.loosen lock held) allowed fun _ after held => retained after held)
  · exact refused _ held

theorem semantic_acquire_wp {N : Type} {exceeds : Option Payload → N → Bool} {preds : List (Semantic.Predicate N)}
    {Q : Nat × Int → Keyspace → Prop} (allowed : u.allowed ttl) (refused : ∀ db, u.Held db → Q (0, 0) db)
    (counted : ∀ db, u.Held db → wp now (do return (1, ← incr (fenceKeyFor key)) : Script (Nat × Int)) Q E db) :
    wp now (Semantic.guarded exceeds key token ttl preds) Q E db :=
  Semantic.wp_guarded (fault _ held) (refused _ held) fun _ => counted _ (u.put lock held allowed _)

theorem semaphore_acquire_wp {Q : Nat × Int → Keyspace → Prop} {maxPermits : Nat} (allowed : u.allowed ttl)
    (refused : ∀ db, u.Held db → Q (0, 0) db)
    (counted : ∀ db, u.Held db → wp now (do return (1, ← incr fenceKey) : Script (Nat × Int)) Q E db) :
    wp now (Semaphore.acquire key fenceKey token ttl maxPermits) Q E db := by
  refine wp_bind (reads_time.wp (fault _ held) fun instant _ => ?_)
  refine wp_bind (wp_zremrangebyscore (fault _ held) fun members _ after _ left => ?_)
  have held := Upkeep.cut lock held left.cut
  refine wp_bind ((reads_zcard key).wp (fault _ held) fun count _ => ?_)
  split
  · exact wp_bind (wp_zadd (fault _ held) fun value =>
      wp_bind (Upkeep.wp_pexpire lock (u.overwrite lock held value) allowed fun _ after held => counted after held))
  · exact refused _ held

section
variable {Q : Int × Int → Keyspace → Prop} (allowed : u.allowed ttl) (refused : ∀ db, u.Held db → Q (0, 0) db)
  (counted : ∀ status db, status = 1 ∨ status = 2 → u.Held db →
    wp now (do return (status, ← incr fenceKey) : Script (Int × Int)) Q E db)
include allowed refused counted

theorem reentrant_acquire_wp : wp now (Reentrant.acquire key fenceKey token ttl) Q E db := by
  have renewed {db : Keyspace} (loose : u.Loose key db) (status : Int) (granted : status = 1 ∨ status = 2) :
      wp now (do let _ ← pexpire key ttl; return (status, ← incr fenceKey) : Script (Int × Int)) Q E db :=
    wp_bind (Upkeep.wp_pexpire lock loose allowed fun _ after held => counted status after granted held)
  refine wp_bind ((reads_existsKey key).wp (fault _ held) fun present _ => ?_)
  split
  · exact wp_bind (wp_hset (fault _ held) fun value => renewed (u.overwrite lock held value) 1 (.inl rfl))
  refine wp_bind ((reads_hget key "owner").wp (fault _ held) fun owner _ => ?_)
  split
  · exact wp_bind (wp_hincrby (fault _ held) fun _ value => renewed (u.overwrite lock held value) 2 (.inr rfl))
  · exact refused _ held

theorem readAcquire_wp : wp now (ReadWrite.readAcquire key fenceKey token ttl) Q E db := by
  have joined {db : Keyspace} (held : u.Held db) (values : List (String × Payload)) :
      wp now (do hset key values; let _ ← pexpire key ttl; return (1, ← incr fenceKey) : Script (Int × Int)) Q E db :=
    wp_bind (wp_hset (fault _ held) fun value =>
      wp_bind (Upkeep.wp_pexpire lock (u.overwrite lock held value) allowed fun _ after held => counted 1 after (.inl rfl) held))
  refine wp_bind ((reads_existsKey key).wp (fault _ held) fun present seen => ?_)
  cases seen
  split
  · exact joined held _
  rename_i there
  refine wp_bind ((reads_hget key "mode").wp (fault _ held) fun mode _ => ?_)
  split
  · refine wp_bind ((reads_hexists key _).wp (fault _ held) fun registered _ => ?_)
    split
    · refine wp_bind (wp_hincrby (fault _ held) fun _ value => ?_)
      exact joined (u.overwrite_live lock held (Bool.eq_true_of_not_eq_false there) value) _
    · exact refused _ held
  · exact refused _ held

theorem writeAcquire_wp : wp now (ReadWrite.writeAcquire key fenceKey token ttl) Q E db := by
  have renewed {db : Keyspace} (loose : u.Loose key db) (status : Int) (granted : status = 1 ∨ status = 2) :
      wp now (do let _ ← pexpire key ttl; return (status, ← incr fenceKey) : Script (Int × Int)) Q E db :=
    wp_bind (Upkeep.wp_pexpire lock loose allowed fun _ after held => counted status after granted held)
  refine wp_bind ((reads_existsKey key).wp (fault _ held) fun present _ => ?_)
  split
  · exact wp_bind (wp_hset (fault _ held) fun value => renewed (u.overwrite lock held value) 1 (.inl rfl))
  refine wp_bind ((reads_hget key "mode").wp (fault _ held) fun mode _ => ?_)
  split
  · refine wp_bind ((reads_hget key "owner").wp (fault _ held) fun owner _ => ?_)
    split
    · exact renewed (u.loosen lock held) 2 (.inr rfl)
    · exact refused _ held
  · exact refused _ held

end
end

/-! The fair grant works on the queue and a heartbeat, too. -/

section
variable {queueKey hbKey : String} {hbTtl : Nat} {hbPrefix : Option String} (queue : queueKey ∈ u.keys)
include queue

theorem discardDead_keeps (more : Nat) (held : u.Held db) : u.Keeps (Fair.discardDead queueKey hbPrefix more) db := by
  induction more generalizing db with
  | zero => exact held
  | succ more ih =>
    have pops : u.Keeps (do let _ ← rpop queueKey; Fair.discardDead queueKey hbPrefix more : Script Unit) db :=
      wp_bind (wp_rpop held fun _ _ cut => ih (Upkeep.cut queue held cut))
    refine wp_bind ((reads_llen _).wp held fun length _ => ?_)
    split
    · exact held
    refine wp_bind ((reads_lrangeLast _).wp held fun last _ => ?_)
    cases last with
    | none => exact pops
    | some oldest =>
      refine wp_bind ((Fair.reads_beats _ _).wp held fun alive _ => ?_)
      split
      · exact held
      · exact pops

variable {E : Keyspace → Prop} {Q : Int × Int → Keyspace → Prop} (heart : hbKey ∈ u.keys) (held : u.Held db)
  (fault : ∀ db, u.Held db → E db) (waits : u.allowed (ttl * 10)) (beats : u.allowed hbTtl) (beating : 0 < hbTtl)
  (refused : ∀ db, u.Held db → Q (0, 0) db)
include heart held fault waits beats beating refused

theorem enqueue_wp : wp now (Fair.enqueue queueKey hbKey token ttl hbTtl) Q E db := by
  have beat {db : Keyspace} (loose : u.Loose queueKey db) : wp now (do
      setPx hbKey (.int 1) (.int hbTtl)
      let _ ← pexpire queueKey (ttl * 10)
      return ((0, 0) : Int × Int)) Q E db := by
    refine wp_bind ?_
    simp only [wp, exec_setPx _ beating]
    exact wp_bind (Upkeep.wp_pexpire queue (u.put_loose heart loose beats _) waits fun _ => refused)
  refine wp_bind ((reads_lpos queueKey token).wp (fault _ held) fun place _ => ?_)
  split
  · exact wp_bind (wp_lpush (fault _ held) fun value => beat (u.overwrite queue held value))
  · exact beat (u.loosen queue held)

theorem fair_acquire_wp (lock : key ∈ u.keys) (allowed : u.allowed ttl)
    (counted : ∀ status db, status = 1 ∨ status = 2 → u.Held db →
      wp now (do return (status, ← incr fenceKey) : Script (Int × Int)) Q E db) :
    wp now (Fair.acquire key queueKey fenceKey hbKey token ttl hbTtl hbPrefix) Q E db := by
  have waits {db : Keyspace} (held : u.Held db) : wp now (Fair.enqueue queueKey hbKey token ttl hbTtl) Q E db :=
    enqueue_wp queue heart held fault waits beats beating refused
  have takes {db : Keyspace} (held : u.Held db) : wp now (do
      setPx key (.raw token) (.int ttl)
      return (1, ← incr fenceKey) : Script (Int × Int)) Q E db :=
    wp_bind (Upkeep.wp_setPx lock held (fault _ held) allowed fun after held => counted 1 after (.inl rfl) held)
  refine wp_bind ((reads_get key).wp (fault _ held) fun payload _ => ?_)
  split
  · exact wp_bind (Upkeep.wp_pexpire lock (u.loosen lock held) allowed fun _ after held => counted 2 after (.inr rfl) held)
  refine wp_bind ((reads_existsKey key).wp (fault _ held) fun present _ => ?_)
  split
  · refine wp_bind ((reads_llen queueKey).wp (fault _ held) fun length _ => ?_)
    refine wp_bind ((discardDead_keeps queue length held).wp fault fun _ db held => ?_)
    refine wp_bind ((reads_lrangeLast queueKey).wp (fault _ held) fun oldest _ => ?_)
    split
    · split
      · exact wp_bind ((Upkeep.keeps_lrem queue held token).wp fault fun _ _ held => takes held)
      · exact takes held
    · exact waits held
  · exact waits held

end
end

end Palisade.Primitives
