import Palisade.Redis.Collections
import Palisade.Core
import Palisade.Single.Scripts

/-! The semaphore scripts. Permits are members of one sorted set, scored by the
instant their own lease ends; the set as a whole also has the expiry of its key.
The grant script is also passed a retention for the fence counter, which it
does not use. Scores are exact here. -/
namespace Palisade.Semaphore
open Redis Single

/-- `semaphore_acquire.lua` -/
def acquire (key fenceKey token : String) (ttl maxPermits : Nat) : Script (Nat × Int) := do
  let now ← Script.time
  let _ ← Script.zremrangebyscore key now
  if (← Script.zcard key) < maxPermits then
    Script.zadd key token (now + ttl)
    let _ ← Script.pexpire key ttl
    return (1, ← Script.incr fenceKey)
  return (0, 0)

/-- `semaphore_extend.lua` -/
def extend (key token : String) (ttl : Nat) : Script Nat := do
  let now ← Script.time
  if (← Script.zscore key token) ≠ none then
    Script.zadd key token (now + ttl)
    let _ ← Script.pexpire key ttl
    return 1
  return 0

/-- `semaphore_release.lua` -/
def release (key token : String) : Script Nat := do
  if (← Script.zrem key token) = 1 then
    if (← Script.zcard key) = 0 then
      let _ ← Script.del key
    return 1
  return 0

inductive Command where
  | acquire (ttl : Nat)
  | extend (ttl : Nat)
  | release
  deriving DecidableEq

/-- The invocation of a script; the answer is a status and, for a grant, its fence. -/
def Command.script (key : String) (maxPermits : Nat) (token : String) : Command → Script (Nat × Int)
  | .acquire ttl => Semaphore.acquire key (fenceKeyFor key) token ttl maxPermits
  | .extend ttl => do return (← Semaphore.extend key token ttl, 0)
  | .release => do return (← Semaphore.release key token, 0)

/-- What the scripts ever store under the two keys. -/
structure Sound (key : String) (maxPermits : Nat) (db : Keyspace) : Prop where
  permits : ∀ entry, db key = some entry → ∃ members stop, entry = ⟨.zset members, some stop⟩ ∧
    members.keys.length ≤ maxPermits
  counter : Counts key db

/-- What `PEXPIRE` leaves of the permits. -/
def refreshed (now : Nat) (members : ZSet) (ms : Nat) : Option Entry :=
  Keyspace.refreshed now (.zset members) ms

/-- The permits whose lease has not ended. -/
def pruned (now : Nat) (members : ZSet) : ZSet :=
  Script.retain members fun _ score => decide (now < score)

/-- Everything a script can do to the permits `members` it sees: its status and
the entry it leaves under the key. -/
inductive Effect (key : String) (maxPermits : Nat) (db : Keyspace) (now : Nat) (token : String)
    (members : ZSet) : Command → Nat → Option Entry → Prop where
  | grant (room : (pruned now members).keys.length < maxPermits) :
      Effect key maxPermits db now token members (.acquire ttl) 1
        (refreshed now ((pruned now members).insert token (now + ttl)) ttl)
  | full (taken : maxPermits ≤ (pruned now members).keys.length)
      (left : Script.Left key now db members after (pruned now members)) :
      Effect key maxPermits db now token members (.acquire ttl) 0 (after key)
  | extend (member : (members.lookup token).isSome) :
      Effect key maxPermits db now token members (.extend ttl) 1
        (refreshed now (members.insert token (now + ttl)) ttl)
  | release (member : (members.lookup token).isSome)
      (left : Script.Left key now db members after (members.erase token)) :
      Effect key maxPermits db now token members .release 1 (after key)
  | deny (stranger : members.lookup token = none) (other : ∀ ttl, command ≠ .acquire ttl) :
      Effect key maxPermits db now token members command 0 (db key)

section
variable {key token : String} {maxPermits now ttl : Nat} {db : Keyspace} {members : ZSet}

/-- The script answers, and does what `Effect` says. -/
def Answers (key : String) (maxPermits : Nat) (db : Keyspace) (now : Nat) (token : String)
    (members : ZSet) (command : Command) : Prop :=
  ∃ status fence after, (command.script key maxPermits token).exec now db = (.ok (status, fence), after) ∧
    Effect key maxPermits db now token members command status (after key) ∧ Counts key after

theorem Sound.view (sound : Sound key maxPermits db) (now : Nat) :
    ∃ members, Script.ZSetAt key now db members ∧ members.keys.length ≤ maxPermits := by
  cases found : db.lookup now key with
  | none => exact ⟨∅, .inl ⟨found, rfl⟩, Nat.zero_le _⟩
  | some entry =>
    obtain ⟨members, stop, rfl, bounded⟩ := sound.permits entry (Keyspace.lookup_eq_some.mp found).1
    exact ⟨members, .inr ⟨_, found⟩, bounded⟩

theorem acquire_answers (seen : Script.ZSetAt key now db members) (counts : Counts key db) :
    Answers key maxPermits db now token members (.acquire ttl) := by
  obtain ⟨removed, between, swept, left⟩ : ∃ removed between,
      (Script.zremrangebyscore key now).exec now db = (.ok removed, between) ∧
      Script.Left key now db members between (pruned now members) :=
    Script.exec_zremrangebyscore seen now
  by_cases room : (pruned now members).keys.length < maxPermits
  · obtain ⟨added, adds, expires⟩ :=
      Script.exec_zadd_pexpire left.at_key token (now + ttl) ttl
    have kept : Counts key (between.refresh now key
        (.zset ((pruned now members).insert token (now + ttl))) ttl) :=
      (counts.congr left.others).congr fun _ => Keyspace.refresh_of_ne
    obtain ⟨fence, after, ran, same, counted⟩ := exec_count kept now 1
    refine ⟨1, fence, after, ?_, ?_, counted⟩
    · simp only [Script.exec_bind] at ran
      simp only [Command.script, Semaphore.acquire, Script.exec_bind, Script.exec_time, swept,
        Script.exec_zcard left.at_key, if_pos room, adds, expires, ran]
    · rw [same, Keyspace.refresh_self]
      exact .grant room
  · refine ⟨0, 0, between, ?_, .full (Nat.le_of_not_lt room) left, counts.congr left.others⟩
    simp only [Command.script, Semaphore.acquire, Script.exec_bind, Script.exec_time, swept,
      Script.exec_zcard left.at_key, if_neg room, Script.exec_pure]

theorem extend_answers (seen : Script.ZSetAt key now db members) (counts : Counts key db) :
    Answers key maxPermits db now token members (.extend ttl) := by
  by_cases member : (members.lookup token).isSome
  · obtain ⟨added, adds, expires⟩ := Script.exec_zadd_pexpire seen token (now + ttl) ttl
    have present : members.lookup token ≠ none := Option.isSome_iff_ne_none.mp member
    refine ⟨1, 0, db.refresh now key (.zset (members.insert token (now + ttl))) ttl, Script.exec_bind_pure ?_, ?_,
      counts.congr fun _ => Keyspace.refresh_of_ne⟩
    · simp only [Semaphore.extend, Script.exec_bind, Script.exec_time, Script.exec_zscore seen,
        if_pos present, adds, expires, Script.exec_pure]
    · rw [Keyspace.refresh_self]
      exact .extend member
  · have absent : members.lookup token = none := by simpa using member
    refine ⟨0, 0, db, Script.exec_bind_pure ?_, .deny absent (by simp), counts⟩
    simp only [Semaphore.extend, Script.exec_bind, Script.exec_time, Script.exec_zscore seen, absent,
      ne_eq, not_true, if_false, Script.exec_pure]

theorem release_answers (seen : Script.ZSetAt key now db members) (counts : Counts key db) :
    Answers key maxPermits db now token members .release := by
  by_cases member : (members.lookup token).isSome
  · obtain ⟨after, removed, left⟩ := Script.exec_zrem_present seen member
    by_cases empty : (members.erase token).keys.length = 0
    · have none : members.erase token = ∅ := by
        refine AList.ext (List.eq_nil_of_length_eq_zero ?_)
        simpa [AList.keys, List.keys] using empty
      obtain ⟨deleted, final, ran, gone⟩ : ∃ deleted final,
          (Script.del key).exec now after = (.ok deleted, final) ∧
          Script.Left key now db members final (members.erase token) := by
        rw [Script.exec_del]
        cases found : after.lookup now key with
        | none => exact ⟨0, after, rfl, left⟩
        | some entry =>
          refine ⟨1, after.erase key, rfl, .inl ⟨Keyspace.lookup_erase_self, none⟩, ?_,
            .inr (.inl ⟨Keyspace.erase_self, none⟩)⟩
          exact fun other distinct => (Keyspace.erase_of_ne distinct).trans (left.others other distinct)
      refine ⟨1, 0, final, Script.exec_bind_pure ?_, .release member gone, counts.congr gone.others⟩
      simp only [Semaphore.release, Script.exec_bind, removed, Script.exec_zcard left.at_key,
        if_true, if_pos empty, ran, Script.exec_pure]
    · refine ⟨1, 0, after, Script.exec_bind_pure ?_, .release member left, counts.congr left.others⟩
      simp only [Semaphore.release, Script.exec_bind, removed, Script.exec_zcard left.at_key,
        if_true, if_neg empty, Script.exec_pure]
  · have absent : members.lookup token = none := by simpa using member
    refine ⟨0, 0, db, Script.exec_bind_pure ?_, .deny absent (by simp), counts⟩
    simp [Semaphore.release, Script.exec_zrem_absent seen absent]

theorem answers (seen : Script.ZSetAt key now db members) (counts : Counts key db)
    (command : Command) : Answers key maxPermits db now token members command := by
  cases command with
  | acquire => exact acquire_answers seen counts
  | extend => exact extend_answers seen counts
  | release => exact release_answers seen counts

theorem pruned_length (now : Nat) (members : ZSet) :
    (pruned now members).keys.length ≤ members.keys.length := by
  simpa [pruned, Script.retain, AList.keys, List.keys] using List.length_filter_le _ members.entries

theorem insert_length_of_mem {score : Nat} (member : (members.lookup token).isSome) :
    (members.insert token score).keys.length = members.keys.length := by
  have present : token ∈ members.keys := AList.mem_keys.mp (AList.lookup_isSome.mp member)
  rw [AList.keys_insert, List.length_cons, List.length_erase_of_mem present]
  have := List.length_pos_of_mem present
  omega

/-- The scripts keep the store well formed, and the permits within the maximum. -/
theorem Effect.sound {command : Command} {status : Nat} {after : Keyspace}
    (sound : Sound key maxPermits db) (small : members.keys.length ≤ maxPermits)
    (effect : Effect key maxPermits db now token members command status (after key))
    (counts : Counts key after) : Sound key maxPermits after := by
  refine ⟨fun entry stored => ?_, counts⟩
  rw [stored] at effect
  generalize same : some entry = result at effect
  have fresh {next : ZSet} {ms : Nat} (size : next.keys.length ≤ maxPermits)
      (same : some entry = refreshed now next ms) :
      ∃ members stop, entry = ⟨.zset members, some stop⟩ ∧ members.keys.length ≤ maxPermits := by
    obtain ⟨_, rfl⟩ := Keyspace.refreshed_eq_some.mp same.symm
    exact ⟨next, _, rfl, size⟩
  have rest {after : Keyspace} {kept : ZSet} (size : kept.keys.length ≤ maxPermits)
      (left : Script.Left key now db members after kept) (same : some entry = after key) :
      ∃ members stop, entry = ⟨.zset members, some stop⟩ ∧ members.keys.length ≤ maxPermits := by
    rcases left.entry with ⟨unchanged, _⟩ | ⟨gone, _⟩ | ⟨stop, found, stays⟩
    · exact sound.permits entry (unchanged ▸ same.symm)
    · rw [gone] at same
      contradiction
    · obtain ⟨_, last, shape, _⟩ := sound.permits _ (Keyspace.lookup_eq_some.mp found).1
      cases shape
      rw [stays] at same
      exact ⟨kept, last, Option.some.inj same, size⟩
  cases effect with
  | grant room =>
    refine fresh ?_ same
    rw [AList.keys_insert, List.length_cons]
    have := List.length_erase_le (a := token) (l := (pruned now members).keys)
    omega
  | full taken left => exact rest (Nat.le_trans (pruned_length now members) small) left same
  | extend member => exact fresh (insert_length_of_mem member ▸ small) same
  | release member left =>
    refine rest (Nat.le_trans ?_ small) left same
    rw [AList.keys_erase]
    exact List.length_erase_le
  | deny => exact sound.permits entry same.symm

end
end Palisade.Semaphore
