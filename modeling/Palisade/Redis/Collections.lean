import Palisade.Redis.Script

/-! Hash and sorted-set commands. A command on an absent key sees an empty
collection; a write keeps the expiry of the key and creates it without one; a
collection that becomes empty is removed. -/
namespace Redis.Script
variable {now : Nat} {db : Keyspace} {key : String}

/-- Replaces the value under a key. -/
def store (key : String) (value : Value) : Script Unit := do
  write key ⟨value, (← read key).bind Entry.expireAt⟩

theorem exec_store {entry : Entry} (value : Value) (found : db.lookup now key = some entry) :
    (store key value).exec now db = (.ok (), db.put key ⟨value, entry.expireAt⟩) := by
  simp [store, found]

theorem exec_store_missing (value : Value) (missing : db.lookup now key = none) :
    (store key value).exec now db = (.ok (), db.put key ⟨value, none⟩) := by
  simp [store, missing]

/-! Hashes. -/

def hash (key : String) : Script Hash := do
  match ← read key with
  | none => return ∅
  | some ⟨.hash fields, _⟩ => return fields
  | some _ => fail .wrongType

def hget (key field : String) : Script (Option Payload) := do
  return (← hash key).lookup field

def hexists (key field : String) : Script Bool := do
  return ((← hash key).lookup field).isSome

def hset (key : String) (values : List (String × Payload)) : Script Unit := do
  let fields ← hash key
  store key (.hash (values.foldl (fun fields (field, payload) => fields.insert field payload) fields))

/-- `HDEL key field`: the number of fields removed. -/
def hdel (key field : String) : Script Nat := do
  let fields ← hash key
  if (fields.lookup field).isSome then
    if (fields.erase field).entries.isEmpty then
      remove key
    else
      store key (.hash (fields.erase field))
    return 1
  else
    return 0

/-- `HINCRBY key field delta`: the new value. -/
def hincrby (key field : String) (delta : Int) : Script Int := do
  let fields ← hash key
  match fields.lookup field with
  | none =>
    store key (.hash (fields.insert field (.int delta)))
    return delta
  | some (.int value) =>
    store key (.hash (fields.insert field (.int (value + delta))))
    return value + delta
  | some (.raw _) => fail .hashNotInteger

section
variable {fields : Hash} {stop : Option Nat}

theorem exec_hash_missing (missing : db.lookup now key = none) :
    (hash key).exec now db = (.ok ∅, db) := by
  simp [hash, missing]

theorem exec_hset_missing (missing : db.lookup now key = none) (values : List (String × Payload)) :
    (hset key values).exec now db = (.ok (), db.put key
      ⟨.hash (values.foldl (fun fields (field, payload) => fields.insert field payload) ∅), none⟩) := by
  simp [hset, exec_hash_missing missing, exec_store_missing _ missing]

variable (found : db.lookup now key = some ⟨.hash fields, stop⟩)
include found

theorem exec_hash : (hash key).exec now db = (.ok fields, db) := by
  simp [hash, found]

theorem exec_hget (field : String) :
    (hget key field).exec now db = (.ok (fields.lookup field), db) := by
  simp [hget, exec_hash found]

theorem exec_hexists (field : String) :
    (hexists key field).exec now db = (.ok (fields.lookup field).isSome, db) := by
  simp [hexists, exec_hash found]

theorem exec_hset (values : List (String × Payload)) : (hset key values).exec now db = (.ok (),
    db.put key
      ⟨.hash (values.foldl (fun fields (field, payload) => fields.insert field payload) fields), stop⟩) := by
  simp [hset, exec_hash found, exec_store _ found]

theorem exec_hincrby {field : String} {value : Int} (counts : fields.lookup field = some (.int value))
    (delta : Int) : (hincrby key field delta).exec now db =
      (.ok (value + delta), db.put key ⟨.hash (fields.insert field (.int (value + delta))), stop⟩) := by
  simp [hincrby, exec_hash found, exec_store _ found, counts]

theorem exec_hdel {field other : String} {payload kept : Payload}
    (present : fields.lookup field = some payload) (distinct : other ≠ field)
    (remains : fields.lookup other = some kept) :
    (hdel key field).exec now db = (.ok 1, db.put key ⟨.hash (fields.erase field), stop⟩) := by
  have populated : (fields.erase field).entries ≠ [] := by
    intro empty
    have still := AList.lookup_erase_ne (s := fields) distinct
    rw [remains] at still
    have member := AList.lookup_isSome.mp (Option.isSome_of_eq_some still)
    simp [AList.mem_keys, AList.keys, empty] at member
  simp [hdel, exec_hash found, exec_store _ found, present, populated]

end

/-! Sorted sets. -/

def zset (key : String) : Script ZSet := do
  match ← read key with
  | none => return ∅
  | some ⟨.zset members, _⟩ => return members
  | some _ => fail .wrongType

/-- Keeps the members that pass a test. -/
def retain (members : ZSet) (keep : String → Nat → Bool) : ZSet :=
  ⟨members.entries.filter fun member => keep member.1 member.2,
    List.NodupKeys.sublist (List.filter_sublist) members.nodupKeys⟩

def zcard (key : String) : Script Nat := do
  return (← zset key).keys.length

def zscore (key member : String) : Script (Option Nat) := do
  return (← zset key).lookup member

def zadd (key member : String) (score : Nat) : Script Unit := do
  let members ← zset key
  store key (.zset (members.insert member score))

/-- Stores what is left of a sorted set. -/
def keep (key : String) (members : ZSet) : Script Unit := do
  if members.entries.isEmpty then
    remove key
  else
    store key (.zset members)

/-- `ZREM key member`: the number of members removed. -/
def zrem (key member : String) : Script Nat := do
  let members ← zset key
  if (members.lookup member).isSome then
    keep key (members.erase member)
    return 1
  else
    return 0

/-- `ZREMRANGEBYSCORE key -inf bound`. -/
def zremrangebyscore (key : String) (bound : Nat) : Script Nat := do
  let members ← zset key
  let kept := retain members fun _ score => decide (bound < score)
  if kept.keys.length < members.keys.length then
    keep key kept
  return members.keys.length - kept.keys.length

/-- The key is absent, or it holds a sorted set with these members. -/
def ZSetAt (key : String) (now : Nat) (db : Keyspace) (members : ZSet) : Prop :=
  (db.lookup now key = none ∧ members = ∅) ∨ ∃ stop, db.lookup now key = some ⟨.zset members, stop⟩

/-- A command took members out of a sorted set: what it left has the same expiry. -/
structure Left (key : String) (now : Nat) (db : Keyspace) (members : ZSet) (after : Keyspace)
    (kept : ZSet) : Prop where
  at_key : ZSetAt key now after kept
  others : ∀ other ≠ key, after other = db other
  entry : (after key = db key ∧ kept = members) ∨ (after key = none ∧ kept = ∅) ∨
    ∃ stop, db.lookup now key = some ⟨.zset members, stop⟩ ∧ after key = some ⟨.zset kept, stop⟩

section
variable {members : ZSet} {member : String}

theorem exec_keep {stop : Option Nat} (found : db.lookup now key = some ⟨.zset members, stop⟩)
    (kept : ZSet) : ∃ after, (keep key kept).exec now db = (.ok (), after) ∧
      Left key now db members after kept := by
  by_cases empty : kept.entries.isEmpty = true
  · have none : kept = ∅ := AList.ext (List.isEmpty_iff.mp empty)
    refine ⟨db.erase key, by simp [keep, empty], .inl ⟨Keyspace.lookup_erase_self, none⟩, ?_,
      .inr (.inl ⟨Keyspace.erase_self, none⟩)⟩
    exact fun other distinct => Keyspace.erase_of_ne distinct
  · have live : Entry.expired ⟨.zset kept, stop⟩ now = false := (Keyspace.lookup_eq_some.mp found).2
    refine ⟨db.put key ⟨.zset kept, stop⟩, by simp [keep, empty, exec_store _ found], .inr ⟨stop, ?_⟩,
      ?_, .inr (.inr ⟨stop, found, Keyspace.put_self⟩)⟩
    · simp [live]
    · exact fun other distinct => Keyspace.put_of_ne distinct

theorem lookup_retain {test : String → Nat → Bool} :
    (retain members test).lookup member = (members.lookup member).filter (test member) := by
  ext score
  rw [← Option.mem_def, AList.mem_lookup_iff, Option.filter_eq_some_iff, ← Option.mem_def,
    AList.mem_lookup_iff]
  simp [retain]

theorem retain_of_length {test : String → Nat → Bool}
    (whole : members.keys.length ≤ (retain members test).keys.length) :
    retain members test = members := by
  refine AList.ext (List.Sublist.eq_of_length_le List.filter_sublist ?_)
  simpa [AList.keys, List.keys] using whole

variable (at_key : ZSetAt key now db members)
include at_key

theorem exec_zset : (zset key).exec now db = (.ok members, db) := by
  rcases at_key with ⟨missing, rfl⟩ | ⟨stop, found⟩
  · simp [zset, missing]
  · simp [zset, found]

theorem exec_zcard : (zcard key).exec now db = (.ok members.keys.length, db) := by
  simp [zcard, exec_zset at_key]

theorem exec_zscore : (zscore key member).exec now db = (.ok (members.lookup member), db) := by
  simp [zscore, exec_zset at_key]

theorem exec_zadd (member : String) (score : Nat) : ∃ stop, (zadd key member score).exec now db =
    (.ok (), db.put key ⟨.zset (members.insert member score), stop⟩) ∧
      Entry.expired ⟨.zset (members.insert member score), stop⟩ now = false := by
  rcases at_key with ⟨missing, rfl⟩ | ⟨stop, found⟩
  · exact ⟨none, by simp [zadd, exec_zset (.inl ⟨missing, rfl⟩), exec_store_missing _ missing], rfl⟩
  · refine ⟨stop, by simp [zadd, exec_zset (.inr ⟨stop, found⟩), exec_store _ found], ?_⟩
    exact (Keyspace.lookup_eq_some.mp found).2

/-- `ZADD` followed by `PEXPIRE`. -/
theorem exec_zadd_pexpire (member : String) (score ms : Nat) : ∃ added,
    (zadd key member score).exec now db = (.ok (), added) ∧ (pexpire key ms).exec now added =
      (.ok 1, db.refresh now key (.zset (members.insert member score)) ms) := by
  obtain ⟨stop, added, live⟩ := exec_zadd at_key member score
  refine ⟨_, added, ?_⟩
  simp only [exec_pexpire, Keyspace.lookup_put_self, live, Keyspace.refresh_put]
  rfl

theorem exec_zremrangebyscore (bound : Nat) : ∃ removed after,
    (zremrangebyscore key bound).exec now db = (.ok removed, after) ∧
      Left key now db members after (retain members fun _ score => decide (bound < score)) := by
  simp only [zremrangebyscore, exec_bind, exec_zset at_key, exec_ite]
  split
  · rcases at_key with ⟨_, rfl⟩ | ⟨stop, found⟩
    · simp at *
    · obtain ⟨after, ran, left⟩ := exec_keep found
        (retain members fun _ score => decide (bound < score))
      exact ⟨_, after, by simp only [ran]; rfl, left⟩
  · have whole := retain_of_length (Nat.le_of_not_lt ‹_›)
    refine ⟨_, db, rfl, ?_, fun _ _ => rfl, .inl ⟨rfl, whole⟩⟩
    rwa [whole]

theorem exec_zrem_absent (absent : members.lookup member = none) :
    (zrem key member).exec now db = (.ok 0, db) := by
  simp [zrem, exec_zset at_key, absent]

theorem exec_zrem_present (present : (members.lookup member).isSome) : ∃ after,
    (zrem key member).exec now db = (.ok 1, after) ∧
      Left key now db members after (members.erase member) := by
  rcases at_key with ⟨_, rfl⟩ | ⟨stop, found⟩
  · simp at present
  · obtain ⟨after, ran, left⟩ := exec_keep found (members.erase member)
    exact ⟨after, by simp [zrem, exec_zset (.inr ⟨stop, found⟩), present, ran], left⟩

end

end Redis.Script
