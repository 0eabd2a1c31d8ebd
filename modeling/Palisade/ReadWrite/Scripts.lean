import Mathlib.Data.List.Count
import Palisade.Redis.Collections
import Palisade.Core
import Palisade.Single.Scripts

/-! The read-write lock scripts. One hash holds the mode and either the writer's
token or the readers: a counter and one field per registered reader. All of
them share the expiry of the hash. The grant scripts are also passed a
retention for the fence counter, which they do not use. -/
namespace Palisade.ReadWrite
open Redis Single

def readerField (token : String) : String := "r:" ++ token

/-- `rw_read_acquire.lua` -/
def readAcquire (key fenceKey token : String) (ttl : Nat) : Script (Int × Int) := do
  if (← Script.existsKey key) = false then
    Script.hset key [("mode", .raw "r"), ("readers", .int 1), (readerField token, .int 1)]
    let _ ← Script.pexpire key ttl
    return (1, ← Script.incr fenceKey)
  if (← Script.hget key "mode") = some (.raw "r") then
    if (← Script.hexists key (readerField token)) = false then
      let _ ← Script.hincrby key "readers" 1
      Script.hset key [(readerField token, .int 1)]
      let _ ← Script.pexpire key ttl
      return (1, ← Script.incr fenceKey)
  return (0, 0)

/-- `rw_read_release.lua` -/
def readRelease (key token : String) (refresh : Nat) : Script Int := do
  if (← Script.existsKey key) = false then
    return -1
  if (← Script.hget key "mode") ≠ some (.raw "r") then
    return -1
  if (← Script.hexists key (readerField token)) = false then
    return -1
  let _ ← Script.hdel key (readerField token)
  let readers ← Script.hincrby key "readers" (-1)
  if readers ≤ 0 then
    let _ ← Script.del key
    return 0
  let _ ← Script.pexpire key refresh
  return readers

/-- `rw_write_acquire.lua` -/
def writeAcquire (key fenceKey token : String) (ttl : Nat) : Script (Int × Int) := do
  if (← Script.existsKey key) = false then
    Script.hset key [("mode", .raw "w"), ("owner", .raw token)]
    let _ ← Script.pexpire key ttl
    return (1, ← Script.incr fenceKey)
  if (← Script.hget key "mode") = some (.raw "w") then
    if (← Script.hget key "owner") = some (.raw token) then
      let _ ← Script.pexpire key ttl
      return (2, ← Script.incr fenceKey)
  return (0, 0)

/-- `rw_write_release.lua` -/
def writeRelease (key token : String) : Script Int := do
  if (← Script.existsKey key) = false then
    return -1
  if (← Script.hget key "mode") = some (.raw "w") then
    if (← Script.hget key "owner") = some (.raw token) then
      let _ ← Script.del key
      return 1
  return -1

/-- `rw_extend.lua` -/
def extend (key token : String) (ttl : Nat) : Script Int := do
  if (← Script.existsKey key) = false then
    return -1
  if (← Script.hget key "mode") = some (.raw "r") then
    let _ ← Script.pexpire key ttl
    return 1
  if (← Script.hget key "mode") = some (.raw "w") then
    if (← Script.hget key "owner") = some (.raw token) then
      let _ ← Script.pexpire key ttl
      return 1
  return -1

/-! The two forms of the hash. -/

def isReader (field : String) : Bool := decide (field.toList.take 2 = ['r', ':'])

/-- The number of registered readers. -/
def population (fields : Hash) : Nat := fields.keys.countP isReader

def Registered (fields : Hash) (token : String) : Prop := readerField token ∈ fields

structure ReadMode (fields : Hash) : Prop where
  mode : fields.lookup "mode" = some (.raw "r")
  owner : fields.lookup "owner" = none
  readers : fields.lookup "readers" = some (.int (population fields))
  populated : 0 < population fields

structure WriteMode (fields : Hash) (owner : String) : Prop where
  mode : fields.lookup "mode" = some (.raw "w")
  owner : fields.lookup "owner" = some (.raw owner)
  readers : fields.lookup "readers" = none
  empty : population fields = 0

section
variable {fields : Hash} {token field : String} {payload : Payload}

theorem isReader_readerField (token : String) : isReader (readerField token) = true := by
  simp [isReader, readerField]

theorem readerField_injective : Function.Injective readerField := by
  intro first second same
  simpa [readerField] using same

theorem readerField_ne (plain : isReader field = false) : field ≠ readerField token := by
  rintro rfl
  simp [isReader_readerField] at plain

theorem population_insert_plain (plain : isReader field = false) :
    population (fields.insert field payload) = population fields := by
  simp [population, List.countP_erase, plain]

theorem population_insert_reader (fresh : readerField token ∉ fields) :
    population (fields.insert (readerField token) payload) = population fields + 1 := by
  rw [AList.mem_keys] at fresh
  simp [population, isReader_readerField, List.erase_of_not_mem fresh]

theorem population_erase (member : readerField token ∈ fields) :
    population (fields.erase (readerField token)) = population fields - 1 := by
  rw [AList.mem_keys] at member
  simp [population, List.countP_erase, isReader_readerField, member]

theorem isReader_iff : isReader field = true ↔ ∃ token, field = readerField token := by
  constructor
  · intro reader
    have start : field.toList.take 2 = ['r', ':'] := by simpa [isReader] using reader
    refine ⟨String.ofList (field.toList.drop 2), String.toList_injective ?_⟩
    simpa [readerField, start] using (List.take_append_drop 2 field.toList).symm
  · rintro ⟨token, rfl⟩
    exact isReader_readerField token

/-- More than one reader: somebody else is registered. -/
theorem one_lt_population (member : Registered fields token) :
    1 < population fields ↔ ∃ other ≠ token, Registered fields other := by
  have others : 1 < population fields ↔ 0 < population (fields.erase (readerField token)) := by
    rw [population_erase member]
    omega
  rw [others, population, List.countP_pos_iff]
  constructor
  · rintro ⟨field, present, reader⟩
    obtain ⟨other, rfl⟩ := isReader_iff.mp reader
    obtain ⟨distinct, present⟩ := AList.mem_erase.mp (AList.mem_keys.mpr present)
    exact ⟨other, fun same => distinct (by rw [same]), present⟩
  · rintro ⟨other, distinct, present⟩
    refine ⟨readerField other, AList.mem_keys.mp (AList.mem_erase.mpr ⟨?_, present⟩),
      isReader_readerField other⟩
    exact fun same => distinct (readerField_injective same)

theorem population_pos (member : Registered fields token) : 0 < population fields :=
  List.countP_pos_iff.mpr ⟨_, AList.mem_keys.mp member, isReader_readerField token⟩

end

/-! One description of every script on a well-formed store. -/

inductive Command where
  | readAcquire (ttl : Nat)
  | readRelease (refresh : Nat)
  | writeAcquire (ttl : Nat)
  | writeRelease
  | extend (ttl : Nat)
  deriving DecidableEq

/-- The invocation of a script; the answer is a status and, for a grant, its fence. -/
def Command.script (key token : String) : Command → Script (Int × Int)
  | .readAcquire ttl => ReadWrite.readAcquire key (fenceKeyFor key) token ttl
  | .readRelease refresh => do return (← ReadWrite.readRelease key token refresh, 0)
  | .writeAcquire ttl => ReadWrite.writeAcquire key (fenceKeyFor key) token ttl
  | .writeRelease => do return (← ReadWrite.writeRelease key token, 0)
  | .extend ttl => do return (← ReadWrite.extend key token ttl, 0)

/-- What the scripts ever store under the two keys. -/
structure Sound (key : String) (db : Keyspace) : Prop where
  lock : ∀ entry, db key = some entry → ∃ fields stop, entry = ⟨.hash fields, some stop⟩ ∧
    (ReadMode fields ∨ ∃ owner, WriteMode fields owner)
  counter : Counts key db

section
variable (key : String) (db : Keyspace) (now : Nat)

def Absent : Prop := db.lookup now key = none

def Reading (fields : Hash) (stop : Nat) : Prop :=
  db.lookup now key = some ⟨.hash fields, some stop⟩ ∧ ReadMode fields

def Writing (fields : Hash) (owner : String) (stop : Nat) : Prop :=
  db.lookup now key = some ⟨.hash fields, some stop⟩ ∧ WriteMode fields owner

theorem Sound.view {key : String} {db : Keyspace} (sound : Sound key db) (now : Nat) :
    Absent key db now ∨ (∃ fields stop, Reading key db now fields stop) ∨
      ∃ fields owner stop, Writing key db now fields owner stop := by
  cases found : db.lookup now key with
  | none => exact .inl found
  | some entry =>
    obtain ⟨fields, stop, rfl, shape⟩ := sound.lock entry (Keyspace.lookup_eq_some.mp found).1
    rcases shape with shape | ⟨owner, shape⟩
    · exact .inr (.inl ⟨fields, stop, found, shape⟩)
    · exact .inr (.inr ⟨fields, owner, stop, found, shape⟩)

/-- What `PEXPIRE` leaves of a collection. -/
def refreshed (fields : Hash) (ms : Nat) : Option Entry := Keyspace.refreshed now (.hash fields) ms

/-- Why a script changes nothing. -/
def Denied (token : String) : Command → Prop
  | .readAcquire _ => (∃ fields stop, Reading key db now fields stop ∧ Registered fields token) ∨
    ∃ fields owner stop, Writing key db now fields owner stop
  | .readRelease _ => Absent key db now ∨
    (∃ fields stop, Reading key db now fields stop ∧ ¬ Registered fields token) ∨
    ∃ fields owner stop, Writing key db now fields owner stop
  | .writeAcquire _ => (∃ fields stop, Reading key db now fields stop) ∨
    ∃ fields owner stop, Writing key db now fields owner stop ∧ owner ≠ token
  | .writeRelease => Absent key db now ∨ (∃ fields stop, Reading key db now fields stop) ∨
    ∃ fields owner stop, Writing key db now fields owner stop ∧ owner ≠ token
  | .extend _ => Absent key db now ∨
    ∃ fields owner stop, Writing key db now fields owner stop ∧ owner ≠ token

def Command.denial : Command → Int
  | .readAcquire _ | .writeAcquire _ => 0
  | .readRelease _ | .writeRelease | .extend _ => -1

/-- Everything a script can do: its status and the entry it leaves under the key. -/
inductive Effect (token : String) : Command → Int → Option Entry → Prop where
  | enter (absent : Absent key db now) (shape : ReadMode next)
      (registers : ∀ other, Registered next other ↔ other = token) :
      Effect token (.readAcquire ttl) 1 (refreshed now next ttl)
  | join (reading : Reading key db now fields stop) (fresh : ¬ Registered fields token)
      (shape : ReadMode next)
      (registers : ∀ other, Registered next other ↔ other = token ∨ Registered fields other) :
      Effect token (.readAcquire ttl) 1 (refreshed now next ttl)
  | leave (reading : Reading key db now fields stop) (member : Registered fields token)
      (others : 1 < population fields) (shape : ReadMode next)
      (registers : ∀ other, Registered next other ↔ other ≠ token ∧ Registered fields other) :
      Effect token (.readRelease ms) (population fields - 1) (refreshed now next ms)
  | last (reading : Reading key db now fields stop) (member : Registered fields token)
      (alone : population fields = 1) : Effect token (.readRelease ms) 0 none
  | take (absent : Absent key db now) (shape : WriteMode next token) :
      Effect token (.writeAcquire ttl) 1 (refreshed now next ttl)
  | retake (writing : Writing key db now fields token stop) :
      Effect token (.writeAcquire ttl) 2 (refreshed now fields ttl)
  | yield (writing : Writing key db now fields token stop) : Effect token .writeRelease 1 none
  | renewShared (reading : Reading key db now fields stop) :
      Effect token (.extend ttl) 1 (refreshed now fields ttl)
  | renew (writing : Writing key db now fields token stop) :
      Effect token (.extend ttl) 1 (refreshed now fields ttl)
  | deny (denied : Denied key db now token command) : Effect token command command.denial (db key)

end

section
variable {key token : String} {db : Keyspace} {now ttl stop : Nat} {fields : Hash}

/-- The hash a first reader leaves. -/
def firstReader (token : String) : Hash :=
  ((AList.insert "mode" (.raw "r") ∅).insert "readers" (.int 1)).insert (readerField token) (.int 1)

def joined (fields : Hash) (token : String) : Hash :=
  (fields.insert "readers" (.int (population fields + 1))).insert (readerField token) (.int 1)

def departed (fields : Hash) (token : String) : Hash :=
  (fields.erase (readerField token)).insert "readers" (.int (population fields + -1))

def firstWriter (token : String) : Hash :=
  (AList.insert "mode" (.raw "w") ∅).insert "owner" (.raw token)

theorem firstReader_spec (token : String) : ReadMode (firstReader token) ∧
    ∀ other, Registered (firstReader token) other ↔ other = token := by
  have plain (other : String) :
      readerField other ∉ (AList.insert "mode" (.raw "r") (∅ : Hash)).insert "readers" (.int 1) := by
    have mode : readerField other ≠ "mode" := (readerField_ne (by decide)).symm
    have readers : readerField other ≠ "readers" := (readerField_ne (by decide)).symm
    simp only [AList.mem_insert, mode, readers, AList.notMem_empty, or_false, not_false_iff]
  have count : population (firstReader token) = 1 := population_insert_reader (plain token)
  refine ⟨⟨?_, ?_, ?_, by omega⟩, ?_⟩
  · rw [firstReader, AList.lookup_insert_ne (readerField_ne (by decide))]
    decide
  · rw [firstReader, AList.lookup_insert_ne (readerField_ne (by decide))]
    decide
  · rw [count, firstReader, AList.lookup_insert_ne (readerField_ne (by decide))]
    decide
  · intro other
    rw [Registered, firstReader, AList.mem_insert, or_iff_left (plain other),
      readerField_injective.eq_iff]

theorem joined_spec (shape : ReadMode fields) (fresh : ¬ Registered fields token) :
    ReadMode (joined fields token) ∧
    ∀ other, Registered (joined fields token) other ↔ other = token ∨ Registered fields other := by
  have plain (other : String) : readerField other ∈ fields.insert "readers"
      (.int (population fields + 1)) ↔ Registered fields other := by
    rw [AList.mem_insert, or_iff_right (readerField_ne (by decide)).symm, Registered]
  have count : population (joined fields token) = population fields + 1 := by
    rw [joined, population_insert_reader (mt (plain token).mp fresh)]
    rw [population_insert_plain (by decide : isReader "readers" = false)]
  refine ⟨⟨?_, ?_, ?_, by omega⟩, ?_⟩
  · rw [joined, AList.lookup_insert_ne (readerField_ne (by decide)),
      AList.lookup_insert_ne (by decide), shape.mode]
  · rw [joined, AList.lookup_insert_ne (readerField_ne (by decide)),
      AList.lookup_insert_ne (by decide), shape.owner]
  · rw [count, joined, AList.lookup_insert_ne (readerField_ne (by decide)), AList.lookup_insert]
    rfl
  · intro other
    rw [Registered, joined, AList.mem_insert, plain, readerField_injective.eq_iff]

theorem departed_spec (shape : ReadMode fields) (member : Registered fields token)
    (others : 1 < population fields) : ReadMode (departed fields token) ∧
    ∀ other, Registered (departed fields token) other ↔ other ≠ token ∧ Registered fields other := by
  have count : population (departed fields token) = population fields - 1 := by
    rw [departed, population_insert_plain (by decide), population_erase member]
  refine ⟨⟨?_, ?_, ?_, by omega⟩, ?_⟩
  · rw [departed, AList.lookup_insert_ne (by decide),
      AList.lookup_erase_ne (readerField_ne (by decide)), shape.mode]
  · rw [departed, AList.lookup_insert_ne (by decide),
      AList.lookup_erase_ne (readerField_ne (by decide)), shape.owner]
  · rw [count, departed, AList.lookup_insert]
    simp only [Option.some.injEq, Payload.int.injEq]
    omega
  · intro other
    rw [Registered, departed, AList.mem_insert, or_iff_right (readerField_ne (by decide)).symm,
      AList.mem_erase, ne_eq, readerField_injective.eq_iff, Registered]

theorem firstWriter_spec (token : String) : WriteMode (firstWriter token) token := by
  refine ⟨?_, AList.lookup_insert _, ?_, ?_⟩
  · rw [firstWriter, AList.lookup_insert_ne (by decide), AList.lookup_insert]
  · rw [firstWriter, AList.lookup_insert_ne (by decide), AList.lookup_insert_ne (by decide),
      AList.lookup_empty]
  · rw [firstWriter, population_insert_plain (by decide), population_insert_plain (by decide)]
    rfl

/-- A grant ends by refreshing the hash and counting a fence. -/
theorem exec_grant (counts : Counts key db) (now ttl : Nat) (status : Int) (next : Hash) :
    ∃ fence after, (do return (status, ← Script.incr (fenceKeyFor key)) : Script (Int × Int)).exec now
        (db.refresh now key (.hash next) ttl) = (.ok (status, fence), after) ∧
      after key = refreshed now next ttl ∧ Counts key after := by
  have kept : Counts key (db.refresh now key (.hash next) ttl) :=
    counts.congr fun _ => Keyspace.refresh_of_ne
  obtain ⟨fence, after, ran, same, counted⟩ := exec_count kept now status
  exact ⟨fence, after, ran, same.trans Keyspace.refresh_self, counted⟩

theorem exec_pexpire_put (value : Value) (live : now < stop) :
    (Script.pexpire key ttl).exec now (db.put key ⟨value, some stop⟩) =
      (.ok 1, db.refresh now key value ttl) := by
  simp only [Script.exec_pexpire, Keyspace.lookup_put_live live, Keyspace.refresh_put]

theorem exec_pexpire_new (value : Value) :
    (Script.pexpire key ttl).exec now (db.put key ⟨value, none⟩) =
      (.ok 1, db.refresh now key value ttl) := by
  simp [Script.exec_pexpire, Keyspace.refresh_put]

theorem exec_del_put (value : Value) (live : now < stop) :
    (Script.del key).exec now (db.put key ⟨value, some stop⟩) = (.ok 1, db.erase key) := by
  simp only [Script.exec_del, Keyspace.lookup_put_live live, Keyspace.erase_put]

theorem exec_readAcquire_absent (absent : Absent key db now) :
    (readAcquire key (fenceKeyFor key) token ttl).exec now db =
      (do return (1, ← Script.incr (fenceKeyFor key)) : Script (Int × Int)).exec now
        (db.refresh now key (.hash (firstReader token)) ttl) := by
  have missing : db.lookup now key = none := absent
  simp [readAcquire, missing, Script.exec_hset_missing, exec_pexpire_new, firstReader]

theorem exec_readAcquire_join (reading : Reading key db now fields stop)
    (fresh : ¬ Registered fields token) :
    (readAcquire key (fenceKeyFor key) token ttl).exec now db =
      (do return (1, ← Script.incr (fenceKeyFor key)) : Script (Int × Int)).exec now
        (db.refresh now key (.hash (joined fields token)) ttl) := by
  obtain ⟨found, shape⟩ := reading
  have live := Keyspace.live_of_lookup found
  have unregistered : fields.lookup (readerField token) = none := AList.lookup_eq_none.mpr fresh
  simp [readAcquire, found, Script.exec_hget found, shape.mode, Script.exec_hexists found,
    unregistered, Script.exec_hincrby found shape.readers,
    Script.exec_hset (Keyspace.lookup_put_live live), exec_pexpire_put _ live, Keyspace.refresh_put,
    joined]

theorem exec_readAcquire_denied (denied : Denied key db now token (.readAcquire ttl)) :
    (readAcquire key (fenceKeyFor key) token ttl).exec now db = (.ok (0, 0), db) := by
  rcases denied with ⟨fields, stop, ⟨found, shape⟩, member⟩ | ⟨fields, owner, stop, found, shape⟩
  · simp [readAcquire, found, Script.exec_hget found, shape.mode, Script.exec_hexists found,
      AList.lookup_isSome.mpr member]
  · simp [readAcquire, found, Script.exec_hget found, shape.mode]

theorem exec_readRelease_leave (reading : Reading key db now fields stop)
    (member : Registered fields token) (others : 1 < population fields) (refresh : Nat) :
    (readRelease key token refresh).exec now db =
      (.ok (population fields - 1), db.refresh now key (.hash (departed fields token)) refresh) := by
  obtain ⟨found, shape⟩ := reading
  have live := Keyspace.live_of_lookup found
  obtain ⟨payload, present⟩ := Option.isSome_iff_exists.mp (AList.lookup_isSome.mpr member)
  have mode : "mode" ≠ readerField token := readerField_ne (by decide)
  have readers : (fields.erase (readerField token)).lookup "readers" =
      some (.int (population fields)) := by
    rw [AList.lookup_erase_ne (readerField_ne (by decide)), shape.readers]
  have several : ¬ (population fields : Int) + -1 ≤ 0 := by omega
  simp [readRelease, found, Script.exec_hget found, shape.mode, Script.exec_hexists found, present,
    Script.exec_hdel found present mode shape.mode,
    Script.exec_hincrby (Keyspace.lookup_put_live live) readers, several, exec_pexpire_put _ live,
    Keyspace.refresh_put, departed, Int.sub_eq_add_neg]

theorem exec_readRelease_last (reading : Reading key db now fields stop)
    (member : Registered fields token) (alone : population fields = 1) (refresh : Nat) :
    (readRelease key token refresh).exec now db = (.ok 0, db.erase key) := by
  obtain ⟨found, shape⟩ := reading
  have live := Keyspace.live_of_lookup found
  obtain ⟨payload, present⟩ := Option.isSome_iff_exists.mp (AList.lookup_isSome.mpr member)
  have mode : "mode" ≠ readerField token := readerField_ne (by decide)
  have readers : (fields.erase (readerField token)).lookup "readers" = some (.int 1) := by
    rw [AList.lookup_erase_ne (readerField_ne (by decide)), shape.readers, alone]
    rfl
  simp [readRelease, found, Script.exec_hget found, shape.mode, Script.exec_hexists found, present,
    Script.exec_hdel found present mode shape.mode,
    Script.exec_hincrby (Keyspace.lookup_put_live live) readers, exec_del_put _ live,
    Keyspace.erase_put]

theorem exec_readRelease_denied {refresh : Nat} (denied : Denied key db now token (.readRelease refresh)) :
    (readRelease key token refresh).exec now db = (.ok (-1), db) := by
  rcases denied with absent | ⟨fields, stop, ⟨found, shape⟩, stranger⟩ | ⟨fields, owner, stop, found, shape⟩
  · have missing : db.lookup now key = none := absent
    simp [readRelease, missing]
  · have unregistered : fields.lookup (readerField token) = none := AList.lookup_eq_none.mpr stranger
    simp [readRelease, found, Script.exec_hget found, shape.mode, Script.exec_hexists found,
      unregistered]
  · simp [readRelease, found, Script.exec_hget found, shape.mode]

theorem exec_writeAcquire_absent (absent : Absent key db now) :
    (writeAcquire key (fenceKeyFor key) token ttl).exec now db =
      (do return (1, ← Script.incr (fenceKeyFor key)) : Script (Int × Int)).exec now
        (db.refresh now key (.hash (firstWriter token)) ttl) := by
  have missing : db.lookup now key = none := absent
  simp [writeAcquire, missing, Script.exec_hset_missing, exec_pexpire_new, firstWriter]

theorem exec_writeAcquire_retake (writing : Writing key db now fields token stop) :
    (writeAcquire key (fenceKeyFor key) token ttl).exec now db =
      (do return (2, ← Script.incr (fenceKeyFor key)) : Script (Int × Int)).exec now
        (db.refresh now key (.hash fields) ttl) := by
  obtain ⟨found, shape⟩ := writing
  simp [writeAcquire, found, Script.exec_hget found, shape.mode, shape.owner, Script.exec_pexpire]

theorem exec_writeAcquire_denied (denied : Denied key db now token (.writeAcquire ttl)) :
    (writeAcquire key (fenceKeyFor key) token ttl).exec now db = (.ok (0, 0), db) := by
  rcases denied with ⟨fields, stop, found, shape⟩ | ⟨fields, owner, stop, ⟨found, shape⟩, stranger⟩
  · simp [writeAcquire, found, Script.exec_hget found, shape.mode]
  · simp [writeAcquire, found, Script.exec_hget found, shape.mode, shape.owner, stranger]

theorem exec_writeRelease_yield (writing : Writing key db now fields token stop) :
    (writeRelease key token).exec now db = (.ok 1, db.erase key) := by
  obtain ⟨found, shape⟩ := writing
  simp [writeRelease, found, Script.exec_hget found, shape.mode, shape.owner, Script.exec_del]

theorem exec_writeRelease_denied (denied : Denied key db now token .writeRelease) :
    (writeRelease key token).exec now db = (.ok (-1), db) := by
  rcases denied with absent | ⟨fields, stop, found, shape⟩ |
    ⟨fields, owner, stop, ⟨found, shape⟩, stranger⟩
  · have missing : db.lookup now key = none := absent
    simp [writeRelease, missing]
  · simp [writeRelease, found, Script.exec_hget found, shape.mode]
  · simp [writeRelease, found, Script.exec_hget found, shape.mode, shape.owner, stranger]

theorem exec_extend_shared (reading : Reading key db now fields stop) :
    (extend key token ttl).exec now db = (.ok 1, db.refresh now key (.hash fields) ttl) := by
  obtain ⟨found, shape⟩ := reading
  simp [extend, found, Script.exec_hget found, shape.mode, Script.exec_pexpire]

theorem exec_extend_owner (writing : Writing key db now fields token stop) :
    (extend key token ttl).exec now db = (.ok 1, db.refresh now key (.hash fields) ttl) := by
  obtain ⟨found, shape⟩ := writing
  simp [extend, found, Script.exec_hget found, shape.mode, shape.owner, Script.exec_pexpire]

theorem exec_extend_denied (denied : Denied key db now token (.extend ttl)) :
    (extend key token ttl).exec now db = (.ok (-1), db) := by
  rcases denied with absent | ⟨fields, owner, stop, ⟨found, shape⟩, stranger⟩
  · have missing : db.lookup now key = none := absent
    simp [extend, missing]
  · simp [extend, found, Script.exec_hget found, shape.mode, shape.owner, stranger]

/-- The script answers, and does what `Effect` says. -/
def Answers (key : String) (db : Keyspace) (now : Nat) (token : String) (command : Command) : Prop :=
  ∃ status fence after, (command.script key token).exec now db = (.ok (status, fence), after) ∧
    Effect key db now token command status (after key) ∧ Counts key after

theorem Sound.erased (sound : Sound key db) : Counts key (db.erase key) :=
  sound.counter.congr fun _ => Keyspace.erase_of_ne

theorem Sound.refreshed (sound : Sound key db) (fields : Hash) (ms : Nat) :
    Counts key (db.refresh now key (.hash fields) ms) :=
  sound.counter.congr fun _ => Keyspace.refresh_of_ne

theorem readAcquire_answers (sound : Sound key db) :
    Answers key db now token (.readAcquire ttl) := by
  have refuse (denied : Denied key db now token (.readAcquire ttl)) :
      Answers key db now token (.readAcquire ttl) :=
    ⟨_, _, _, exec_readAcquire_denied denied, .deny denied, sound.counter⟩
  rcases sound.view now with absent | ⟨fields, stop, reading⟩ | writing
  · obtain ⟨fence, after, ran, stored, counted⟩ :=
      exec_grant sound.counter now ttl 1 (firstReader token)
    obtain ⟨shape, registers⟩ := firstReader_spec token
    exact ⟨1, fence, after, (exec_readAcquire_absent absent).trans ran,
      stored ▸ .enter absent shape registers, counted⟩
  · by_cases member : Registered fields token
    · exact refuse (.inl ⟨fields, stop, reading, member⟩)
    · obtain ⟨fence, after, ran, stored, counted⟩ :=
        exec_grant sound.counter now ttl 1 (joined fields token)
      obtain ⟨shape, registers⟩ := joined_spec reading.2 member
      exact ⟨1, fence, after, (exec_readAcquire_join reading member).trans ran,
        stored ▸ .join reading member shape registers, counted⟩
  · exact refuse (.inr writing)

theorem readRelease_answers (sound : Sound key db) {refresh : Nat} :
    Answers key db now token (.readRelease refresh) := by
  have refuse (denied : Denied key db now token (.readRelease refresh)) :
      Answers key db now token (.readRelease refresh) :=
    ⟨_, _, _, Script.exec_bind_pure (exec_readRelease_denied denied), .deny denied, sound.counter⟩
  rcases sound.view now with absent | ⟨fields, stop, reading⟩ | writing
  · exact refuse (.inl absent)
  · by_cases member : Registered fields token
    · by_cases others : 1 < population fields
      · obtain ⟨shape, registers⟩ := departed_spec reading.2 member others
        refine ⟨_, _, _, Script.exec_bind_pure (exec_readRelease_leave reading member others refresh), ?_,
          sound.refreshed _ _⟩
        rw [Keyspace.refresh_self]
        exact .leave reading member others shape registers
      · have alone : population fields = 1 := by
          have := population_pos member
          omega
        refine ⟨_, _, _, Script.exec_bind_pure (exec_readRelease_last reading member alone refresh), ?_,
          sound.erased⟩
        rw [Keyspace.erase_self]
        exact .last reading member alone
    · exact refuse (.inr (.inl ⟨fields, stop, reading, member⟩))
  · exact refuse (.inr (.inr writing))

theorem writeAcquire_answers (sound : Sound key db) :
    Answers key db now token (.writeAcquire ttl) := by
  have refuse (denied : Denied key db now token (.writeAcquire ttl)) :
      Answers key db now token (.writeAcquire ttl) :=
    ⟨_, _, _, exec_writeAcquire_denied denied, .deny denied, sound.counter⟩
  rcases sound.view now with absent | reading | ⟨fields, owner, stop, writing⟩
  · obtain ⟨fence, after, ran, stored, counted⟩ :=
      exec_grant sound.counter now ttl 1 (firstWriter token)
    exact ⟨1, fence, after, (exec_writeAcquire_absent absent).trans ran,
      stored ▸ .take absent (firstWriter_spec token), counted⟩
  · exact refuse (.inl reading)
  · by_cases own : owner = token
    · subst own
      obtain ⟨fence, after, ran, stored, counted⟩ :=
        exec_grant sound.counter now ttl 2 fields
      exact ⟨2, fence, after, (exec_writeAcquire_retake writing).trans ran,
        stored ▸ .retake writing, counted⟩
    · exact refuse (.inr ⟨fields, owner, stop, writing, own⟩)

theorem writeRelease_answers (sound : Sound key db) : Answers key db now token .writeRelease := by
  have refuse (denied : Denied key db now token .writeRelease) :
      Answers key db now token .writeRelease :=
    ⟨_, _, _, Script.exec_bind_pure (exec_writeRelease_denied denied), .deny denied, sound.counter⟩
  rcases sound.view now with absent | reading | ⟨fields, owner, stop, writing⟩
  · exact refuse (.inl absent)
  · exact refuse (.inr (.inl reading))
  · by_cases own : owner = token
    · subst own
      refine ⟨_, _, _, Script.exec_bind_pure (exec_writeRelease_yield writing), ?_, sound.erased⟩
      rw [Keyspace.erase_self]
      exact .yield writing
    · exact refuse (.inr (.inr ⟨fields, owner, stop, writing, own⟩))

theorem extend_answers (sound : Sound key db) : Answers key db now token (.extend ttl) := by
  have refuse (denied : Denied key db now token (.extend ttl)) :
      Answers key db now token (.extend ttl) :=
    ⟨_, _, _, Script.exec_bind_pure (exec_extend_denied denied), .deny denied, sound.counter⟩
  rcases sound.view now with absent | ⟨fields, stop, reading⟩ | ⟨fields, owner, stop, writing⟩
  · exact refuse (.inl absent)
  · refine ⟨_, _, _, Script.exec_bind_pure (exec_extend_shared reading), ?_, sound.refreshed _ _⟩
    rw [Keyspace.refresh_self]
    exact .renewShared reading
  · by_cases own : owner = token
    · subst own
      refine ⟨_, _, _, Script.exec_bind_pure (exec_extend_owner writing), ?_, sound.refreshed _ _⟩
      rw [Keyspace.refresh_self]
      exact .renew writing
    · exact refuse (.inr ⟨fields, owner, stop, writing, own⟩)

theorem Sound.answers (sound : Sound key db) (now : Nat) (token : String) (command : Command) :
    Answers key db now token command := by
  cases command with
  | readAcquire => exact readAcquire_answers sound
  | readRelease => exact readRelease_answers sound
  | writeAcquire => exact writeAcquire_answers sound
  | writeRelease => exact writeRelease_answers sound
  | extend => exact extend_answers sound

theorem refreshed_eq_some {next : Hash} {ms : Nat} {entry : Entry} :
    refreshed now next ms = some entry ↔ ms ≠ 0 ∧ entry = ⟨.hash next, some (now + ms)⟩ :=
  Keyspace.refreshed_eq_some

theorem lock_refreshed {next : Hash} {ms : Nat} (shape : ReadMode next ∨ ∃ owner, WriteMode next owner)
    (entry : Entry) (stored : refreshed now next ms = some entry) :
    ∃ fields stop, entry = ⟨.hash fields, some stop⟩ ∧
      (ReadMode fields ∨ ∃ owner, WriteMode fields owner) := by
  obtain ⟨_, rfl⟩ := refreshed_eq_some.mp stored
  exact ⟨next, _, rfl, shape⟩

/-- The scripts keep the store well formed. -/
theorem Effect.sound {command : Command} {status : Int} {after : Keyspace} (sound : Sound key db)
    (effect : Effect key db now token command status (after key)) (counts : Counts key after) :
    Sound key after := by
  refine ⟨fun entry stored => ?_, counts⟩
  rw [stored] at effect
  generalize same : some entry = left at effect
  cases effect with
  | enter _ shape | join _ _ shape | leave _ _ _ shape => exact lock_refreshed (.inl shape) entry same.symm
  | take _ shape => exact lock_refreshed (.inr ⟨_, shape⟩) entry same.symm
  | retake writing | renew writing => exact lock_refreshed (.inr ⟨_, writing.2⟩) entry same.symm
  | renewShared reading => exact lock_refreshed (.inl reading.2) entry same.symm
  | last | yield => contradiction
  | deny => exact sound.lock entry same.symm

/-- Who is registered once a script has run: whoever was, or a reader just granted. -/
theorem Effect.registered {command : Command} {status : Int} {after : Keyspace} {left : Hash}
    {last : Option Nat} {other : String}
    (effect : Effect key db now token command status (after key))
    (stored : after key = some ⟨.hash left, last⟩) (registered : Registered left other) :
    (∃ before stop, db key = some ⟨.hash before, stop⟩ ∧ Registered before other) ∨
      ∃ ttl, command = .readAcquire ttl ∧ ttl ≠ 0 ∧ other = token := by
  rw [stored] at effect
  generalize same : some (Entry.mk (.hash left) last) = entry at effect
  cases effect with
  | enter _ _ registers =>
    obtain ⟨positive, ⟨⟩⟩ := refreshed_eq_some.mp same.symm
    exact .inr ⟨_, rfl, positive, (registers other).mp registered⟩
  | join reading _ _ registers =>
    obtain ⟨positive, ⟨⟩⟩ := refreshed_eq_some.mp same.symm
    rcases (registers other).mp registered with rfl | before
    · exact .inr ⟨_, rfl, positive, rfl⟩
    · exact .inl ⟨_, _, (Keyspace.lookup_eq_some.mp reading.1).1, before⟩
  | leave reading _ _ _ registers =>
    obtain ⟨_, ⟨⟩⟩ := refreshed_eq_some.mp same.symm
    exact .inl ⟨_, _, (Keyspace.lookup_eq_some.mp reading.1).1, ((registers other).mp registered).2⟩
  | take _ shape =>
    obtain ⟨_, ⟨⟩⟩ := refreshed_eq_some.mp same.symm
    have populated := population_pos registered
    rw [shape.empty] at populated
    contradiction
  | retake writing | renew writing =>
    obtain ⟨_, ⟨⟩⟩ := refreshed_eq_some.mp same.symm
    exact .inl ⟨_, _, (Keyspace.lookup_eq_some.mp writing.1).1, registered⟩
  | renewShared reading =>
    obtain ⟨_, ⟨⟩⟩ := refreshed_eq_some.mp same.symm
    exact .inl ⟨_, _, (Keyspace.lookup_eq_some.mp reading.1).1, registered⟩
  | last | yield => contradiction
  | deny => exact .inl ⟨left, last, same.symm, registered⟩

end

end Palisade.ReadWrite
