import Palisade.Single.Semantic
import Palisade.Redis.Framing

/-! Testaments: a payload that the holder of a lock leaves for its successor, under a name of
its own next to the lock. Callers pass any text as their token; a lock that holds a number is
compared by its digits. -/
namespace Palisade.Testament
open Redis Semantic

def willKeyFor (key : String) : String := key ++ ":will"

/-- `WILL_SET` -/
def willSet (key willKey token : String) (payload : Payload) (ttl : Nat) : Script Nat := do
  if (← Script.get key).map text = some token then
    Script.setPx willKey payload (.int ttl)
    return 1
  return 0

/-- `WILL_DEL` -/
def willDel (key willKey token : String) : Script Nat := do
  if (← Script.get key).map text = some token then
    let _ ← Script.del willKey
    return 1
  return 0

def setReply (key : String) : Except Fault Nat → Except Error Unit
  | .error fault => .error (.backend s!"testament set failed: {fault.text}")
  | .ok status => if status = 1 then .ok () else .error (.lost key 0)

def setTestament (key token : String) (ttl : Duration) (payload : Payload) (now : Nat) (db : Keyspace) :
    Except Error Unit × Keyspace :=
  let (reply, db) := (willSet key (willKeyFor key) token payload ttl.asMillisU64).exec now db
  (setReply key reply, db)

def clearReply : Except Fault Nat → Except Error Unit
  | .error fault => .error (.backend s!"testament clear failed: {fault.text}")
  | .ok _ => .ok ()

def clearTestament (key token : String) (now : Nat) (db : Keyspace) : Except Error Unit × Keyspace :=
  let (reply, db) := (willDel key (willKeyFor key) token).exec now db
  (clearReply reply, db)

/-- `read_testament`, on the reply to its `GET`. -/
def readReply : Except Fault (Option Payload) → Except Error (Option Payload)
  | .error fault => .error (.backend s!"testament read failed: {fault.text}")
  | .ok payload => .ok payload

def readTestament (key : String) (now : Nat) (db : Keyspace) : Except Error (Option Payload) :=
  readReply ((Script.get (willKeyFor key)).exec now db).1

theorem willKeyFor_ne (key : String) : willKeyFor key ≠ key := by
  intro same
  have lengths := congrArg String.length same
  have suffix : ":will".length = 5 := by decide
  simp only [willKeyFor, String.length_append, suffix] at lengths
  omega

theorem willKeyFor_ne_fenceKeyFor (key other : String) : willKeyFor key ≠ Single.fenceKeyFor other := by
  intro same
  have letters := congrArg (fun name => name.toList.reverse.head?) same
  simp [willKeyFor, Single.fenceKeyFor] at letters

theorem readTestament_none {key : String} {now : Nat} {db : Keyspace}
    (missing : db.lookup now (willKeyFor key) = none) : readTestament key now db = .ok none := by
  simp [readTestament, Script.exec_get_none missing, readReply]

section
variable {names : Set String} {key willKey token : String} (inside : willKey ∈ names)
include inside

theorem willSet_within (payload : Payload) (ttl : Nat) : (willSet key willKey token payload ttl).Within names := by
  refine Script.within_bind (Script.reads_get _).within fun owner => ?_
  split
  · exact Script.within_bind (Script.within_setPx inside _ _) fun _ => (Script.reads_pure _).within
  · exact (Script.reads_pure _).within

theorem willDel_within : (willDel key willKey token).Within names := by
  refine Script.within_bind (Script.reads_get _).within fun owner => ?_
  split
  · exact Script.within_bind (Script.within_del inside) fun _ => (Script.reads_pure _).within
  · exact (Script.reads_pure _).within

end

end Palisade.Testament
