import Palisade.Fair.Handles

/-! How the fair handle gives up and renews its lock. Dropping the last clone runs the release
script with one key and two arguments, and `extend` runs the mutex script with one key; both
scripts stop at a key that was not passed, after their first effect. -/
namespace Palisade.Fair
open Redis Single

namespace FairShared

/-- A handle of `key`. -/
def of (key token : String) (fence : FencingToken) (gone : Bool) : FairShared :=
  ⟨key, queueKeyFor key, hbPrefixFor key, token, fence, gone⟩

/-- `release`, with its script running at `now`. -/
def release (h : FairShared) (now : Nat) (db : Keyspace) : Except Error Unit × FairShared × Keyspace :=
  if h.gone then (.ok (), h, db)
  else
    let (reply, db) := h.releaseScript.exec now db
    (h.releaseReply reply, { h with gone := true }, db)

/-- The script sent when the last clone is dropped. The prefix takes the place of the lease. -/
def dropScript (h : FairShared) : Script Int := Fair.release h.key none h.token (.raw h.hbPrefix) none

/-- Dropping the last clone, with the detached script running at `now`; its reply is ignored. -/
def drop (h : FairShared) (now : Nat) (db : Keyspace) : FairShared × Keyspace :=
  if h.gone then (h, db)
  else ({ h with gone := true }, (h.dropScript.exec now db).2)

/-- `extend`, with its script running at `now`. -/
def extend (h : FairShared) (ttl : Duration) (now : Nat) (db : Keyspace) :
    Except Error Unit × FairShared × Keyspace :=
  if ttl.nanos < minTtl.nanos then
    (.error (.invalidConfig s!"extend ttl {ttl.debug} is below the {minTtl.debug} floor"), h, db)
  else if h.gone then (.error h.lost, h, db)
  else
    match (Fair.extend h.key h.token ttl.asMillisU64).exec now db with
    | (.error fault, db) => (.error (.backend s!"fair extend failed: {fault.text}"), h, db)
    | (.ok status, db) =>
      if status = 1 then (.ok (), h, db) else (.error h.lost, { h with gone := true }, db)

end FairShared

/-- Nobody is queued. -/
def Unqueued (key : String) (now : Nat) (db : Keyspace) : Prop :=
  ∀ items stop, db.lookup now (queueKeyFor key) = some ⟨.list items, stop⟩ → items = []

/-- What the handle documents: dropping it is releasing it, and `extend` sets the lease. -/
structure Documented (h : FairShared) (ttl : Duration) (now : Nat) (db : Keyspace) : Prop where
  drop : (h.drop now db).2 = (h.release now db).2.2
  extend : (h.extend ttl now db).1 = .ok ()
  lease : (h.extend ttl now db).2.2 = db.refresh now h.key (.string (.raw h.token)) ttl.asMillisU64

section
variable {key token : String} {now : Nat} {db : Keyspace} {fence : FencingToken} {gone : Bool}

/-- Both scripts first delete the lock. -/
theorem exec_release_owned (owned : holder key db now = some token) (queueKey : Option String) (ttl : Payload)
    (hbPrefix : Option String) : (release key queueKey token ttl hbPrefix).exec now db =
      (do let queueKey ← Script.required queueKey .nilArgument
          handOff key queueKey ttl hbPrefix (← Script.llen queueKey)
          return 1 : Script Int).exec now (db.erase key) := by
  obtain ⟨stop, found⟩ := holder_eq_some.mp owned
  simp [release, Script.exec_get_string found, Script.exec_del, found]

theorem exec_drop (owned : holder key db now = some token) (ttl : Payload) (hbPrefix : Option String) :
    (release key none token ttl hbPrefix).exec now db = (.error .nilArgument, db.erase key) := by
  rw [exec_release_owned owned]
  rfl

/-- A queue with anybody in it is shorter after the hand-off. -/
theorem handed_queue {items : List String} {stop : Option Nat} (populated : items ≠ []) (ttl : Nat)
    (dead : String → Bool) :
    handed key now ttl db stop (items.rdropWhile dead) (queueKeyFor key) ≠ some ⟨.list items, stop⟩ := by
  have shorter : (items.rdropWhile dead).length ≤ items.length := (List.rdropWhile_prefix dead items).length_le
  have trimmed (left : List String) (fewer : left.length < items.length) :
      db.trim (queueKeyFor key) left stop (queueKeyFor key) ≠ some ⟨.list items, stop⟩ := by
    unfold Keyspace.trim
    split
    · simp
    · rw [Keyspace.put_self]
      intro same
      cases same
      omega
  cases last : (items.rdropWhile dead).getLast? with
  | none =>
    simp only [handed, last]
    exact trimmed [] (List.length_pos_of_ne_nil populated)
  | some oldest =>
    simp only [handed, last]
    rw [Keyspace.put_of_ne (queueKeyFor_ne key)]
    refine trimmed _ ?_
    have present : items.rdropWhile dead ≠ [] := by
      intro empty
      simp [empty] at last
    have positive := List.length_pos_of_ne_nil present
    rw [List.length_dropLast]
    omega

/-- `release` only deletes the lock exactly when nobody is queued. -/
theorem release_state (owned : holder key db now = some token) :
    ((FairShared.of key token fence gone).releaseScript.exec now db).2 = db.erase key ↔ Unqueued key now db := by
  have untouched : (db.erase key) (queueKeyFor key) = db (queueKeyFor key) :=
    Keyspace.erase_of_ne (queueKeyFor_ne key)
  have seen : (db.erase key).lookup now (queueKeyFor key) = db.lookup now (queueKeyFor key) :=
    Keyspace.lookup_congr untouched
  simp only [FairShared.releaseScript, FairShared.of, exec_release_owned owned]
  match queue : db.lookup now (queueKeyFor key) with
  | none =>
    have unqueued : Unqueued key now db := by simp [Unqueued, queue]
    rw [queue] at seen
    simp [unqueued, Script.required, Script.llen, Script.exec_list_missing seen, handOff]
  | some ⟨.list [], stop⟩ =>
    have unqueued : Unqueued key now db := by
      intro items last found
      cases queue.symm.trans found
      rfl
    rw [queue] at seen
    simp [unqueued, Script.required, Script.llen, Script.exec_list seen, handOff]
  | some ⟨.list (newest :: rest), stop⟩ =>
    have waiting : ¬ Unqueued key now db := by
      intro unqueued
      cases unqueued _ _ queue
    rw [queue] at seen
    let dead (token : String) : Bool := !((db.erase key).lookup now (hbKeyFor key token)).isSome
    have known : Dead key now (db.erase key) dead := fun token => by simp [dead]
    have ran : (handOff key (queueKeyFor key) (.int 30000) (some (hbPrefixFor key)) (newest :: rest).length).exec
        now (db.erase key) = (.ok (), handed key now 30000 (db.erase key) stop ((newest :: rest).rdropWhile dead)) :=
      exec_handOff known seen (by simp) (by decide)
    have changed : handed key now 30000 (db.erase key) stop ((newest :: rest).rdropWhile dead) ≠ db.erase key := by
      intro same
      have stored := congrFun same (queueKeyFor key)
      rw [(Keyspace.lookup_eq_some.mp seen).1] at stored
      exact handed_queue (by simp) 30000 dead stored
    rw [List.length_cons] at ran
    simp [waiting, Script.required, Script.llen, Script.exec_list seen, ran, changed]
  | some ⟨.string _, _⟩ | some ⟨.hash _, _⟩ | some ⟨.zset _, _⟩ =>
    have unqueued : Unqueued key now db := by
      intro items last found
      cases queue.symm.trans found
    rw [queue] at seen
    simp [unqueued, Script.required, Script.llen, Script.list, seen]

theorem exec_extend_owned (owned : holder key db now = some token) (ttl : Nat) :
    (extend key token ttl).exec now db =
      (.error .nilArgument, db.refresh now key (.string (.raw token)) ttl) := by
  obtain ⟨stop, found⟩ := holder_eq_some.mp owned
  simp [extend, Script.exec_get_string found, Script.exec_pexpire, found]

/-- For every handle whose token owns the lock, dropping it leaves what `release` leaves
exactly if it was given up before or nobody is queued, and `extend` sets the lease and fails. -/
theorem departs_from_documentation (owned : holder key db now = some token) {ttl : Duration}
    (floor : minTtl.nanos ≤ ttl.nanos) (fence : FencingToken) (gone : Bool) :
    ¬ Documented (.of key token fence gone) ttl now db ∧
    (((FairShared.of key token fence gone).drop now db).2 =
      ((FairShared.of key token fence gone).release now db).2.2 ↔ gone = true ∨ Unqueued key now db) ∧
    (gone = false → (FairShared.of key token fence gone).extend ttl now db =
      (.error (.backend s!"fair extend failed: {Fault.text .nilArgument}"), .of key token fence gone,
        db.refresh now key (.string (.raw token)) ttl.asMillisU64)) := by
  have above : ¬ ttl.nanos < minTtl.nanos := by omega
  cases gone with
  | true =>
    refine ⟨?_, by simp [FairShared.drop, FairShared.release, FairShared.of], by simp⟩
    rintro ⟨_, extended, _⟩
    simp [FairShared.extend, FairShared.of, above] at extended
  | false =>
    have extended : (FairShared.of key token fence false).extend ttl now db =
        (.error (.backend s!"fair extend failed: {Fault.text .nilArgument}"), .of key token fence false,
          db.refresh now key (.string (.raw token)) ttl.asMillisU64) := by
      simp [FairShared.extend, FairShared.of, above, exec_extend_owned owned]
    refine ⟨?_, ?_, fun _ => extended⟩
    · rintro ⟨_, accepted, _⟩
      simp [extended] at accepted
    · have dropped : ((FairShared.of key token fence false).drop now db).2 = db.erase key := by
        simp [FairShared.drop, FairShared.dropScript, FairShared.of, exec_drop owned]
      have released : ((FairShared.of key token fence false).release now db).2.2 =
          ((FairShared.of key token fence false).releaseScript.exec now db).2 := rfl
      rw [dropped, released, eq_comm, release_state owned]
      simp

end

/-- `a` holds the lock and `b` waits and beats. -/
def contended : Keyspace := fun name =>
  if name = "orders" then some ⟨.string (.raw "a"), some 1000⟩
  else if name = queueKeyFor "orders" then some ⟨.list ["b"], some 10000⟩
  else if name = hbKeyFor "orders" "b" then some ⟨.string (.int 1), some 2000⟩
  else none

theorem contended_departs : ¬ Documented (.of "orders" "a" ⟨1⟩ false) minTtl 0 contended ∧
    ((FairShared.of "orders" "a" ⟨1⟩ false).drop 0 contended).2 ≠
      ((FairShared.of "orders" "a" ⟨1⟩ false).release 0 contended).2.2 := by
  have owned : holder "orders" contended 0 = some "a" := by decide
  obtain ⟨undocumented, drops, _⟩ := departs_from_documentation owned (Nat.le_refl minTtl.nanos) ⟨1⟩ false
  refine ⟨undocumented, ?_⟩
  rw [ne_eq, drops]
  rintro (gone | unqueued)
  · contradiction
  · have queue : contended.lookup 0 (queueKeyFor "orders") = some ⟨.list ["b"], some 10000⟩ := by decide
    cases unqueued _ _ queue

/-- Dropped, the lock is free with `b` still queued; released, it would be with `b`. -/
theorem dropped_handle_strands_waiter : ¬ ∀ (key token : String) (fence : FencingToken) (ttl : Duration) (now : Nat)
    (db : Keyspace), holder key db now = some token → minTtl.nanos ≤ ttl.nanos →
    Documented (.of key token fence false) ttl now db := by
  intro always
  have documented := always "orders" "a" ⟨1⟩ minTtl 0 contended (by decide) (Nat.le_refl _)
  have left := congrFun documented.drop "orders"
  have dropped : ((FairShared.of "orders" "a" ⟨1⟩ false).drop 0 contended).2 "orders" = none := by decide
  have released : ((FairShared.of "orders" "a" ⟨1⟩ false).release 0 contended).2.2 "orders" =
      some ⟨.string (.raw "b"), some 30000⟩ := by decide
  cases dropped.symm.trans (left.trans released)

end Palisade.Fair
