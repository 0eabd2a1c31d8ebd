import Palisade.Transition
import Palisade.Core
import Palisade.Redis.Script

/-! The count-down latch: a number under one key, set by the first client that creates
the latch and decremented down to zero. `first` is the count of that client and `answers`
what the `count_down` calls returned, in the order in which they ran; no script and no
handle reads either. -/
namespace Palisade.Latch
open Redis Transition

section
-- The texts besides decimal integers in which Lua finds a number.
variable (numeral : String → Option Rat)

/-- Lua's `tonumber` on a string object. -/
def tonumber : Payload → Option Rat
  | .int value => some value
  | .raw text => numeral text

/-- `LATCH_INIT` -/
def latchInit (key : String) (count : Payload) : Script Int := do
  if ← Script.setNx key count then
    return 1
  return 0

/-- `tonumber(redis.call('GET', KEYS[1]) or '-1')`, on its way into a comparison. -/
def latchValue (key : String) : Script Rat := do
  let stored ← Script.get key
  Script.required (tonumber numeral (stored.getD (.int (-1)))) .nilCompare

/-- `LATCH_COUNT_DOWN` -/
def latchCountDown (key : String) : Script Int := do
  let v ← latchValue numeral key
  if v < 0 then
    return -1
  if v = 0 then
    return 0
  return (← Script.decr key) + 1

/-- `LATCH_GET`. A reply keeps the integer part of a number. -/
def latchGet (key : String) : Script Int := do
  let v ← latchValue numeral key
  if v < 0 then
    return -1
  return v.floor

def initialCounts (n : UInt32) : Except Error Payload :=
  if n = 0 then .error (.invalidConfig "latch initial count must be at least 1")
  else .ok (.int n.toNat)

/-- `create`, with its script running at `now`. -/
def create (key : String) (initialCount : UInt32) (now : Nat) (db : Keyspace) :
    Except Error Unit × Keyspace :=
  match initialCounts initialCount with
  | .error error => (.error error, db)
  | .ok count =>
    match (latchInit key count).exec now db with
    | (.error fault, db) => (.error (.backend s!"latch init failed: {fault.text}"), db)
    | (.ok _, db) => (.ok (), db)

/-- A vanished latch counts as fully consumed. -/
def evalRemaining (script : Script Int) (now : Nat) (db : Keyspace) : Except Error Nat × Keyspace :=
  match script.exec now db with
  | (.error fault, db) => (.error (.backend s!"latch op failed: {fault.text}"), db)
  | (.ok v, db) => if v < 0 then (.ok 0, db) else (.ok v.toNat, db)

def countDown (key : String) (now : Nat) (db : Keyspace) : Except Error Nat × Keyspace :=
  evalRemaining (latchCountDown numeral key) now db

def count (key : String) (now : Nat) (db : Keyspace) : Except Error Nat × Keyspace :=
  evalRemaining (latchGet numeral key) now db

/-! Runs of the calls of any clients. -/

structure State where
  now : Nat
  db : Keyspace
  /-- The clients whose `create` returned a latch. -/
  handles : String → Bool
  first : Option UInt32
  answers : List (Except Error Nat)

inductive Call where
  | create (client : String) (initialCount : UInt32)
  | countDown (client : String)
  | count (client : String)
  deriving DecidableEq

/-- One call, `delay` after the call before it. -/
structure Timed where
  delay : Nat
  call : Call
  deriving DecidableEq

def State.wait (s : State) (delay : Nat) : State := { s with now := s.now + delay }

def State.act (key : String) (s : State) : Call → Option State
  | .create client initialCount =>
    match create key initialCount s.now s.db with
    | (.error _, db) => some { s with db }
    | (.ok _, db) => some { s with
        db
        handles := Function.update s.handles client true
        first := s.first.or (some initialCount) }
  | .countDown client =>
    if s.handles client then
      let (answer, db) := countDown numeral key s.now s.db
      some { s with db, answers := s.answers ++ [answer] }
    else none
  | .count client =>
    if s.handles client then some { s with db := (count numeral key s.now s.db).2 } else none

/-- The key starts out absent and is used by the latch only. -/
def latch (key : String) : Machine State Timed where
  initial s := s.db key = none ∧ (∀ client, s.handles client = false) ∧ s.first = none ∧ s.answers = []
  step s timed := (s.wait timed.delay).act numeral key timed.call

end

section
variable {numeral : String → Option Rat} {key : String} {db : Keyspace} {now v : Nat}

/-- The latch is at `v`. -/
def Stands (key : String) (db : Keyspace) (v : Nat) : Prop := db key = some ⟨.string (.int v), none⟩

theorem Stands.lookup (stands : Stands key db v) (now : Nat) :
    db.lookup now key = some ⟨.string (.int v), none⟩ :=
  Keyspace.lookup_eq_some.mpr ⟨stands, rfl⟩

theorem Stands.exec_value (stands : Stands key db v) :
    (latchValue numeral key).exec now db = (.ok ((v : Int) : Rat), db) := by
  simp [latchValue, Script.exec_get_string (stands.lookup now), tonumber, Script.required]

theorem not_negative (v : Nat) : ¬ ((v : Int) : Rat) < 0 := by
  rw [Rat.not_lt]
  exact Rat.intCast_nonneg.mpr (Int.natCast_nonneg v)

theorem Stands.exec_get (stands : Stands key db v) : (latchGet numeral key).exec now db = (.ok (v : Int), db) := by
  rw [latchGet, Script.exec_bind, stands.exec_value]
  simp only [if_neg (not_negative v), Script.exec_pure, Rat.floor_intCast]

theorem Stands.count (stands : Stands key db v) : count numeral key now db = (.ok v, db) := by
  have whole : ¬ (v : Int) < 0 := by omega
  simp [Latch.count, evalRemaining, stands.exec_get, whole]

theorem Stands.exec_countDown (stands : Stands key db v) (positive : 0 < v) :
    (latchCountDown numeral key).exec now db =
      (.ok v, db.put key ⟨.string (.int ((v : Int) - 1)), none⟩) := by
  have nonzero : ((v : Int) : Rat) ≠ 0 := by
    rw [Ne, Rat.intCast_eq_zero_iff]
    omega
  rw [latchCountDown, Script.exec_bind, stands.exec_value]
  simp only [if_neg (not_negative v), if_neg nonzero, Script.exec_bind, Script.exec_pure,
    Script.exec_decr_int (stands.lookup now), Int.sub_add_cancel]

/-- A `count_down` answers the count it found. -/
theorem Stands.countDown (stands : Stands key db v) (numeral : String → Option Rat) (now : Nat) :
    ∃ after, countDown numeral key now db = (.ok v, after) ∧ Stands key after (v - 1) := by
  rcases Nat.eq_zero_or_pos v with rfl | positive
  · exact ⟨db, by simp [Latch.countDown, evalRemaining, latchCountDown, stands.exec_value], stands⟩
  · refine ⟨db.put key ⟨.string (.int ((v : Int) - 1)), none⟩, ?_, ?_⟩
    · have whole : ¬ (v : Int) < 0 := by omega
      simp [Latch.countDown, evalRemaining, stands.exec_countDown positive, whole]
    · have decremented : ((v - 1 : Nat) : Int) = (v : Int) - 1 := by omega
      rw [Stands, Keyspace.put_self, decremented]

theorem Stands.create (stands : Stands key db v) (n : UInt32) (now : Nat) :
    (create key n now db).2 = db := by
  unfold Latch.create
  split
  · rfl
  · simp [latchInit, Script.exec_setNx, stands.lookup now]

/-- The first `create` sets the count. -/
theorem create_first (absent : db key = none) (n : UInt32) (now : Nat) :
    n = 0 ∧ (∃ error, create key n now db = (.error error, db)) ∨
      n ≠ 0 ∧ ∃ after, create key n now db = (.ok (), after) ∧ Stands key after n.toNat := by
  have missing : db.lookup now key = none := Keyspace.lookup_eq_none.mpr (by simp [absent])
  by_cases zero : n = 0
  · refine .inl ⟨zero, .invalidConfig "latch initial count must be at least 1", ?_⟩
    simp only [Latch.create, initialCounts, if_pos zero]
  · refine .inr ⟨zero, db.put key ⟨.string (.int n.toNat), none⟩, ?_, Keyspace.put_self⟩
    simp [Latch.create, initialCounts, zero, latchInit, Script.exec_setNx, missing]

/-- Every `count_down` answered what was left when it ran. -/
def Inv (key : String) (s : State) : Prop :=
  match s.first with
  | none => s.db key = none ∧ (∀ client, s.handles client = false) ∧ s.answers = []
  | some n => Stands key s.db (n.toNat - s.answers.length) ∧
    ∀ (k : Nat) (answer : Except Error Nat), s.answers[k]? = some answer → answer = .ok (n.toNat - k)

theorem Inv.create {s t : State} (inv : Inv key s) (numeral : String → Option Rat)
    {client : String} {n : UInt32} (stepped : s.act numeral key (.create client n) = some t) : Inv key t := by
  simp only [State.act] at stepped
  cases first : s.first with
  | none =>
    simp only [Inv, first] at inv
    obtain ⟨absent, handles, answers⟩ := inv
    rcases create_first absent n s.now with ⟨_, error, ran⟩ | ⟨_, after, ran, stands⟩
    · rw [ran] at stepped
      cases stepped
      simpa only [Inv, first] using ⟨absent, handles, answers⟩
    · rw [ran] at stepped
      cases stepped
      simpa [Inv, first, answers] using stands
  | some m =>
    simp only [Inv, first] at inv
    obtain ⟨stands, answered⟩ := inv
    have kept := stands.create n s.now
    rcases ran : Latch.create key n s.now s.db with ⟨result, after⟩
    rw [ran] at stepped kept
    subst kept
    cases result with
    | error | ok =>
      cases stepped
      simpa only [Inv, first] using ⟨stands, answered⟩

theorem Inv.countDown {s t : State} (inv : Inv key s) (numeral : String → Option Rat)
    {client : String} (stepped : s.act numeral key (.countDown client) = some t) : Inv key t := by
  simp only [State.act] at stepped
  split at stepped <;> [skip; contradiction]
  rename_i handle
  cases first : s.first with
  | none =>
    simp only [Inv, first] at inv
    simp [inv.2.1 client] at handle
  | some n =>
    simp only [Inv, first] at inv
    obtain ⟨stands, answered⟩ := inv
    obtain ⟨after, ran, left⟩ := stands.countDown numeral s.now
    rw [ran] at stepped
    cases stepped
    simp only [Inv, first]
    constructor
    · simpa only [List.length_append, List.length_singleton, Nat.sub_sub] using left
    · intro k answer here
      obtain before | ⟨rfl, rfl⟩ := concat_eq_some here
      · exact answered k answer before
      · rfl

theorem Inv.count {s t : State} (inv : Inv key s) (numeral : String → Option Rat)
    {client : String} (stepped : s.act numeral key (.count client) = some t) : Inv key t := by
  simp only [State.act] at stepped
  split at stepped <;> [skip; contradiction]
  rename_i handle
  cases first : s.first with
  | none =>
    simp only [Inv, first] at inv
    simp [inv.2.1 client] at handle
  | some n =>
    simp only [Inv, first] at inv
    rw [inv.1.count] at stepped
    cases stepped
    simpa only [Inv, first] using inv

theorem inv_reachable {s : State} (reach : (latch numeral key).Reachable s) : Inv key s := by
  refine Machine.Reachable.invariant ?_ ?_ reach
  · rintro s ⟨absent, handles, first, answers⟩
    simpa only [Inv, first] using ⟨absent, handles, answers⟩
  · intro s timed t inv stepped
    have waited : Inv key (s.wait timed.delay) := inv
    obtain ⟨delay, call⟩ := timed
    cases call with
    | create => exact waited.create numeral stepped
    | countDown => exact waited.countDown numeral stepped
    | count => exact waited.count numeral stepped

/-- Once some `create` has run with a count of `n`, the stored count is `n` less the
`count_down` calls, down to zero, and `count` returns it. A `count_down` returns what is
left after it exactly when nothing was left before it. -/
theorem latch_counts {s : State} (reach : (latch numeral key).Reachable s) {n : UInt32}
    (created : s.first = some n) (now : Nat) :
    s.db.lookup now key = some ⟨.string (.int ↑(n.toNat - s.answers.length)), none⟩ ∧
    count numeral key now s.db = (.ok (n.toNat - s.answers.length), s.db) ∧
    ∀ (k : Nat) (answer : Except Error Nat), s.answers[k]? = some answer →
      (answer = .ok (n.toNat - (k + 1)) ↔ n.toNat ≤ k) := by
  have inv := inv_reachable reach
  simp only [Inv, created] at inv
  obtain ⟨stands, answered⟩ := inv
  refine ⟨stands.lookup now, stands.count, ?_⟩
  intro k answer here
  rw [answered k answer here, Except.ok.injEq]
  omega

end

def State.fresh : State := ⟨0, fun _ => none, fun _ => false, none, []⟩

theorem State.fresh_initial (numeral : String → Option Rat) (key : String) :
    (latch numeral key).initial .fresh :=
  ⟨rfl, fun _ => rfl, rfl, rfl⟩

/-- A latch of one, counted down twice: the first call returns 1, the second 0. -/
theorem latch_counts_past_zero : ∃ s : State,
    s.answers = [.ok 1, .ok 0] ∧
    s.db.lookup 5 "gate" = some ⟨.string (.int 0), none⟩ ∧
    count (fun _ => none) "gate" 5 s.db = (.ok 0, s.db) ∧
    ((.ok 1 : Except Error Nat) = .ok (1 - (0 + 1)) ↔ 1 ≤ 0) ∧
    ((.ok 0 : Except Error Nat) = .ok (1 - (1 + 1)) ↔ 1 ≤ 1) := by
  obtain ⟨s, reach, created, answers⟩ := (latch (fun _ => none) "gate").exists_reachableWhen
    (fun _ _ => True) (fun s => s.first = some 1 ∧ s.answers = [.ok 1, .ok 0])
    (State.fresh_initial _ _)
    [⟨0, .create "a" 1⟩, ⟨1, .create "b" 7⟩, ⟨0, .countDown "a"⟩, ⟨2, .countDown "b"⟩] (by decide)
  obtain ⟨stored, counted, answered⟩ := latch_counts reach created 5
  rw [answers] at stored counted answered
  exact ⟨s, answers, stored, counted, answered 0 (.ok 1) rfl, answered 1 (.ok 0) rfl⟩

/-- The first `count_down` of a latch of two leaves one and returns 2. -/
theorem countDown_returns_previous : ¬ ∀ s, (latch (fun _ => none) "gate").Reachable s →
    ∀ n, s.first = some n → ∀ (k : Nat) (answer : Except Error Nat), s.answers[k]? = some answer →
      answer = .ok (n.toNat - (k + 1)) := by
  intro always
  obtain ⟨s, reach, created, answers⟩ := (latch (fun _ => none) "gate").exists_reachableWhen
    (fun _ _ => True) (fun s => s.first = some 2 ∧ s.answers = [.ok 2])
    (State.fresh_initial _ _) [⟨0, .create "a" 2⟩, ⟨0, .countDown "a"⟩] (by decide)
  have claimed := always s reach 2 created 0 (.ok 2) (by rw [answers]; rfl)
  simp at claimed

end Palisade.Latch
