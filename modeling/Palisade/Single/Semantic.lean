import Palisade.Redis.Hoare
import Palisade.Single.Exclusivity

/-! Semantic locks: a grant under conditions on a data hash, from the same fence counter as
the mutex. A field or value without a backslash or a line break stands in the generated
script as it is; Lua's comparison of a number with a finite threshold is a parameter. The
runs mix semantic acquires with the calls of the mutex on one key, and the application
changes the data as it likes. -/
namespace Palisade.Semantic
open Redis Single Transition

/-- A condition on a field of the data hash, with thresholds in `N`. -/
inductive Predicate (N : Type) where
  | equals (field value : String)
  | fieldGt (field : String) (value : N)
  /-- The field does not exist. -/
  | absent (field : String)

variable {N : Type} (exceeds : Option Payload → N → Bool)

def dataKeyFor (key : String) : String := key ++ ":data"

/-- The text of a string object. -/
def text : Payload → String
  | .raw text => text
  | .int value => toString value

/-- The Lua expression of a condition. -/
def Predicate.holds (dataKey : String) : Predicate N → Script Bool
  | .equals field value => do return decide ((← Script.hget dataKey field).map text = some value)
  | .fieldGt field value => do return exceeds (← Script.hget dataKey field) value
  | .absent field => do return !(← Script.hexists dataKey field)

/-- The conditions joined by `and`. -/
def combined (dataKey : String) : List (Predicate N) → Script Bool
  | [] => return true
  | predicate :: rest => do
    if ← predicate.holds exceeds dataKey then combined dataKey rest else return false

/-- The script `SemanticGuard::acquire` generates. -/
def acquire (key fenceKey dataKey token : String) (ttl : Nat) (preds : List (Predicate N)) :
    Script (Nat × Int) := do
  if (← Script.existsKey dataKey) = false then
    return (0, 0)
  if (← Script.existsKey key) = true then
    return (0, 0)
  if (← combined exceeds dataKey preds) = false then
    return (0, 0)
  Script.setPx key (.raw token) (.int ttl)
  return (1, ← Script.incr fenceKey)

/-- `SemanticGuard::acquire`: without a condition nothing is sent. -/
def guarded (key token : String) (ttl : Nat) (preds : List (Predicate N)) : Script (Nat × Int) :=
  if preds.isEmpty then return (0, 0)
  else acquire exceeds key (fenceKeyFor key) (dataKeyFor key) token ttl preds

/-- There are conditions, the data is there and the lock is not, and all conditions hold. -/
def Admits (key : String) (ttl : Nat) (preds : List (Predicate N)) (now : Nat) (db : Keyspace) : Prop :=
  ttl ≠ 0 ∧ preds.isEmpty = false ∧ (db.lookup now (dataKeyFor key)).isSome ∧
    (db.lookup now key).isNone ∧
    ((combined exceeds (dataKeyFor key) preds).exec now db).1.toOption = some true

instance {key ttl preds now db} : Decidable (Admits exceeds key ttl preds now db) :=
  inferInstanceAs (Decidable (_ ∧ _))

theorem dataKeyFor_ne (key : String) : dataKeyFor key ≠ key := by
  intro same
  have lengths := congrArg String.length same
  have suffix : ":data".length = 5 := by decide
  simp only [dataKeyFor, String.length_append, suffix] at lengths
  omega

theorem fenceKeyFor_ne_dataKeyFor (key other : String) : fenceKeyFor key ≠ dataKeyFor other := by
  intro same
  have letters := congrArg (fun name => name.toList.reverse.head?) same
  simp [dataKeyFor, fenceKeyFor] at letters

variable {exceeds} {key token : String} {db : Keyspace} {now ttl : Nat} {preds : List (Predicate N)}

theorem reads_holds (dataKey : String) (predicate : Predicate N) :
    (predicate.holds exceeds dataKey).Reads := by
  cases predicate with
  | equals | fieldGt => exact Script.reads_bind (Script.reads_hget _ _) fun _ => Script.reads_pure _
  | absent => exact Script.reads_bind (Script.reads_hexists _ _) fun _ => Script.reads_pure _

theorem reads_combined (dataKey : String) (preds : List (Predicate N)) :
    (combined exceeds dataKey preds).Reads := by
  induction preds with
  | nil => exact Script.reads_pure _
  | cons predicate rest ih =>
    refine Script.reads_bind (reads_holds dataKey predicate) fun holds => ?_
    split
    · exact ih
    · exact Script.reads_pure _

/-- A semantic acquire stops where it was refused, or takes the lock and counts. -/
theorem wp_guarded {Q : Nat × Int → Keyspace → Prop} {E : Keyspace → Prop} (fault : E db)
    (refused : Q (0, 0) db)
    (admitted : Admits exceeds key ttl preds now db → Script.wp now
      (do return (1, ← Script.incr (fenceKeyFor key)) : Script (Nat × Int)) Q E
      (db.put key ⟨.string (.raw token), some (now + ttl)⟩)) :
    Script.wp now (guarded exceeds key token ttl preds) Q E db := by
  unfold guarded
  split
  · exact refused
  rename_i given
  refine Script.wp_bind ((Script.reads_existsKey _).wp fault fun data seen => ?_)
  cases seen
  split
  · exact refused
  rename_i present
  refine Script.wp_bind ((Script.reads_existsKey _).wp fault fun held seen => ?_)
  cases seen
  split
  · exact refused
  rename_i free
  refine Script.wp_bind ((reads_combined _ _).wp fault fun truth evaluated => ?_)
  split
  · exact refused
  rename_i holds
  refine Script.wp_bind ?_
  by_cases zero : ttl = 0
  · subst zero
    exact fault
  · simp only [Script.wp, Script.exec_setPx _ (Nat.pos_of_ne_zero zero)]
    refine admitted ⟨zero, by simpa using given, Option.isSome_iff_ne_none.mpr (by simpa using present),
      by simpa using free, ?_⟩
    simp only [Bool.not_eq_false] at holds
    rw [evaluated, holds]
    rfl

/-! Runs on one key. -/

inductive Operation (N : Type) where
  | mutex (call : Call)
  | semantic (token : String) (ttl : Nat) (preds : List (Predicate N))
  /-- The application replaces the data. -/
  | data (entry : Option Entry)

variable (exceeds) in
def Operation.script (key : String) : Operation N → Script (Nat × Int)
  | .mutex call => call.script key
  | .semantic token ttl preds => guarded exceeds key token ttl preds
  | .data entry => ⟨fun _ db => (.ok (0, 0), Function.update db (dataKeyFor key) entry)⟩

/-- The fence of the grant an answer reports. -/
def Operation.issued : Operation N → Except Fault (Nat × Int) → Option Int
  | .mutex (.acquire _ _), .ok (1, fence) | .mutex (.acquire _ _), .ok (2, fence) => some fence
  | .semantic _ _ _, .ok (1, fence) => some fence
  | _, _ => none

/-- The store, and the fence of the latest grant. -/
structure Shared where
  now : Nat
  db : Keyspace
  latest : Option Int

structure Action (N : Type) where
  delay : Nat
  operation : Operation N

variable (exceeds) in
def Shared.exec (key : String) (s : Shared) (action : Action N) : Shared :=
  let now := s.now + action.delay
  let (reply, db) := (action.operation.script exceeds key).exec now s.db
  ⟨now, db, (action.operation.issued reply).or s.latest⟩

variable (exceeds) in
def shared (key : String) : Machine Shared (Action N) where
  initial s := s.db key = none ∧ s.db (fenceKeyFor key) = none ∧ s.latest = none
  step s action := some (s.exec exceeds key action)

variable (exceeds) in
/-- The tenfold lease of the mutex is longer than the lease, and a semantic grant finds a
counter that outlasts it, if it finds one. -/
def Shared.Lasting (key : String) (s : Shared) (action : Action N) : Prop :=
  match action.operation with
  | .mutex (.acquire _ ttl) | .mutex (.extend _ ttl) => ttl ≠ 0 → ttl < fenceTtlMs ttl
  | .mutex (.release _) | .data _ => True
  | .semantic _ ttl preds => Admits exceeds key ttl preds (s.now + action.delay) s.db →
    ∀ counter ∈ s.db.lookup (s.now + action.delay) (fenceKeyFor key),
      ∀ ends ∈ counter.expireAt, s.now + action.delay + ttl < ends

instance {s : Shared} {action : Action N} : Decidable (s.Lasting exceeds key action) :=
  match action with
  | ⟨_, .mutex (.acquire _ _)⟩ | ⟨_, .mutex (.extend _ _)⟩ => inferInstanceAs (Decidable (_ → _))
  | ⟨_, .mutex (.release _)⟩ | ⟨_, .data _⟩ => isTrue trivial
  | ⟨delay, .semantic _ ttl preds⟩ => inferInstanceAs (Decidable (Admits exceeds key ttl preds _ s.db →
      ∀ counter ∈ s.db.lookup _ (fenceKeyFor key), ∀ ends ∈ counter.expireAt, s.now + delay + ttl < ends))

/-- What is under the two keys: a lock has a counter that outlasts it and is not behind
the latest grant. -/
inductive Kept (latest : Option Int) : Option Entry → Option Entry → Prop where
  | free (counts : ∀ entry ∈ counter, ∃ fence stop, entry = ⟨.string (.int fence), stop⟩) :
      Kept latest none counter
  | held {owner : String} {stop : Nat} {fence : Int} {retained : Option Nat}
      (outlasts : ∀ ends ∈ retained, stop < ends) (newest : ∀ issued ∈ latest, issued ≤ fence) :
      Kept latest (some ⟨.string (.raw owner), some stop⟩) (some ⟨.string (.int fence), retained⟩)

namespace Kept
variable {latest : Option Int} {lock counter : Option Entry}

theorem shaped (kept : Kept latest (db key) (db (fenceKeyFor key))) : Shaped key db := by
  generalize lock : db key = first at kept
  generalize counter : db (fenceKeyFor key) = second at kept
  cases kept with
  | free counts =>
    refine ⟨by simp [lock], fun entry stored => counts entry ?_⟩
    rw [← counter, stored]
    rfl
  | held => exact ⟨by simp [lock], by simp [Counts, counter]⟩

/-- While the lock lives, and at the instant it ends, the counter lives. -/
theorem outlives (kept : Kept latest (db key) (db (fenceKeyFor key))) {value : Value} {stop : Nat}
    (locked : db key = some ⟨value, some stop⟩) (now : Nat) (early : now ≤ stop) :
    ∃ fence retained, db.lookup now (fenceKeyFor key) = some ⟨.string (.int fence), retained⟩ ∧
      ∀ issued ∈ latest, issued ≤ fence := by
  rw [locked] at kept
  generalize counter : db (fenceKeyFor key) = second at kept
  cases kept with
  | @held _ _ fence retained outlasts newest =>
    refine ⟨fence, retained, Keyspace.lookup_eq_some.mpr ⟨counter, ?_⟩, newest⟩
    cases retained with
    | none => rfl
    | some ends =>
      have := outlasts ends rfl
      simp only [Entry.expired_some, decide_eq_false_iff_not]
      omega

theorem nextFence_newer (kept : Kept latest (db key) (db (fenceKeyFor key))) {value : Value} {stop : Nat}
    (locked : db key = some ⟨value, some stop⟩) (early : now ≤ stop) :
    ∀ issued ∈ latest, issued < nextFence (fenceKeyFor key) db now := by
  intro issued latest
  obtain ⟨fence, retained, counted, newest⟩ := kept.outlives locked now early
  have below := newest issued latest
  simp only [nextFence, counted]
  omega

/-- A live lock has an end to come. -/
theorem live (kept : Kept latest (db key) (db (fenceKeyFor key))) {entry : Entry}
    (found : db.lookup now key = some entry) :
    ∃ token stop, db key = some ⟨.string (.raw token), some stop⟩ ∧ now ≤ stop := by
  obtain ⟨stored, running⟩ := Keyspace.lookup_eq_some.mp found
  obtain ⟨token, stop, rfl⟩ := kept.shaped.lock entry stored
  simp only [Entry.expired_some, decide_eq_false_iff_not] at running
  exact ⟨token, stop, stored, by omega⟩

end Kept

/-- The store after a semantic grant: the counter keeps the expiry it has. -/
def granted (key token : String) (ttl now : Nat) (db : Keyspace) : Keyspace :=
  (db.put key ⟨.string (.raw token), some (now + ttl)⟩).overwrite now (fenceKeyFor key)
    (.string (.int (nextFence (fenceKeyFor key) db now)))

variable (exceeds) in
theorem exec_guarded (shaped : Shaped key db) (token : String) (ttl : Nat) (preds : List (Predicate N))
    (now : Nat) :
    (Admits exceeds key ttl preds now db ∧ (guarded exceeds key token ttl preds).exec now db =
      (.ok (1, nextFence (fenceKeyFor key) db now), granted key token ttl now db)) ∨
    ((guarded exceeds key token ttl preds).exec now db).2 = db ∧
      (Operation.semantic token ttl preds).issued
        ((guarded exceeds key token ttl preds).exec now db).1 = none := by
  have post : Script.wp now (guarded exceeds key token ttl preds)
      (fun answer after => (Admits exceeds key ttl preds now db ∧
          answer = (1, nextFence (fenceKeyFor key) db now) ∧ after = granted key token ttl now db) ∨
        (after = db ∧ answer = (0, 0))) (fun after => after = db) db := by
    refine wp_guarded rfl (.inr ⟨rfl, rfl⟩) fun admits => ?_
    have untouched : (db.put key ⟨.string (.raw token), some (now + ttl)⟩) (fenceKeyFor key) =
        db (fenceKeyFor key) := Keyspace.put_of_ne (fenceKeyFor_ne key)
    have seen : Keyspace.lookup _ now (fenceKeyFor key) = db.lookup now (fenceKeyFor key) :=
      Keyspace.lookup_congr untouched
    simp only [Script.wp, Script.exec_bind, Script.exec_incr, granted, Keyspace.overwrite, nextFence, seen]
    cases found : db.lookup now (fenceKeyFor key) with
    | none => exact .inl ⟨admits, rfl, rfl⟩
    | some entry =>
      obtain ⟨fence, stop, rfl⟩ := shaped.counts entry (Keyspace.lookup_eq_some.mp found).1
      exact .inl ⟨admits, rfl, rfl⟩
  unfold Script.wp at post
  rcases ran : (guarded exceeds key token ttl preds).exec now db with ⟨reply, after⟩
  rw [ran] at post
  cases reply with
  | error fault => exact .inr ⟨post, rfl⟩
  | ok answer =>
    rcases post with ⟨admits, rfl, rfl⟩ | ⟨same, rfl⟩
    · exact .inl ⟨admits, rfl⟩
    · exact .inr ⟨same, rfl⟩

/-- Every grant is issued the next fence of the counter. -/
theorem issued_eq (shaped : Shaped key db) {operation : Operation N} {issued : Int}
    (reported : operation.issued ((operation.script exceeds key).exec now db).1 = some issued) :
    issued = nextFence (fenceKeyFor key) db now := by
  cases operation with
  | mutex call =>
    cases call with
    | acquire token ttl =>
      by_cases zero : ttl = 0
      · simp [Operation.script, Call.script, Single.exec_acquire, zero, Operation.issued] at reported
      · simp only [Operation.script, Call.script, shaped.exec_acquire zero] at reported
        split at reported
        · split at reported <;> exact (Option.some.inj reported).symm
        · simp [Operation.issued] at reported
    | extend | release => simp [Operation.issued] at reported
  | semantic token ttl preds =>
    simp only [Operation.script] at reported
    rcases exec_guarded exceeds shaped token ttl preds now with ⟨_, ran⟩ | ⟨_, refused⟩
    · rw [ran] at reported
      exact (Option.some.inj reported).symm
    · simp [refused] at reported
  | data => simp [Operation.issued] at reported

/-- The invariant of the runs. -/
def Shared.Inv (key : String) (s : Shared) : Prop := Kept s.latest (s.db key) (s.db (fenceKeyFor key))

namespace Shared.Inv
variable {s : Shared}

theorem newest_self (fence : Int) : ∀ issued ∈ some fence, issued ≤ fence := by simp

/-- A renewal by the mutex sets both expiries. -/
theorem renew {fence : Int} {latest : Option Int} {retention : Nat} (instant : Nat) (positive : ttl ≠ 0)
    (longer : ttl < retention) (newest : ∀ issued ∈ latest, issued ≤ fence) :
    Inv key ⟨instant, (db.refresh now key (.string (.raw token)) ttl).refresh now (fenceKeyFor key)
      (.string (.int fence)) retention, latest⟩ := by
  have retained : retention ≠ 0 := by omega
  simp only [Inv, Keyspace.refresh_self, Keyspace.refresh_of_ne (fenceKeyFor_ne key).symm,
    Keyspace.refreshed, positive, retained, if_false]
  refine .held ?_ newest
  rintro ends ⟨⟩
  omega

variable (inv : s.Inv key) (delay : Nat)
include inv

/-- The lock goes, and the counter may. -/
theorem free (instant : Nat) {after : Keyspace} (freed : after key = none)
    (counter : ∀ entry ∈ after (fenceKeyFor key), s.db (fenceKeyFor key) = some entry) :
    Inv key ⟨instant, after, s.latest⟩ := by
  simp only [Inv, freed]
  exact .free fun entry stored => inv.shaped.counts entry (counter entry stored)

theorem erase (instant : Nat) : Inv key ⟨instant, s.db.erase key, s.latest⟩ :=
  inv.free instant Keyspace.erase_self fun _ stored =>
    (Keyspace.erase_of_ne (fenceKeyFor_ne key)).symm.trans stored

theorem exec_acquire (lasting : s.Lasting exceeds key ⟨delay, .mutex (.acquire token ttl)⟩) :
    (s.exec exceeds key ⟨delay, .mutex (.acquire token ttl)⟩).Inv key := by
  by_cases zero : ttl = 0
  · subst zero
    simp only [exec, Operation.script, Call.script, Single.exec_acquire, if_true]
    exact inv
  · simp only [exec, Operation.script, Call.script, inv.shaped.exec_acquire zero]
    split
    · split <;> exact renew _ zero (lasting zero) (newest_self _)
    · exact inv

theorem exec_extend (lasting : s.Lasting exceeds key ⟨delay, .mutex (.extend token ttl)⟩) :
    (s.exec exceeds key ⟨delay, .mutex (.extend token ttl)⟩).Inv key := by
  simp only [exec, Operation.script, Call.script, Script.exec_bind, inv.shaped.exec_extend]
  by_cases owner : holder key s.db (s.now + delay) = some token
  · obtain ⟨stop, held⟩ := holder_eq_some.mp owner
    obtain ⟨_, _, locked, early⟩ := Kept.live inv held
    obtain ⟨fence, retained, counted, newest⟩ := inv.outlives locked (s.now + delay) early
    have untouched : (s.db.refresh (s.now + delay) key (.string (.raw token)) ttl) (fenceKeyFor key) =
        s.db (fenceKeyFor key) := Keyspace.refresh_of_ne (fenceKeyFor_ne key)
    rw [if_pos owner]
    simp only [Script.exec_pexpire, Keyspace.lookup_congr untouched, counted, Script.exec_pure]
    by_cases zero : ttl = 0
    · subst zero
      refine inv.free _ ?_ ?_
      · exact (Keyspace.refresh_of_ne (fenceKeyFor_ne key).symm).trans Keyspace.refresh_self
      · intro entry stored
        cases Keyspace.refresh_self.symm.trans stored
    · exact renew _ zero (lasting zero) newest
  · rw [if_neg owner]
    exact inv

theorem exec_semantic (lasting : s.Lasting exceeds key ⟨delay, .semantic token ttl preds⟩) :
    (s.exec exceeds key ⟨delay, .semantic token ttl preds⟩).Inv key := by
  rcases exec_guarded exceeds inv.shaped token ttl preds (s.now + delay) with ⟨admits, ran⟩ | ⟨same, refused⟩
  · simp only [exec, Operation.script, ran]
    have lock : (granted key token ttl (s.now + delay) s.db) key =
        some ⟨.string (.raw token), some (s.now + delay + ttl)⟩ :=
      (Keyspace.overwrite_of_ne (fenceKeyFor_ne key).symm).trans Keyspace.put_self
    have counter : (granted key token ttl (s.now + delay) s.db) (fenceKeyFor key) =
        some ⟨.string (.int (nextFence (fenceKeyFor key) s.db (s.now + delay))),
          (s.db.lookup (s.now + delay) (fenceKeyFor key)).bind Entry.expireAt⟩ := by
      simp only [granted, Keyspace.overwrite, Keyspace.put_self,
        Keyspace.lookup_congr (Keyspace.put_of_ne (fenceKeyFor_ne key))]
    simp only [Inv, lock, counter]
    refine .held ?_ (newest_self _)
    intro ends retained
    obtain ⟨counter, found, expires⟩ := Option.bind_eq_some_iff.mp retained
    exact lasting admits counter found ends expires
  · simp only [exec, Operation.script, same, refused]
    exact inv

theorem exec {action : Action N} (lasting : s.Lasting exceeds key action) :
    (s.exec exceeds key action).Inv key := by
  obtain ⟨delay, operation⟩ := action
  cases operation with
  | mutex call =>
    cases call with
    | acquire token ttl => exact inv.exec_acquire delay lasting
    | extend token ttl => exact inv.exec_extend delay lasting
    | release token =>
      simp only [Shared.exec, Operation.script, Call.script, Script.exec_bind, inv.shaped.exec_release]
      split_ifs
      · exact inv.erase _
      · exact inv
  | semantic token ttl preds => exact inv.exec_semantic delay lasting
  | data entry =>
    simp only [Shared.exec, Operation.script, Inv, Function.update_of_ne (dataKeyFor_ne key).symm,
      Function.update_of_ne (fenceKeyFor_ne_dataKeyFor key key)]
    exact inv

end Shared.Inv

theorem Shared.inv_reachable {s : Shared}
    (reach : (shared exceeds key).ReachableWhen (Shared.Lasting exceeds key) s) : s.Inv key := by
  refine Machine.ReachableWhen.invariant ?_ ?_ reach
  · rintro s ⟨lock, counter, _⟩
    simp only [Shared.Inv, lock, counter]
    exact .free (by simp)
  · rintro s action t inv lasting ⟨⟩
    exact inv.exec lasting

section
variable {s : Shared} (inv : s.Inv key) {fence : Int} (latest : fence ∈ s.latest)
  {operation : Operation N} {issued : Int}
include inv latest

/-- The grant at the instant the lock expires. -/
theorem newer_at_expiry {entry : Entry} {stop : Nat} (locked : s.db key = some entry)
    (expires : entry.expireAt = some stop)
    (reported : operation.issued ((operation.script exceeds key).exec stop s.db).1 = some issued) :
    fence < issued := by
  obtain ⟨value, _⟩ := entry
  cases expires
  rw [issued_eq inv.shaped reported]
  exact inv.nextFence_newer locked (Nat.le_refl stop) fence latest

/-- The grant at the instant the lock is released. -/
theorem newer_after_release {instant : Nat} {freed : Keyspace}
    (released : ((Call.release token).script key).exec instant s.db = (.ok (1, 0), freed))
    (reported : operation.issued ((operation.script exceeds key).exec instant freed).1 = some issued) :
    fence < issued := by
  simp only [Call.script, Script.exec_bind, inv.shaped.exec_release] at released
  split_ifs at released with owner
  · cases released
    obtain ⟨_, held⟩ := holder_eq_some.mp owner
    obtain ⟨_, _, locked, early⟩ := Kept.live inv held
    have free := inv.erase instant
    have same : nextFence (fenceKeyFor key) (s.db.erase key) instant =
        nextFence (fenceKeyFor key) s.db instant := by
      simp only [nextFence, Keyspace.lookup_congr (Keyspace.erase_of_ne (fenceKeyFor_ne key))]
    rw [issued_eq free.shaped reported, same]
    exact inv.nextFence_newer locked early fence latest
  · cases released

end

/-- In every run whose steps are lasting, the counter lives while the lock does, and whoever
is granted the lock at the instant it expires or is released gets a larger fence than the
grant before. -/
theorem semantic_counter_outlives {s : Shared}
    (reach : (shared exceeds key).ReachableWhen (Shared.Lasting exceeds key) s) :
    (∀ instant, (s.db.lookup instant key).isSome → (s.db.lookup instant (fenceKeyFor key)).isSome) ∧
    ∀ fence ∈ s.latest, ∀ (operation : Operation N) (issued : Int),
      (∀ entry stop, s.db key = some entry → entry.expireAt = some stop →
        operation.issued ((operation.script exceeds key).exec stop s.db).1 = some issued → fence < issued) ∧
      ∀ token instant freed, ((Call.release token).script key).exec instant s.db = (.ok (1, 0), freed) →
        operation.issued ((operation.script exceeds key).exec instant freed).1 = some issued → fence < issued := by
  have inv := Shared.inv_reachable reach
  constructor
  · intro instant live
    obtain ⟨entry, found⟩ := Option.isSome_iff_exists.mp live
    obtain ⟨_, _, locked, early⟩ := Kept.live inv found
    obtain ⟨fence, retained, counted, _⟩ := inv.outlives locked instant early
    simp [counted]
  · intro fence latest operation issued
    constructor
    · intro entry stop locked expires reported
      exact newer_at_expiry inv latest locked expires reported
    · intro token instant freed released reported
      exact newer_after_release inv latest released reported

/-- The comparison where the fields are whole numbers. -/
def above : Option Payload → Int → Bool
  | some (.int value), bound => decide (bound < value)
  | _, bound => decide (bound < -999999)

/-- A seat that is open. -/
def openSeat : Operation Int :=
  .data (some ⟨.hash (AList.insert "status" (.raw "open") ∅), none⟩)

/-- A mutex lease of a second, then a semantic one of half a second: the counter outlives it,
and the grant at its end gets a larger fence. -/
theorem semantic_counter_outlives_seat : ∃ s : Shared, s.latest = some 2 ∧
    (s.db.lookup s.now "seat").isSome ∧ (s.db.lookup s.now (fenceKeyFor "seat")).isSome ∧
    ∀ issued, (Operation.mutex (N := Int) (.acquire "c" 100)).issued
      ((((Operation.mutex (.acquire "c" 100)).script above "seat").exec 550 s.db).1) = some issued → 2 < issued := by
  obtain ⟨s, reach, latest, live, ends⟩ := (shared above "seat").exists_reachableWhen
    (Shared.Lasting above "seat")
    (fun s : Shared => s.latest = some 2 ∧ (s.db.lookup s.now "seat").isSome ∧
      s.db "seat" = some ⟨.string (.raw "b"), some 550⟩)
    (s := ⟨0, fun _ => none, none⟩) ⟨rfl, rfl, rfl⟩
    [⟨0, .mutex (.acquire "a" 1000)⟩, ⟨10, .mutex (.release "a")⟩, ⟨0, openSeat⟩,
      ⟨40, .semantic "b" 500 [.equals "status" "open"]⟩] (by decide)
  obtain ⟨outlives, newer⟩ := semantic_counter_outlives reach
  exact ⟨s, latest, live, outlives s.now live,
    fun issued => (newer 2 latest _ issued).1 _ 550 ends rfl⟩

/-- A mutex lease of 10 ms retains the counter for 100 ms; the semantic lease after it is a
minute. The counter goes first, and the next grant starts over. -/
theorem semantic_counter_expires_first :
    (¬ ∀ s : Shared, (shared above "seat").Reachable s → ∀ instant, s.now ≤ instant →
      (s.db.lookup instant "seat").isSome → (s.db.lookup instant (fenceKeyFor "seat")).isSome) ∧
    ¬ ∀ s : Shared, (shared above "seat").Reachable s → ∀ fence ∈ s.latest, ∀ token instant freed,
      s.now ≤ instant → ((Call.release token).script "seat").exec instant s.db = (.ok (1, 0), freed) →
      ∀ (operation : Operation Int) (issued : Int),
        operation.issued ((operation.script above "seat").exec instant freed).1 = some issued → fence < issued := by
  obtain ⟨s, reach, early, latest, live, gone, released, restarts⟩ := (shared above "seat").exists_reachableWhen
    (fun _ _ => True)
    (fun s : Shared => s.now ≤ 100 ∧ s.latest = some 2 ∧ (s.db.lookup 100 "seat").isSome = true ∧
      s.db.lookup 100 (fenceKeyFor "seat") = none ∧
      (((Call.release "b").script "seat").exec 100 s.db).1 = .ok (1, 0) ∧
      (Operation.mutex (N := Int) (.acquire "c" 10)).issued
        (((Operation.mutex (.acquire "c" 10)).script above "seat").exec 100
          (((Call.release "b").script "seat").exec 100 s.db).2).1 = some 1)
    (s := ⟨0, fun _ => none, none⟩) ⟨rfl, rfl, rfl⟩
    [⟨0, .mutex (.acquire "a" 10)⟩, ⟨5, .mutex (.release "a")⟩, ⟨0, openSeat⟩,
      ⟨45, .semantic "b" 60000 [.equals "status" "open"]⟩] (by decide)
  constructor
  · intro outlives
    have seen := outlives s reach 100 early live
    rw [gone] at seen
    contradiction
  · intro newer
    have larger := newer s reach 2 latest "b" 100 _ early (Prod.ext released rfl) _ 1 restarts
    contradiction

end Palisade.Semantic
