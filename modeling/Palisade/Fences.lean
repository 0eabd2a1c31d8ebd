import Palisade.Primitives

/-! The fences of all primitives together. Whatever grants a lock counts under the counter of
its key; nothing else counts. As long as the counter lasts, the fences of a key are the
numbers from 1 on, each once and in the order of the grants. -/
namespace Palisade.Fences
open Redis Single Transition Script Counters

/-- The fence of the grant that an answer reports. -/
def granted {S : Type} [DecidableEq S] [OfNat S 1] [OfNat S 2] : Except Fault (S × Int) → Option Int
  | .ok (status, fence) => if status = 1 ∨ status = 2 then some fence else none
  | .error _ => none

section
variable {N : Type} (exceeds : Option Payload → N → Bool)

/-- The fence a call is granted with. -/
def issued (key : String) (now : Nat) (db : Keyspace) : Operation N → Option Int
  | .mutex operation => operation.issued ((operation.script exceeds key).exec now db).1
  | .reentrant token (.acquire ttl) => granted (((Reentrant.Command.acquire ttl).script key token).exec now db).1
  | .readWrite token (.readAcquire ttl) => granted (((ReadWrite.Command.readAcquire ttl).script key token).exec now db).1
  | .readWrite token (.writeAcquire ttl) => granted (((ReadWrite.Command.writeAcquire ttl).script key token).exec now db).1
  | .semaphore maxPermits token (.acquire ttl) =>
    granted (((Semaphore.Command.acquire ttl).script key maxPermits token).exec now db).1
  | .fairAcquire token ttl => granted ((Fair.acquire key (Fair.queueKeyFor key) (fenceKeyFor key)
      (Fair.hbKeyFor key token) token ttl (max ttl 2000) none).exec now db).1
  | _ => none

/-- `issued` are the fences granted for each key, the newest first. -/
structure Ledger where
  now : Nat
  db : Keyspace
  issued : String → List Int

/-- No counter is there at the start; the rest of the store is arbitrary. -/
def issuing : Machine Ledger (Action N) where
  initial s := (∀ key, s.db (fenceKeyFor key) = none) ∧ ∀ key, s.issued key = []
  step s action :=
    let now := s.now + action.delay
    some {
      now
      db := action.operation.exec exceeds action.key now s.db
      issued := Function.update s.issued action.key
        ((issued exceeds action.key now s.db action.operation).toList ++ s.issued action.key) }

end

/-- A name that is the counter of some key. -/
def IsCounter (name : String) : Prop := ∃ owner, fenceKeyFor owner = name

/-- The key whose counter the name would be. -/
def ownerOf (name : String) : String := String.ofList ((name.toList.drop 1).take (name.toList.length - 8))

theorem ownerOf_fenceKeyFor (owner : String) : ownerOf (fenceKeyFor owner) = owner := by
  simp [ownerOf, fenceKeyFor]

theorem fenceKeyFor_injective : Function.Injective fenceKeyFor := Function.LeftInverse.injective ownerOf_fenceKeyFor

theorem isCounter_iff (name : String) : fenceKeyFor (ownerOf name) = name ↔ IsCounter name := by
  constructor
  · exact fun same => ⟨_, same⟩
  · rintro ⟨owner, rfl⟩
    rw [ownerOf_fenceKeyFor]

instance (name : String) : Decidable (IsCounter name) := decidable_of_iff _ (isCounter_iff name)

/-- The names a call may write besides the counter of its key. -/
def writes {N : Type} (key : String) : Operation N → List String
  | .fairAcquire token _ => [key, Fair.hbKeyFor key token]
  | _ => [key]

/-- The retention of the counter that a call sets, if it sets one. -/
def retention {N : Type} : Operation N → Option Nat
  | .mutex (.mutex (.acquire _ ttl)) | .mutex (.mutex (.extend _ ttl)) => some (fenceTtlMs ttl)
  | _ => none

/-- The longest expiry a call sets, the retention of a counter apart. -/
def longest {N : Type} : Operation N → Nat
  | .mutex (.mutex (.acquire _ ttl)) | .mutex (.mutex (.extend _ ttl)) | .mutex (.semantic _ ttl _) => ttl
  | .reentrant _ (.acquire ttl) | .reentrant _ (.extend ttl) | .reentrant _ (.releaseOne ttl) => ttl
  | .readWrite _ (.readAcquire ttl) | .readWrite _ (.writeAcquire ttl) | .readWrite _ (.extend ttl) => ttl
  | .readWrite _ (.readRelease refresh) => refresh
  | .semaphore _ _ (.acquire ttl) | .semaphore _ _ (.extend ttl) => ttl
  | .fairAcquire _ ttl => max (ttl * 10) 2000
  | .fairRelease _ => 30000
  | .fairExtend _ ttl => ttl
  | _ => 0

/-- The counter of the key lasts: nobody's lock or heartbeat is named like it, and a call on the
key finds it as it was left and does not end it at once. -/
structure Ledger.Lasting {N : Type} (key : String) (s : Ledger) (action : Action N) : Prop where
  apart : fenceKeyFor key ∉ writes action.key action.operation
  kept : action.key = key → s.db.lookup (s.now + action.delay) (fenceKeyFor key) = s.db (fenceKeyFor key)
  retained : action.key = key → retention action.operation ≠ some 0

instance {N : Type} (key : String) (s : Ledger) (action : Action N) : Decidable (s.Lasting key action) :=
  decidable_of_iff (fenceKeyFor key ∉ writes action.key action.operation ∧
    (action.key = key → s.db.lookup (s.now + action.delay) (fenceKeyFor key) = s.db (fenceKeyFor key)) ∧
    (action.key = key → retention action.operation ≠ some 0))
    ⟨fun ⟨apart, kept, retained⟩ => ⟨apart, kept, retained⟩, fun ⟨apart, kept, retained⟩ => ⟨apart, kept, retained⟩⟩

def counterOf (db : Keyspace) (key : String) : Option Value := (db (fenceKeyFor key)).map Entry.value

/-- What a call on the key `own` with this grant leaves of the counter of `key`. -/
def Tally (key own : String) (now : Nat) (db : Keyspace) : Option Int → Keyspace → Prop
  | none, after => counterOf after key = counterOf db key
  | some fence, after =>
    if own = key then fence = nextFence (fenceKeyFor key) db now ∧ counterOf after key = some (.string (.int fence))
    else counterOf after key = counterOf db key

/-- Where the counter of a key exists it is a number. -/
def Numeric (key : String) (db : Keyspace) : Prop :=
  ∀ entry, db (fenceKeyFor key) = some entry → ∃ fence, entry.value = .string (.int fence)

/-! The rule of a call: what it leaves, from what is left where it counts, where it retains the
counter and where it does neither. -/

section
variable {now : Nat} {u : Upkeep now} {db : Keyspace} {Q : Option Int → Keyspace → Prop}

theorem report_wp {S : Type} {script : Script (S × Int)} (report : Except Fault (S × Int) → Option Int)
    (silent : ∀ fault, report (.error fault) = none)
    (post : wp now script (fun answer after => Q (report (.ok answer)) after) (Q none) db) :
    Q (report (script.exec now db).1) (script.exec now db).2 := by
  unfold wp at post
  rcases ran : script.exec now db with ⟨reply, after⟩
  rw [ran] at post
  cases reply with
  | ok answer => exact post
  | error fault =>
    rw [silent fault]
    exact post

variable {N : Type} {exceeds : Option Payload → N → Bool} {key : String} {operation : Operation N}

theorem exec_rule (held : u.Held db) (names : ∀ name ∈ writes key operation, name ∈ u.keys)
    (queue : Fair.queueKeyFor key ∈ u.keys) (allowed : ∀ ms ≤ longest operation, u.allowed ms)
    (quiet : ∀ after, u.Held after → Q none after)
    (counts : ∀ middle, u.Held middle → wp now (incr (fenceKeyFor key)) (fun fence => Q (some fence)) (Q none) middle)
    (allocates : ∀ fenceTtl, retention operation = some fenceTtl → ∀ middle, u.Held middle →
      wp now (incr (fenceKeyFor key)) (fun fence =>
        wp now (pexpire (fenceKeyFor key) fenceTtl) (fun _ => Q (some fence)) (Q none)) (Q none) middle)
    (retains : ∀ fenceTtl, retention operation = some fenceTtl → ∀ middle, u.Held middle →
      wp now (pexpire (fenceKeyFor key) fenceTtl) (fun _ => Q none) (Q none) middle)
    (data : ∀ entry, Q none (Function.update db (Semantic.dataKeyFor key) entry)) :
    Q (issued exceeds key now db operation) (operation.exec exceeds key now db) := by
  have lock : key ∈ u.keys := by
    refine names key ?_
    cases operation <;> simp [writes]
  have keeps {α : Type} {script : Script α} (kept : u.Keeps script db) : Q none (script.exec now db).2 :=
    quiet _ kept.state
  have count {S : Type} {status : S} {report : Except Fault (S × Int) → Option Int}
      (reports : ∀ fence, report (.ok (status, fence)) = some fence) (middle : Keyspace) (held : u.Held middle) :
      wp now (do return (status, ← incr (fenceKeyFor key)) : Script (S × Int))
        (fun answer after => Q (report (.ok answer)) after) (Q none) middle := by
    refine wp_bind ((counts middle held).mono fun fence after counted => ?_)
    rw [← reports fence] at counted
    exact counted
  have refused {S : Type} [DecidableEq S] [OfNat S 0] [OfNat S 1] [OfNat S 2] (never : ¬ ((0 : S) = 1 ∨ (0 : S) = 2))
      (middle : Keyspace) (held : u.Held middle) : Q (granted (.ok ((0 : S), 0))) middle := by
    simp only [granted, if_neg never]
    exact quiet _ held
  have reports {S : Type} [DecidableEq S] [OfNat S 1] [OfNat S 2] {status : S} (granting : status = 1 ∨ status = 2)
      (fence : Int) : granted (.ok (status, fence)) = some fence := if_pos granting
  cases operation with
  | mutex operation =>
    cases operation with
    | mutex call =>
      cases call with
      | acquire token ttl =>
        refine report_wp (Semantic.Operation.issued (.mutex (.acquire token ttl))) (fun _ => rfl)
          (Primitives.mutex_acquire_wp lock held quiet (allowed _ le_rfl) quiet fun status middle granting held => ?_)
        refine wp_bind ((allocates _ rfl middle held).mono fun fence after retained => wp_bind (retained.mono fun _ _ counted => ?_))
        obtain rfl | rfl := granting <;> exact counted
      | extend token ttl =>
        have extended : wp now (Single.extend key (fenceKeyFor key) token ttl (fenceTtlMs ttl)) (fun _ => Q none) (Q none) db :=
          Primitives.mutex_extend_wp lock held quiet (allowed _ le_rfl) quiet fun _ held => wp_bind (retains _ rfl _ held)
        exact (wp_bind extended).state
      | release token => exact keeps (wp_bind (Primitives.mutex_release_keeps lock held))
    | semantic token ttl preds =>
      exact report_wp (Semantic.Operation.issued (.semantic token ttl preds)) (fun _ => rfl)
        (Primitives.semantic_acquire_wp lock held quiet (allowed _ le_rfl) quiet (count fun _ => rfl))
    | data entry => exact data entry
  | reentrant token command =>
    cases command with
    | acquire =>
      exact report_wp granted (fun _ => rfl) (Primitives.reentrant_acquire_wp lock held quiet (allowed _ le_rfl)
        (refused (by decide)) fun _ middle granting => count (reports granting) middle)
    | releaseOne => exact keeps (wp_bind (Primitives.reentrant_releaseOne_keeps lock held (allowed _ le_rfl)))
    | releaseAll => exact keeps (wp_bind (Primitives.reentrant_releaseAll_keeps lock held))
    | extend => exact keeps (wp_bind (Primitives.reentrant_extend_keeps lock held (allowed _ le_rfl)))
  | readWrite token command =>
    cases command with
    | readAcquire =>
      exact report_wp granted (fun _ => rfl) (Primitives.readAcquire_wp lock held quiet (allowed _ le_rfl)
        (refused (by decide)) fun _ middle granting => count (reports granting) middle)
    | readRelease => exact keeps (wp_bind (Primitives.readRelease_keeps lock held (allowed _ le_rfl)))
    | writeAcquire =>
      exact report_wp granted (fun _ => rfl) (Primitives.writeAcquire_wp lock held quiet (allowed _ le_rfl)
        (refused (by decide)) fun _ middle granting => count (reports granting) middle)
    | writeRelease => exact keeps (wp_bind (Primitives.writeRelease_keeps lock held))
    | extend => exact keeps (wp_bind (Primitives.readWrite_extend_keeps lock held (allowed _ le_rfl)))
  | semaphore maxPermits token command =>
    cases command with
    | acquire =>
      exact report_wp granted (fun _ => rfl) (Primitives.semaphore_acquire_wp lock held quiet (allowed _ le_rfl)
        (refused (by decide)) (count (reports (.inl rfl))))
    | extend => exact keeps (wp_bind (Primitives.semaphore_extend_keeps lock held (allowed _ le_rfl)))
    | release => exact keeps (wp_bind (Primitives.semaphore_release_keeps lock held))
  | fairAcquire token ttl =>
    have heart : Fair.hbKeyFor key token ∈ u.keys := names _ (by simp [writes])
    have within (ms : Nat) (le : ms ≤ max (ttl * 10) 2000) : u.allowed ms := allowed ms le
    exact report_wp granted (fun _ => rfl) (Primitives.fair_acquire_wp queue heart held quiet (within _ (by omega))
      (within _ (by omega)) (by omega) (refused (by decide)) lock (within _ (by omega))
      fun _ middle granting => count (reports granting) middle)
  | fairRelease token => exact keeps (Primitives.fair_release_keeps lock held queue (allowed _ le_rfl))
  | fairDrop token => exact keeps (Primitives.fair_drop_keeps lock held)
  | fairExtend token ttl => exact keeps (Primitives.fair_extend_keeps lock held (allowed _ le_rfl))

end

section
variable {key own : String} {now : Nat} {db middle after : Keyspace} {grant : Option Int} {E : Keyspace → Prop}

/-- Calls that change nothing under the name of the counter. -/
abbrev counters (key : String) (db : Keyspace) (now : Nat) : Upkeep now := untouched {fenceKeyFor key} db now

theorem kept_of_held (held : (counters key db now).Held middle) : counterOf middle key = counterOf db key :=
  congrArg (Option.map Entry.value) (held _ rfl)

theorem apart_of_ne (distinct : own ≠ key) : fenceKeyFor key ≠ fenceKeyFor own :=
  fun same => distinct (fenceKeyFor_injective same).symm

theorem Tally.congr (tally : Tally key own now db grant middle) (same : counterOf after key = counterOf middle key) :
    Tally key own now db grant after := by
  cases grant with
  | none => exact same.trans tally
  | some fence => simpa only [Tally, same] using tally

theorem Tally.other (tally : Tally key own now db grant after) (distinct : own ≠ key) :
    counterOf after key = counterOf db key := by
  cases grant with
  | none => exact tally
  | some fence =>
    rw [Tally, if_neg distinct] at tally
    exact tally

/-- Counting once, where the counter is still what it was. -/
theorem wp_count (numeric : own = key → Numeric key db) (held : (counters key db now).Held middle) :
    wp now (incr (fenceKeyFor own)) (fun fence => Tally key own now db (some fence)) (Tally key own now db none) middle := by
  by_cases same : own = key
  · subst same
    have seen : middle.lookup now (fenceKeyFor own) = db.lookup now (fenceKeyFor own) := Keyspace.lookup_congr (held _ rfl)
    simp only [wp, exec_incr, seen]
    cases found : db.lookup now (fenceKeyFor own) with
    | none => simp [Tally, nextFence, found, counterOf]
    | some entry =>
      obtain ⟨fence, shape⟩ := numeric rfl entry (Keyspace.lookup_eq_some.mp found).1
      obtain ⟨value, stop⟩ := entry
      subst shape
      simp [Tally, nextFence, found, counterOf]
  · refine wp_incr (kept_of_held held) fun fence value => ?_
    rw [Tally, if_neg same, counterOf, Keyspace.overwrite_of_ne (apart_of_ne same)]
    exact kept_of_held held

/-- Retaining a counter leaves what it shows. -/
theorem wp_retain {fenceTtl : Nat} (tally : Tally key own now db grant middle) (retained : own = key → fenceTtl ≠ 0) :
    wp now (pexpire (fenceKeyFor own) fenceTtl) (fun _ => Tally key own now db grant) E middle := by
  simp only [wp, exec_pexpire]
  cases found : middle.lookup now (fenceKeyFor own) with
  | none => exact tally
  | some entry =>
    refine tally.congr ?_
    by_cases same : own = key
    · subst same
      simp [counterOf, Keyspace.refresh, retained rfl, (Keyspace.lookup_eq_some.mp found).1]
    · simp only [counterOf, Keyspace.refresh_of_ne (apart_of_ne same)]

theorem numeric_incr (numeric : Numeric key middle) :
    wp now (incr (fenceKeyFor own)) (fun _ => Numeric key) (Numeric key) middle := by
  by_cases same : own = key
  · subst same
    simp only [wp, exec_incr]
    cases found : middle.lookup now (fenceKeyFor own) with
    | none => simp [Numeric]
    | some entry =>
      obtain ⟨fence, shape⟩ := numeric entry (Keyspace.lookup_eq_some.mp found).1
      obtain ⟨value, stop⟩ := entry
      subst shape
      simp [Numeric]
  · refine wp_incr numeric fun fence value entry stored => ?_
    rw [Keyspace.overwrite_of_ne (apart_of_ne same)] at stored
    exact numeric entry stored

theorem numeric_pexpire {ms : Nat} (numeric : Numeric key middle) :
    wp now (pexpire (fenceKeyFor own) ms) (fun _ => Numeric key) E middle := by
  simp only [wp, exec_pexpire]
  cases found : middle.lookup now (fenceKeyFor own) with
  | none => exact numeric
  | some before =>
    intro entry stored
    by_cases same : own = key
    · subst same
      rw [Keyspace.refresh_self, Keyspace.refreshed_eq_some] at stored
      rw [stored.2]
      exact numeric before (Keyspace.lookup_eq_some.mp found).1
    · rw [Keyspace.refresh_of_ne (apart_of_ne same)] at stored
      exact numeric entry stored

variable {N : Type} {exceeds : Option Payload → N → Bool} {operation : Operation N}
  (apart : fenceKeyFor key ∉ writes own operation)
include apart

theorem names_apart : ∀ name ∈ writes own operation, name ∈ (counters key db now).keys := by
  rintro name member rfl
  exact apart member

/-- A call counts once if it is granted, and not at all otherwise. -/
theorem tally (numeric : own = key → Numeric key db) (retained : own = key → retention operation ≠ some 0) :
    Tally key own now db (issued exceeds own now db operation) (operation.exec exceeds own now db) := by
  refine exec_rule (u := counters key db now) (fun _ _ => rfl) (names_apart apart)
    (fun same => queueKeyFor_not_fence own ⟨key, same.symm⟩) (fun _ _ => trivial) (fun _ => kept_of_held)
    (fun _ => wp_count numeric) (fun fenceTtl retains _ held => ?_) (fun fenceTtl retains _ held => ?_) fun entry => ?_
  · exact (wp_count numeric held).mono fun _ _ counted =>
      wp_retain counted fun same zero => retained same (retains.trans (congrArg some zero))
  · exact wp_retain (kept_of_held held) fun same zero => retained same (retains.trans (congrArg some zero))
  · exact congrArg (Option.map Entry.value) (Function.update_of_ne (Semantic.fenceKeyFor_ne_dataKeyFor key own) ..)

/-- The counter stays a number, even where it lapses and starts again. -/
theorem exec_numeric (numeric : Numeric key db) : Numeric key (operation.exec exceeds own now db) := by
  have steady {middle : Keyspace} (held : (counters key db now).Held middle) : Numeric key middle :=
    fun entry stored => numeric entry ((held _ rfl).symm.trans stored)
  exact exec_rule (u := counters key db now) (Q := fun _ => Numeric key) (fun _ _ => rfl)
    (names_apart apart) (fun same => queueKeyFor_not_fence own ⟨key, same.symm⟩) (fun _ _ => trivial) (fun _ => steady)
    (fun _ held => numeric_incr (steady held))
    (fun _ _ _ held => (numeric_incr (steady held)).mono fun _ _ => numeric_pexpire)
    (fun _ _ _ held => numeric_pexpire (steady held))
    fun entry => steady fun name member => Function.update_of_ne (member ▸ Semantic.fenceKeyFor_ne_dataKeyFor key own) ..

end

/-- The first fences, the newest first. -/
def countdown : Nat → List Int
  | 0 => []
  | n + 1 => ↑(n + 1) :: countdown n

theorem mem_countdown {n : Nat} {fence : Int} : fence ∈ countdown n ↔ 1 ≤ fence ∧ fence ≤ n := by
  induction n with
  | zero =>
    simp only [countdown, List.not_mem_nil, false_iff]
    omega
  | succ n ih =>
    simp only [countdown, List.mem_cons, ih]
    omega

theorem length_countdown (n : Nat) : (countdown n).length = n := by
  induction n with
  | zero => rfl
  | succ n ih => rw [countdown, List.length_cons, ih]

theorem countdown_decreasing (n : Nat) : (countdown n).Pairwise (· > ·) := by
  induction n with
  | zero => exact .nil
  | succ n ih =>
    refine .cons (fun fence member => ?_) ih
    have := mem_countdown.mp member
    omega

/-- What was issued for a key is what its counter shows. -/
structure Level (key : String) (db : Keyspace) (issued : List Int) (n : Nat) : Prop where
  issued : issued = countdown n
  counter : counterOf db key = if n = 0 then none else some (.string (.int n))

section
variable {key : String} {db after : Keyspace} {fences : List Int} {n now : Nat}

theorem Level.numeric (level : Level key db fences n) : Numeric key db := by
  intro entry stored
  have shown := level.counter
  rw [counterOf, stored, Option.map_some] at shown
  split at shown
  · contradiction
  · exact ⟨n, Option.some.inj shown⟩

/-- A counter that has not lapsed goes on by one. -/
theorem Level.next (level : Level key db fences n) (kept : db.lookup now (fenceKeyFor key) = db (fenceKeyFor key)) :
    nextFence (fenceKeyFor key) db now = n + 1 := by
  have shown := level.counter
  rw [nextFence, kept]
  rw [counterOf] at shown
  split at shown
  · subst n
    rw [Option.map_eq_none_iff.mp shown]
    rfl
  · obtain ⟨⟨value, stop⟩, stored, rfl⟩ := Option.map_eq_some_iff.mp shown
    rw [stored]

theorem Level.grant (level : Level key db fences n) (kept : db.lookup now (fenceKeyFor key) = db (fenceKeyFor key))
    {fence : Int} (tally : Tally key key now db (some fence) after) : Level key after (fence :: fences) (n + 1) := by
  rw [Tally, if_pos rfl] at tally
  obtain ⟨next, counter⟩ := tally
  rw [level.next kept] at next
  subst next
  exact ⟨by rw [level.issued]; rfl, by simpa using counter⟩

theorem Level.congr (level : Level key db fences n) (same : counterOf after key = counterOf db key) :
    Level key after fences n := ⟨level.issued, same.trans level.counter⟩

end

section
variable {N : Type} {exceeds : Option Payload → N → Bool} {key : String} {s : Ledger}

theorem level_step {n : Nat} {action : Action N} (level : Level key s.db (s.issued key) n) (lasting : s.Lasting key action)
    {t : Ledger} (stepped : (issuing exceeds).step s action = some t) : ∃ m, Level key t.db (t.issued key) m := by
  obtain ⟨apart, kept, retained⟩ := lasting
  cases stepped
  have counted : Tally key action.key (s.now + action.delay) s.db
      (issued exceeds action.key (s.now + action.delay) s.db action.operation)
      (action.operation.exec exceeds action.key (s.now + action.delay) s.db) :=
    tally apart (fun _ => level.numeric) retained
  by_cases own : action.key = key
  · subst own
    simp only [Function.update_self]
    cases reported : issued exceeds action.key (s.now + action.delay) s.db action.operation with
    | none =>
      rw [reported] at counted
      exact ⟨n, level.congr counted⟩
    | some fence =>
      rw [reported] at counted
      exact ⟨n + 1, level.grant (kept rfl) counted⟩
  · simp only [Function.update_of_ne (Ne.symm own)]
    exact ⟨n, level.congr (counted.other own)⟩

theorem level_reachable (reach : (issuing exceeds).ReachableWhen (Ledger.Lasting key) s) :
    ∃ n, Level key s.db (s.issued key) n := by
  refine Machine.ReachableWhen.invariant (P := fun s : Ledger => ∃ n, Level key s.db (s.issued key) n) ?_ ?_ reach
  · rintro s ⟨absent, fresh⟩
    exact ⟨0, fresh key, by simp [counterOf, absent]⟩
  · rintro s action t ⟨n, level⟩ lasting stepped
    exact level_step level lasting stepped

/-- Whichever primitives granted them, the fences of a key are the numbers from 1 on without a
gap or a repetition, in the order of the grants, and the counter shows the last of them. -/
theorem fences_consecutive (reach : (issuing exceeds).ReachableWhen (Ledger.Lasting key) s) :
    ∃ n : Nat, s.issued key = countdown n ∧ (s.issued key).Pairwise (· > ·) ∧
      counterOf s.db key = if n = 0 then none else some (.string (.int n)) := by
  obtain ⟨n, issued, counter⟩ := level_reachable reach
  exact ⟨n, issued, issued ▸ countdown_decreasing n, counter⟩

end

/-- A mutex grant, its release, a reader, its release and a permit. Meanwhile the counter of
another key lapses, since a mutex retained it and nobody came back. -/
def mixed : List (Action Int) :=
  [⟨0, "orders", .mutex (.mutex (.acquire "a" 1000))⟩, ⟨10, "orders", .mutex (.mutex (.release "a"))⟩,
    ⟨10, "orders", .readWrite "b" (.readAcquire 1000)⟩, ⟨5, "jobs", .mutex (.mutex (.acquire "c" 10))⟩,
    ⟨10, "orders", .readWrite "b" (.readRelease 1000)⟩, ⟨200, "jobs", .reentrant "c" (.acquire 1000)⟩,
    ⟨10, "orders", .semaphore 2 "d" (.acquire 1000)⟩]

theorem mixed_consecutive : ∃ s : Ledger, s.issued "orders" = [3, 2, 1] ∧ s.issued "jobs" = [1, 1] ∧
    ∃ n : Nat, s.issued "orders" = countdown n ∧ (s.issued "orders").Pairwise (· > ·) ∧
      counterOf s.db "orders" = if n = 0 then none else some (.string (.int n)) := by
  obtain ⟨s, reach, orders, jobs⟩ := (issuing Semantic.above).exists_reachableWhen (Ledger.Lasting "orders")
    (fun s : Ledger => s.issued "orders" = [3, 2, 1] ∧ s.issued "jobs" = [1, 1]) (s := ⟨0, fun _ => none, fun _ => []⟩)
    ⟨fun _ => rfl, fun _ => rfl⟩ mixed (by decide +kernel)
  exact ⟨s, orders, jobs, fences_consecutive reach⟩

end Palisade.Fences
