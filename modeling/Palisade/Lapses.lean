import Palisade.Fences

/-! Locks free themselves: the mutex, the semantic and the reentrant locks, the read-write locks,
the semaphores and the fair locks. Apart from the counters and the data of the semantic locks
their scripts leave nothing without an expiry, so that no lock, queue or heartbeat outlives the
longest duration any call set, and then whoever asks is granted. Latches and testaments are no
part of these runs. -/
namespace Palisade.Lapses
open Redis Single Transition Script Counters Fences

section
variable {N : Type}

/-- Everything but the counters and the data. -/
def passing : Set String := {name | ¬ IsCounter name ∧ ∀ owner, Semantic.dataKeyFor owner ≠ name}

variable (exceeds : Option Payload → N → Bool)

/-- The store is empty at the start. -/
def fromNothing : Machine Ledger (Action N) where
  initial s := (∀ name, s.db name = none) ∧ ∀ key, s.issued key = []
  step := (issuing exceeds).step

/-- What an acquire asks for besides a free lock. -/
def Ready (key : String) (now : Nat) (db : Keyspace) : Operation N → Prop
  | .mutex (.mutex (.acquire _ ttl)) => 0 < ttl
  | .mutex (.semantic _ ttl preds) => 0 < ttl ∧ preds.isEmpty = false ∧
    (db.lookup now (Semantic.dataKeyFor key)).isSome ∧
    ((Semantic.combined exceeds (Semantic.dataKeyFor key) preds).exec now db).1 = .ok true
  | .reentrant _ (.acquire _) | .readWrite _ (.readAcquire _) | .readWrite _ (.writeAcquire _) => True
  | .semaphore maxPermits _ (.acquire _) => 0 < maxPermits
  | .fairAcquire _ ttl => 0 < ttl
  | _ => False

end

section
variable {N : Type} {exceeds : Option Payload → N → Bool} {key : String} {now limit : Nat} {db : Keyspace}

/-- No call leaves anything that goes on after its durations. -/
theorem exec_endsBy {operation : Operation N} (ends : db.EndsBy limit passing)
    (within : now + longest operation ≤ limit) : (operation.exec exceeds key now db).EndsBy limit passing := by
  have ahead : now ≤ limit := le_trans (Nat.le_add_right _ _) within
  have other : fenceKeyFor key ∉ passing := fun member => member.1 ⟨key, rfl⟩
  -- A counter is none of the names that lapse.
  have counts (middle : Keyspace) (ends : middle.EndsBy limit passing) :
      (endsBy passing ahead).Keeps (incr (fenceKeyFor key)) middle :=
    wp_incr ends fun _ _ => ends.outside other fun _ distinct => Keyspace.overwrite_of_ne distinct
  have retains (fenceTtl : Nat) (middle : Keyspace) (ends : middle.EndsBy limit passing) :
      (endsBy passing ahead).Keeps (pexpire (fenceKeyFor key) fenceTtl) middle :=
    wp_pexpire (fun _ => ends) fun _ => ends.outside other fun _ distinct => Keyspace.refresh_of_ne distinct
  exact exec_rule (u := endsBy passing ahead) (Q := fun _ after => after.EndsBy limit passing)
    ends (fun _ _ => trivial) trivial (fun _ le => le_trans (Nat.add_le_add_left le now) within) (fun _ => id) counts
    (fun fenceTtl _ middle ends => (counts middle ends).mono fun _ after => retains fenceTtl after)
    (fun fenceTtl _ => retains fenceTtl)
    fun _ => ends.outside (fun member => member.2 key rfl) fun _ distinct => Function.update_of_ne distinct ..

theorem endsBy_reachable {s : Ledger}
    (reach : (fromNothing exceeds).ReachableWhen (fun _ action => longest action.operation ≤ limit) s) :
    s.db.EndsBy (s.now + limit) passing := by
  refine Machine.ReachableWhen.invariant (P := fun s : Ledger => s.db.EndsBy (s.now + limit) passing) ?_ ?_ reach
  · rintro s ⟨absent, _⟩ name member entry stored
    cases (absent name).symm.trans stored
  · rintro s action t ends within ⟨⟩
    have ends : s.db.EndsBy (s.now + action.delay + limit) passing := ends.mono (by omega)
    exact exec_endsBy ends (Nat.add_le_add_left within _)

/-- In every run whose calls set no duration beyond the limit, everything that passes has gone
once the limit has passed without a call. -/
theorem locks_lapse {s : Ledger}
    (reach : (fromNothing exceeds).ReachableWhen (fun _ action => longest action.operation ≤ limit) s) {name : String}
    (member : name ∈ passing) {instant : Nat} (later : s.now + limit ≤ instant) : s.db.lookup instant name = none :=
  (endsBy_reachable reach).lookup_none member later

theorem exec_reentrant_absent {token : String} {ttl : Nat} (free : db.lookup now key = none) :
    (Reentrant.acquire key (fenceKeyFor key) token ttl).exec now db =
      (do return (1, ← incr (fenceKeyFor key)) : Script (Int × Int)).exec now (db.refresh now key
        (.hash (AList.insert "count" (.int 1) (AList.singleton "owner" (.raw token)))) ttl) := by
  simp [Reentrant.acquire, free, exec_hset_missing free, ReadWrite.exec_pexpire_new]

theorem exec_fair_absent {hbKey token : String} {ttl hbTtl : Nat} (lease : 0 < ttl) (free : db.lookup now key = none)
    (unqueued : db.lookup now (Fair.queueKeyFor key) = none) :
    (Fair.acquire key (Fair.queueKeyFor key) (fenceKeyFor key) hbKey token ttl hbTtl none).exec now db =
      (do return (1, ← incr (fenceKeyFor key)) : Script (Int × Int)).exec now
        (db.put key ⟨.string (.raw token), some (now + ttl)⟩) := by
  simp [Fair.acquire, exec_get_none free, free, llen, exec_list_missing unqueued, Fair.discardDead, lrangeLast,
    exec_setPx _ lease]

/-- An acquire that counts is granted. -/
theorem granted_count {S : Type} [DecidableEq S] [OfNat S 1] [OfNat S 2] {status : S} (counts : Counts key db)
    (granting : status = 1 ∨ status = 2) : ∃ fence,
    granted ((do return (status, ← incr (fenceKeyFor key)) : Script (S × Int)).exec now db).1 = some fence := by
  obtain ⟨fence, after, ran, _⟩ := exec_count counts now status
  exact ⟨fence, by rw [ran]; exact if_pos granting⟩

/-- Whoever asks for a lock of which nothing is left is granted. -/
theorem grants {operation : Operation N} (counts : Counts key db) (ready : Ready exceeds key now db operation)
    (free : db.lookup now key = none) (unqueued : db.lookup now (Fair.queueKeyFor key) = none) :
    ∃ fence, issued exceeds key now db operation = some fence := by
  have put (value : Value) (stop : Option Nat) : Counts key (db.put key ⟨value, stop⟩) :=
    counts.congr fun _ => Keyspace.put_of_ne
  have refresh (value : Value) (ms : Nat) : Counts key (db.refresh now key value ms) :=
    counts.congr fun _ => Keyspace.refresh_of_ne
  cases operation with
  | mutex operation =>
    cases operation with
    | mutex call =>
      cases call with
      | acquire token ttl =>
        have lease : ttl ≠ 0 := Nat.ne_of_gt ready
        have taken := put (.string (.raw token)) (some (now + ttl))
        have numeric : ∀ entry, (db.put key ⟨.string (.raw token), some (now + ttl)⟩) (fenceKeyFor key) = some entry →
            ∃ fence, entry.value = .string (.int fence) :=
          fun entry stored => (taken entry stored).imp fun _ ⟨_, same⟩ => by rw [same]
        have allocates (fenceTtl : Nat) : (allocate (fenceKeyFor key) fenceTtl 1).exec now _ = _ := exec_allocate 1 numeric
        simp only [allocate] at allocates
        simp only [issued, Semantic.Operation.script, Call.script, Single.acquire, exec_bind, exec_setNxPx, if_neg lease, free]
        simp only [if_true, allocates]
        exact ⟨_, rfl⟩
      | extend | release => exact ready.elim
    | semantic token ttl preds =>
      obtain ⟨lease, given, there, holds⟩ := ready
      have kept : (Semantic.combined exceeds (Semantic.dataKeyFor key) preds).exec now db = (.ok true, db) :=
        Prod.ext holds (Semantic.reads_combined _ _ now db)
      obtain ⟨fence, after, counted, _⟩ := exec_count (put (.string (.raw token)) (some (now + ttl))) now 1
      have ran : (Semantic.guarded exceeds key token ttl preds).exec now db = (.ok (1, fence), after) := by
        rw [← counted]
        simp [Semantic.guarded, given, Semantic.acquire, there, free, kept, exec_setPx _ lease]
      exact ⟨fence, by rw [issued, Semantic.Operation.script, ran]; rfl⟩
    | data => exact ready.elim
  | reentrant token command =>
    cases command with
    | acquire ttl =>
      simp only [issued, Reentrant.Command.script, exec_reentrant_absent free]
      exact granted_count (refresh _ _) (.inl rfl)
    | releaseOne | releaseAll | extend => exact ready.elim
  | readWrite token command =>
    cases command with
    | readAcquire ttl =>
      simp only [issued, ReadWrite.Command.script, ReadWrite.exec_readAcquire_absent free]
      exact granted_count (refresh _ _) (.inl rfl)
    | writeAcquire ttl =>
      simp only [issued, ReadWrite.Command.script, ReadWrite.exec_writeAcquire_absent free]
      exact granted_count (refresh _ _) (.inl rfl)
    | readRelease | writeRelease | extend => exact ready.elim
  | semaphore maxPermits token command =>
    cases command with
    | acquire ttl =>
      have answers : Semaphore.Answers key maxPermits db now token ∅ (.acquire ttl) :=
        Semaphore.acquire_answers (.inl ⟨free, rfl⟩) counts
      obtain ⟨status, fence, after, ran, effect, _⟩ := answers
      have room : Semaphore.pruned now ∅ = ∅ := rfl
      generalize after key = left at effect
      cases effect with
      | grant => exact ⟨fence, by rw [issued, ran]; rfl⟩
      | full taken => exact absurd taken (Nat.not_le_of_gt ready)
      | deny _ other => exact absurd rfl (other ttl)
    | extend | release => exact ready.elim
  | fairAcquire token ttl =>
    simp only [issued, exec_fair_absent ready free unqueued]
    exact granted_count (put _ _) (.inl rfl)
  | fairRelease | fairDrop | fairExtend => exact ready.elim

theorem queue_passing (key : String) : Fair.queueKeyFor key ∈ passing := by
  refine ⟨queueKeyFor_not_fence key, fun owner same => ?_⟩
  have letters := congrArg (fun name => name.toList.reverse.head?) same
  simp [Fair.queueKeyFor, Semantic.dataKeyFor] at letters

theorem reachable_issuing {ok : Ledger → Action N → Prop} {s : Ledger} (reach : (fromNothing exceeds).ReachableWhen ok s) :
    (issuing exceeds).ReachableWhen ok s := by
  induction reach with
  | initial start => exact .initial ⟨fun key => start.1 _, start.2⟩
  | next _ allowed stepped ih => exact .next ih allowed stepped

theorem numeric_reachable {s : Ledger} (reach : (fromNothing exceeds).ReachableWhen
    (fun _ action => fenceKeyFor key ∉ writes action.key action.operation) s) : Numeric key s.db := by
  refine Machine.ReachableWhen.invariant (P := fun s : Ledger => Numeric key s.db) ?_ ?_ reach
  · rintro s ⟨absent, _⟩ entry stored
    cases (absent _).symm.trans stored
  · rintro s action t numeric apart ⟨⟩
    exact exec_numeric apart numeric

/-- A counter that has lasted so far gives the next fence to whoever is granted while it lasts. -/
theorem next_of_lasting {s : Ledger} (reach : (fromNothing exceeds).ReachableWhen (Ledger.Lasting key) s)
    {action : Action N} (own : action.key = key) (lasting : s.Lasting key action) {fence : Int}
    (granted : issued exceeds key (s.now + action.delay) s.db action.operation = some fence) :
    fence = (s.issued key).length + 1 := by
  obtain ⟨n, level⟩ := level_reachable (reachable_issuing reach)
  subst own
  have counted : Tally action.key action.key (s.now + action.delay) s.db
      (issued exceeds action.key (s.now + action.delay) s.db action.operation)
      (action.operation.exec exceeds action.key (s.now + action.delay) s.db) :=
    tally lasting.apart (fun _ => level.numeric) lasting.retained
  rw [granted, Tally, if_pos rfl] at counted
  rw [counted.1, level.next (lasting.kept rfl), level.issued, length_countdown]

/-- Whatever happened before, and whoever crashed meanwhile: once the limit has passed without
a call, whoever asks is granted, and as long as the counter lasts with the next fence. -/
theorem grants_after_lapse {s : Ledger} (reach : (fromNothing exceeds).ReachableWhen
      (fun _ action => longest action.operation ≤ limit ∧ fenceKeyFor key ∉ writes action.key action.operation) s)
    {idle : Nat} (later : limit ≤ idle) {operation : Operation N} (lock : key ∈ passing)
    (ready : Ready exceeds key (s.now + idle) s.db operation) : ∃ fence,
    issued exceeds key (s.now + idle) s.db operation = some fence ∧
      ((fromNothing exceeds).ReachableWhen (Ledger.Lasting key) s → s.Lasting key ⟨idle, key, operation⟩ →
        fence = (s.issued key).length + 1) := by
  have lapsed {name : String} (member : name ∈ passing) : s.db.lookup (s.now + idle) name = none :=
    (endsBy_reachable (reach.mono fun _ _ allowed => allowed.1)).lookup_none member (Nat.add_le_add_left later _)
  have counts : Counts key s.db := by
    intro entry stored
    obtain ⟨fence, shape⟩ := numeric_reachable (reach.mono fun _ _ allowed => allowed.2) entry stored
    exact ⟨fence, entry.expireAt, congrArg (Entry.mk · entry.expireAt) shape⟩
  obtain ⟨fence, granted⟩ := grants counts ready (lapsed lock) (lapsed (queue_passing key))
  exact ⟨fence, granted, fun lasted lasting => next_of_lasting lasted rfl lasting granted⟩

end

/-- A holder, a waiter behind it and a reader elsewhere, all of which crash. -/
def crashed : List (Action Int) :=
  [⟨0, "orders", .mutex (.mutex (.acquire "a" 2000))⟩, ⟨10, "orders", .fairAcquire "b" 1000⟩,
    ⟨10, "jobs", .readWrite "c" (.readAcquire 3000)⟩]

/-- Whoever comes ten seconds later. -/
def successor : Action Int := ⟨10000, "orders", .reentrant "d" (.acquire 1000)⟩

theorem orders_passing : "orders" ∈ passing := by
  refine ⟨by decide, fun owner same => ?_⟩
  have letters := congrArg (fun name => name.toList.reverse.head?) same
  simp [Semantic.dataKeyFor] at letters

theorem crashed_runs : ∃ s : Ledger, (fromNothing Semantic.above).ReachableWhen
      (fun s action => longest action.operation ≤ 10000 ∧ s.Lasting "orders" action) s ∧
    (s.issued "orders" = [1] ∧ s.Lasting "orders" successor) ∧
      (s.db.lookup s.now "orders").isSome ∧ (s.db.lookup s.now (Fair.queueKeyFor "orders")).isSome :=
  (fromNothing Semantic.above).exists_reachableWhen _ _ (s := ⟨0, fun _ => none, fun _ => []⟩)
    ⟨fun _ => rfl, fun _ => rfl⟩ crashed (by decide +kernel)

theorem crashed_lapse : ∃ s : Ledger, (s.db.lookup s.now "orders").isSome ∧
    s.db.lookup (s.now + 10000) "orders" = none := by
  obtain ⟨s, reach, _, locked, _⟩ := crashed_runs
  exact ⟨s, locked, locks_lapse (reach.mono fun _ _ allowed => allowed.1) orders_passing (Nat.le_refl _)⟩

theorem orders_after_crash : ∃ s : Ledger, (s.db.lookup s.now (Fair.queueKeyFor "orders")).isSome ∧
    issued Semantic.above "orders" (s.now + 10000) s.db successor.operation = some 2 := by
  obtain ⟨s, reach, ⟨first, lasting⟩, _, queued⟩ := crashed_runs
  have ready : Ready Semantic.above "orders" (s.now + 10000) s.db successor.operation := trivial
  obtain ⟨fence, granted, next⟩ := grants_after_lapse
    (reach.mono fun _ _ allowed => ⟨allowed.1, allowed.2.apart⟩) le_rfl orders_passing ready
  have second := next (reach.mono fun _ _ allowed => allowed.2) lasting
  rw [first] at second
  exact ⟨s, queued, by rw [granted, second]; rfl⟩

end Palisade.Lapses
