import Mathlib.Data.List.Sort
import Mathlib.Data.String.Basic
import Palisade.Transition
import Palisade.Single.Handles

/-! `try_lock_all`: several keys in sorted order, all or nothing. The call takes the keys one
by one; where one cannot be taken it gives back what it took, the last key first, and starts
over after a pause. Between any two of its steps other clients change the store. The
instant of a grant is kept with its handle and read by nothing. -/
namespace Palisade.Multi
open Redis Single Transition

structure Call where
  keys : List String
  options : LockOptions
  policy : SafetyPolicy
  /-- `Instant::now() + wait` on the client's clock; an addition that overflows panics. -/
  deadline : Option Nat
  /-- The `{:?}` rendering of the keys. -/
  debug : List String → String

def Call.sorted (call : Call) : List String := call.keys.insertionSort (· ≤ ·)

/-- `windows(2).any(|w| w[0] == w[1])` -/
def hasDuplicate : List String → Bool
  | first :: second :: rest => decide (first = second) || hasDuplicate (second :: rest)
  | _ => false

def Call.ttlMs (call : Call) : Nat := call.options.ttl.asMillisU64

structure Grant where
  handle : HandleShared
  instant : Nat
  deriving DecidableEq

inductive Phase where
  | panicked
  /-- The keys taken in this round, and those still to be taken. -/
  | acquiring (grants : List Grant) (rest : List String)
  /-- The handles still to be released after this error, next first. -/
  | rollingBack (grants : List Grant) (error : Error)
  /-- Everything is given back after a held key. -/
  | deciding
  | sleeping
  | returned (result : Except Error (List Grant))
  deriving DecidableEq

structure State where
  now : Nat
  db : Keyspace
  /-- The tokens of the call so far. -/
  minted : List String
  phase : Phase

inductive Move where
  /-- `try_lock_with` on the next key, with a new token. -/
  | acquire (token : String) (fate : Fate)
  /-- The next rollback release. -/
  | release
  | settle
  | finish
  /-- The deadline is checked against the client's clock. -/
  | check (clock : Nat)
  | wake
  /-- Other clients leave this store. -/
  | others (next : Keyspace)

structure Timed where
  delay : Nat
  move : Move

def Call.enter (call : Call) : Phase :=
  match call.options.validate with
  | .error error => .returned (.error error)
  | .ok () =>
    if hasDuplicate call.sorted then
      .returned (.error (.invalidConfig "multi-lock received duplicate keys"))
    else
      match call.deadline with
      | none => .panicked
      | some _ => .acquiring [] call.sorted

/-- What the call makes of a key it did not get. -/
def refused (grants : List Grant) : Error → Phase
  | .held key => .rollingBack grants.reverse (.held key)
  | .backend message => .rollingBack grants.reverse (.backend message)
  | other => .returned (.error other)

/-- The script `try_lock_with` runs. -/
def Call.script (call : Call) (key token : String) : Script (Nat × Int) :=
  Single.acquire key (fenceKeyFor key) token call.ttlMs (fenceTtlMs call.ttlMs)

/-- `try_lock_with` on `key` at `now`. The options are valid by then. -/
def Call.tryLockWith (call : Call) (key token : String) (now : Nat) (db : Keyspace) :
    Fate → Except Error HandleShared × Keyspace
  | .fails message => (.error (.backend message), db)
  | .executes =>
    let (reply, db) := (call.script key token).exec now db
    (acquireReply key token call.options.ttl call.policy reply, db)

def State.act (call : Call) (s : State) : Move → Option State
  | .acquire token fate =>
    match s.phase with
    | .acquiring grants (key :: rest) =>
      if token ∈ s.minted then none
      else
        let (result, db) := call.tryLockWith key token s.now s.db fate
        let phase := match result with
          | .ok handle => .acquiring (grants ++ [⟨handle, s.now⟩]) rest
          | .error error => refused grants error
        some { s with db, minted := token :: s.minted, phase }
    | _ => none
  | .release =>
    match s.phase with
    | .rollingBack (grant :: grants) error =>
      some { s with db := (grant.handle.releaseScript.exec s.now s.db).2, phase := .rollingBack grants error }
    | _ => none
  | .settle =>
    match s.phase with
    | .rollingBack [] (.held _) => some { s with phase := .deciding }
    | .rollingBack [] error => some { s with phase := .returned (.error error) }
    | _ => none
  | .finish =>
    match s.phase with
    | .acquiring grants [] => some { s with phase := .returned (.ok grants) }
    | _ => none
  | .check clock =>
    match s.phase, call.deadline with
    | .deciding, some deadline =>
      if deadline ≤ clock then
        some { s with phase := .returned (.error (.timeout ("multi:" ++ call.debug call.sorted))) }
      else some { s with phase := .sleeping }
    | _, _ => none
  | .wake =>
    match s.phase with
    | .sleeping => some { s with phase := .acquiring [] call.sorted }
    | _ => none
  | .others next => some { s with db := next }

/-- One call, from any store. -/
def tryLockAll (call : Call) : Machine State Timed where
  initial s := s.minted = [] ∧ s.phase = call.enter
  step s timed := { s with now := s.now + timed.delay }.act call timed.move

/-- Nobody has stored the token. -/
def Unseen (db : Keyspace) (token : String) : Prop := ∀ name stop, db name ≠ some ⟨.string (.raw token), stop⟩

/-- A token is new when it is minted, and nobody else stores one of the call's. An acquire
script executes and replies, or fails without effect. -/
def Assumed (call : Call) (s : State) : Timed → Prop
  | ⟨delay, .acquire token fate⟩ => Unseen s.db token ∧ ∀ grants key rest,
      s.phase = .acquiring grants (key :: rest) → fate = .executes →
      (∃ answer, ((call.script key token).exec (s.now + delay) s.db).1 = .ok answer) ∨
        ((call.script key token).exec (s.now + delay) s.db).2 = s.db
  | ⟨delay, .others next⟩ => ∀ token ∈ s.minted, ∀ name,
      holder name next (s.now + delay) = some token → holder name s.db (s.now + delay) = some token
  | _ => True

/-- The handles of the keys the call has taken and not given back. -/
def Phase.holding : Phase → List Grant
  | .acquiring grants _ | .rollingBack grants _ | .returned (.ok grants) => grants
  | .panicked | .deciding | .sleeping | .returned (.error _) => []

/-! What a move can do. -/

inductive Acts (call : Call) (s : State) : Move → State → Prop where
  | granted {key : String} {rest : List String} {handle : HandleShared} {db : Keyspace} :
      s.phase = .acquiring grants (key :: rest) → token ∉ s.minted →
      call.tryLockWith key token s.now s.db fate = (.ok handle, db) →
      Acts call s (.acquire token fate) { s with
        db, minted := token :: s.minted, phase := .acquiring (grants ++ [⟨handle, s.now⟩]) rest }
  | refused {key : String} {rest : List String} {db : Keyspace} :
      s.phase = .acquiring grants (key :: rest) → token ∉ s.minted →
      call.tryLockWith key token s.now s.db fate = (.error error, db) →
      Acts call s (.acquire token fate) { s with
        db, minted := token :: s.minted, phase := refused grants error }
  | released : s.phase = .rollingBack (grant :: grants) error → Acts call s .release { s with
      db := (grant.handle.releaseScript.exec s.now s.db).2, phase := .rollingBack grants error }
  | retried : s.phase = .rollingBack [] (.held key) → Acts call s .settle { s with phase := .deciding }
  | failed : s.phase = .rollingBack [] error →
      Acts call s .settle { s with phase := .returned (.error error) }
  | finished : s.phase = .acquiring grants [] →
      Acts call s .finish { s with phase := .returned (.ok grants) }
  | expired : s.phase = .deciding → Acts call s (.check clock) { s with
      phase := .returned (.error (.timeout ("multi:" ++ call.debug call.sorted))) }
  | slept : s.phase = .deciding → Acts call s (.check clock) { s with phase := .sleeping }
  | woken : s.phase = .sleeping → Acts call s .wake { s with phase := .acquiring [] call.sorted }
  | others : Acts call s (.others next) { s with db := next }

section
variable {call : Call} {s t : State} {move : Move}

theorem State.acts (acted : s.act call move = some t) : Acts call s move t := by
  cases move with
  | acquire token fate =>
    simp only [State.act] at acted
    split at acted
    · next grants key rest acquiring =>
      split at acted
      · cases acted
      · next fresh =>
        cases tried : call.tryLockWith key token s.now s.db fate with
        | mk result db =>
          rw [tried] at acted
          cases result with
          | ok handle =>
            cases acted
            exact .granted acquiring fresh tried
          | error error =>
            cases acted
            exact .refused acquiring fresh tried
    · cases acted
  | release =>
    simp only [State.act] at acted
    split at acted
    · cases acted
      exact .released ‹_›
    · cases acted
  | settle =>
    simp only [State.act] at acted
    split at acted
    · cases acted
      exact .retried ‹_›
    · cases acted
      exact .failed ‹_›
    · cases acted
  | finish =>
    simp only [State.act] at acted
    split at acted
    · cases acted
      exact .finished ‹_›
    · cases acted
  | check clock =>
    simp only [State.act] at acted
    split at acted
    · split at acted
      · cases acted
        exact .expired ‹_›
      · cases acted
        exact .slept ‹_›
    · cases acted
  | wake =>
    simp only [State.act] at acted
    split at acted
    · cases acted
      exact .woken ‹_›
    · cases acted
  | others next =>
    cases acted
    exact .others

end

section
variable {call : Call} {key token : String} {now : Nat} {db after : Keyspace} {fate : Fate}

theorem tryLockWith_ok {handle : HandleShared}
    (tried : call.tryLockWith key token now db fate = (.ok handle, after)) :
    handle.key = key ∧ handle.token = token ∧ ∃ status fence,
      (call.script key token).exec now db = (.ok (status, fence), after) ∧ (status = 1 ∨ status = 2) := by
  cases fate with
  | fails message => cases tried
  | executes =>
    cases ran : (call.script key token).exec now db with
    | mk reply left =>
      simp only [Call.tryLockWith, ran, acquireReply] at tried
      split at tried
      · cases tried
      · next status fence =>
        split at tried
        · cases tried
          exact ⟨rfl, rfl, status, fence, rfl, ‹_›⟩
        · cases tried

/-- A key that is not taken is as it was, unless its script stopped halfway. -/
theorem tryLockWith_error {error : Error} (tried : call.tryLockWith key token now db fate = (.error error, after))
    (whole : fate = .executes → (∃ answer, ((call.script key token).exec now db).1 = .ok answer) ∨
      ((call.script key token).exec now db).2 = db) :
    after = db ∧ ((∃ held, error = .held held) ∨ ∃ message, error = .backend message) := by
  cases fate with
  | fails message =>
    cases tried
    exact ⟨rfl, .inr ⟨message, rfl⟩⟩
  | executes =>
    cases ran : (call.script key token).exec now db with
    | mk reply left =>
      simp only [Call.tryLockWith, ran, acquireReply] at tried
      rw [ran] at whole
      split at tried
      · cases tried
        obtain ⟨answer, answered⟩ | kept := whole rfl
        · cases answered
        · exact ⟨kept, .inr ⟨_, rfl⟩⟩
      · split at tried
        · cases tried
        · next refused =>
          cases tried
          exact ⟨exec_acquire_refused ran refused, .inl ⟨key, rfl⟩⟩

end

/-! Nothing of the call is left behind. -/

/-- Every live lock of the call's tokens is one the call knows of. -/
def State.Traced (s : State) : Prop := ∀ token ∈ s.minted, ∀ name, holder name s.db s.now = some token →
  ∃ grant ∈ s.phase.holding, grant.handle.key = name ∧ grant.handle.token = token

section
variable {call : Call} {s t : State} {move : Move} {delay : Nat}

theorem Traced.wait (traced : s.Traced) (delay : Nat) : State.Traced { s with now := s.now + delay } := by
  intro token minted name held
  exact traced token minted name (holder_earlier held (Nat.le_add_right s.now delay))

/-- A change of phase alone that keeps the handles. -/
theorem Traced.phase (traced : s.Traced) {next : Phase} (kept : ∀ grant ∈ s.phase.holding, grant ∈ next.holding) :
    State.Traced { s with phase := next } := by
  intro token minted name held
  obtain ⟨grant, mem, named⟩ := traced token minted name held
  exact ⟨grant, kept grant mem, named⟩

theorem Unseen.unheld {db : Keyspace} {token : String} (unseen : Unseen db token) (name : String) (instant : Nat) :
    holder name db instant ≠ some token := by
  intro held
  obtain ⟨stop, found⟩ := holder_eq_some.mp held
  exact unseen name stop (Keyspace.lookup_eq_some.mp found).1

section
variable {grants : List Grant} {key token : String} {rest : List String} {fate : Fate} {db : Keyspace}

theorem Traced.grant {handle : HandleShared} (traced : s.Traced) (unseen : Unseen s.db token)
    (acquiring : s.phase = .acquiring grants (key :: rest))
    (tried : call.tryLockWith key token s.now s.db fate = (.ok handle, db)) :
    State.Traced { s with
      db, minted := token :: s.minted, phase := .acquiring (grants ++ [⟨handle, s.now⟩]) rest } := by
  obtain ⟨named, given, status, fence, ran, _⟩ := tryLockWith_ok tried
  have left : db = ((call.script key token).exec s.now s.db).2 := by rw [ran]
  subst left
  intro owner minted name held
  by_cases own : owner = token
  · subst own
    have here := holder_acquire_own (unseen.unheld name s.now) held
    exact ⟨⟨handle, s.now⟩, List.mem_concat_self, named.trans here.symm, given⟩
  · have before := (holder_acquire_other own).mp held
    obtain ⟨grant, mem, owned⟩ := traced owner ((List.mem_cons.mp minted).resolve_left own) name before
    rw [acquiring] at mem
    exact ⟨grant, List.mem_append_left _ mem, owned⟩

/-- A refused key leaves the handles to the rollback. -/
theorem Traced.refuse {error : Error} (traced : s.Traced) (unseen : Unseen s.db token)
    (acquiring : s.phase = .acquiring grants (key :: rest))
    (expected : (∃ held, error = .held held) ∨ ∃ message, error = .backend message) :
    State.Traced { s with minted := token :: s.minted, phase := refused grants error } := by
  intro owner minted name held
  by_cases own : owner = token
  · subst own
    exact absurd held (unseen.unheld name s.now)
  · obtain ⟨grant, mem, owned⟩ := traced owner ((List.mem_cons.mp minted).resolve_left own) name held
    rw [acquiring] at mem
    refine ⟨grant, ?_, owned⟩
    obtain ⟨_, rfl⟩ | ⟨_, rfl⟩ := expected
    · exact List.mem_reverse.mpr mem
    · exact List.mem_reverse.mpr mem

theorem Traced.release {grant : Grant} {error : Error} (traced : s.Traced)
    (rolling : s.phase = .rollingBack (grant :: grants) error) :
    State.Traced { s with
      db := (grant.handle.releaseScript.exec s.now s.db).2, phase := .rollingBack grants error } := by
  intro owner minted name held
  obtain ⟨held, remains⟩ := holder_release_other.mp held
  obtain ⟨known, mem, named, given⟩ := traced owner minted name held
  rw [rolling] at mem
  obtain rfl | mem := List.mem_cons.mp mem
  · exact absurd ⟨named.symm, given.symm⟩ remains
  · exact ⟨known, mem, named, given⟩

end

theorem Traced.act (traced : s.Traced) (assumed : Assumed call s ⟨0, move⟩) (acts : Acts call s move t) :
    t.Traced := by
  cases acts with
  | granted acquiring fresh tried => exact Traced.grant traced assumed.1 acquiring tried
  | refused acquiring fresh tried =>
    obtain ⟨rfl, expected⟩ := tryLockWith_error tried (assumed.2 _ _ _ acquiring)
    exact Traced.refuse traced assumed.1 acquiring expected
  | released rolling => exact Traced.release traced rolling
  | finished acquiring =>
    refine Traced.phase traced ?_
    rw [acquiring]
    exact fun _ => id
  | retried idle | failed idle | expired idle | slept idle | woken idle =>
    -- Nothing is held before these moves.
    refine Traced.phase traced ?_
    rw [idle]
    intro grant mem
    cases mem
  | others =>
    intro token minted name held
    exact traced token minted name (assumed token minted name held)

/-- The keys taken and those to come are the sorted keys, none of them twice. -/
def Phase.Listed (sorted : List String) : Phase → Prop
  | .acquiring grants rest =>
    hasDuplicate sorted = false ∧ grants.map (fun grant => grant.handle.key) ++ rest = sorted
  | .returned (.ok grants) =>
    hasDuplicate sorted = false ∧ grants.map (fun grant => grant.handle.key) = sorted
  | .rollingBack _ _ | .deciding | .sleeping => hasDuplicate sorted = false
  | .panicked | .returned (.error _) => True

theorem enter_listed (call : Call) : call.enter.Listed call.sorted := by
  unfold Call.enter
  split
  · trivial
  · split
    · trivial
    · next distinct =>
      split
      · trivial
      · exact ⟨Bool.eq_false_of_not_eq_true distinct, rfl⟩

theorem Listed.act (listed : s.phase.Listed call.sorted) (acts : Acts call s move t) :
    t.phase.Listed call.sorted := by
  cases acts with
  | granted acquiring fresh tried =>
    rw [acquiring] at listed
    refine ⟨listed.1, ?_⟩
    rw [List.map_append, List.map_singleton, (tryLockWith_ok tried).1, List.append_assoc]
    exact listed.2
  | refused acquiring fresh tried =>
    rw [acquiring] at listed
    cases ‹Error› with
    | held | backend => exact listed.1
    | timeout | lost | invalidConfig => trivial
  | released rolling | retried rolling =>
    rw [rolling] at listed
    exact listed
  | failed rolling => trivial
  | finished acquiring =>
    rw [acquiring] at listed
    exact ⟨listed.1, (List.append_nil _).symm.trans listed.2⟩
  | expired deciding => trivial
  | slept deciding =>
    rw [deciding] at listed
    exact listed
  | woken sleeping =>
    rw [sleeping] at listed
    exact ⟨listed, rfl⟩
  | others => exact listed

theorem pairwise_lt {keys : List String} (ascending : keys.Pairwise (· ≤ ·)) (distinct : hasDuplicate keys = false) :
    keys.Pairwise (· < ·) := by
  induction keys using hasDuplicate.induct with
  | case1 first second rest ih =>
    simp only [hasDuplicate, Bool.or_eq_false_iff, decide_eq_false_iff_not] at distinct
    obtain ⟨least, ascending⟩ := List.pairwise_cons.mp ascending
    have below : first < second := lt_of_le_of_ne (least second List.mem_cons_self) distinct.1
    have later := ih ascending distinct.2
    refine List.pairwise_cons.mpr ⟨?_, later⟩
    intro key mem
    obtain rfl | mem := List.mem_cons.mp mem
    · exact below
    · exact below.trans (List.rel_of_pairwise_cons later mem)
  | case2 keys short =>
    match keys with
    | [] => exact .nil
    | [key] => exact List.pairwise_singleton _ key
    | first :: second :: rest => exact absurd rfl (short first second rest)

theorem sorted_perm (call : Call) : call.sorted.Perm call.keys := List.perm_insertionSort ..

theorem sorted_ascending (call : Call) : call.sorted.Pairwise (· ≤ ·) := List.pairwise_insertionSort ..

theorem assumed_now (assumed : Assumed call s ⟨delay, move⟩) :
    Assumed call { s with now := s.now + delay } ⟨0, move⟩ := by
  cases move with
  | acquire | others => exact assumed
  | release | settle | finish | check | wake => trivial

theorem traced_reachable (reach : (tryLockAll call).ReachableWhen (Assumed call) s) : s.Traced := by
  refine reach.invariant (P := State.Traced) ?_ ?_
  · rintro s ⟨unminted, -⟩ token minted
    rw [unminted] at minted
    cases minted
  · rintro s ⟨delay, move⟩ t traced assumed stepped
    exact Traced.act (Traced.wait traced delay) (assumed_now assumed) (State.acts stepped)

theorem listed_reachable (reach : (tryLockAll call).Reachable s) : s.phase.Listed call.sorted := by
  refine reach.invariant (P := fun s => s.phase.Listed call.sorted) ?_ ?_
  · rintro s ⟨-, entered⟩
    rw [entered]
    exact enter_listed call
  · rintro s ⟨delay, move⟩ t listed stepped
    exact Listed.act (s := { s with now := s.now + delay }) listed (State.acts stepped)

/-- A call that failed or sleeps has left none of its tokens in the store, and one that
succeeded has taken the given keys, each once and in order. -/
theorem failure_is_atomic (reach : (tryLockAll call).ReachableWhen (Assumed call) s) :
    ((∃ error, s.phase = .returned (.error error)) ∨ s.phase = .sleeping →
      ∀ token ∈ s.minted, ∀ name, holder name s.db s.now ≠ some token) ∧
    ∀ grants, s.phase = .returned (.ok grants) →
      (grants.map fun grant => grant.handle.key).Perm call.keys ∧
      (grants.map fun grant => grant.handle.key).Pairwise (· < ·) := by
  constructor
  · intro idle token minted name held
    obtain ⟨grant, mem, -⟩ := traced_reachable reach token minted name held
    obtain ⟨error, failed⟩ | sleeping := idle
    · rw [failed] at mem
      cases mem
    · rw [sleeping] at mem
      cases mem
  · intro grants returned
    have listed := listed_reachable (reach.mono fun _ _ _ => trivial)
    rw [returned] at listed
    obtain ⟨distinct, named⟩ := listed
    rw [named]
    exact ⟨sorted_perm call, pairwise_lt (sorted_ascending call) distinct⟩

theorem Unseen.put {db : Keyspace} {token key : String} {entry : Entry} (unseen : Unseen db token)
    (foreign : entry.value ≠ .string (.raw token)) : Unseen (db.put key entry) token := by
  intro name stop stored
  by_cases here : name = key
  · subst here
    rw [Keyspace.put_self] at stored
    exact foreign (congrArg Entry.value (Option.some.inj stored))
  · rw [Keyspace.put_of_ne here] at stored
    exact unseen name stop stored

/-- A transfer between two accounts. -/
def transfer (deadline : Nat) : Call := ⟨["b", "a"], ⟨.fromMillis 100⟩, .balanced, some deadline, toString⟩

/-- Somebody holds the later key. -/
def contended : Keyspace := Keyspace.put (fun _ => none) "b" ⟨.string (.raw "other"), some 1000⟩

/-- The call holds the first key. -/
def halfTaken : Keyspace :=
  let locked := contended.put "a" ⟨.string (.raw "first"), some 100⟩
  let counted := locked.put (fenceKeyFor "a") ⟨.string (.int 1), none⟩
  counted.put (fenceKeyFor "a") ⟨.string (.int 1), some 1000⟩

def firstGrant : Grant := ⟨⟨"a", "first", ⟨1⟩, .fromMillis 100, .balanced, false, false, false⟩, 0⟩

theorem contended_unseen {token : String} (foreign : "other" ≠ token) : Unseen contended token := by
  refine Unseen.put (fun _ _ => nofun) ?_
  simpa using foreign

/-- The later key is taken: the first is given back before the call sleeps. -/
theorem contended_call_holds_nothing : ∃ s, (tryLockAll (transfer 50)).ReachableWhen (Assumed (transfer 50)) s ∧
    s.phase = .sleeping ∧ s.minted = ["later", "first"] ∧
    ∀ token ∈ s.minted, ∀ name, holder name s.db s.now ≠ some token := by
  have start : (tryLockAll (transfer 50)).ReachableWhen (Assumed (transfer 50))
      ⟨0, contended, [], .acquiring [] ["a", "b"]⟩ := .initial ⟨rfl, by decide⟩
  have first : (tryLockAll (transfer 50)).ReachableWhen (Assumed (transfer 50))
      ⟨0, halfTaken, ["first"], .acquiring [firstGrant] ["b"]⟩ := by
    refine .next (a := Timed.mk 0 (.acquire "first" .executes)) start ⟨contended_unseen (by decide), ?_⟩ rfl
    rintro _ _ _ ⟨⟩ _
    exact .inl ⟨(1, 1), rfl⟩
  have refused : (tryLockAll (transfer 50)).ReachableWhen (Assumed (transfer 50))
      ⟨5, halfTaken, ["later", "first"], .rollingBack [firstGrant] (.held "b")⟩ := by
    refine .next (a := Timed.mk 5 (.acquire "later" .executes)) first ⟨?_, ?_⟩ rfl
    · exact (((contended_unseen (by decide)).put (by decide)).put (by decide)).put (by decide)
    · rintro _ _ _ ⟨⟩ _
      exact .inl ⟨(0, 0), rfl⟩
  have freed : (tryLockAll (transfer 50)).ReachableWhen (Assumed (transfer 50))
      ⟨6, halfTaken.erase "a", ["later", "first"], .rollingBack [] (.held "b")⟩ :=
    refused.next (a := Timed.mk 1 .release) trivial rfl
  have settled : (tryLockAll (transfer 50)).ReachableWhen (Assumed (transfer 50))
      ⟨6, halfTaken.erase "a", ["later", "first"], .deciding⟩ := freed.next (a := Timed.mk 0 .settle) trivial rfl
  have sleeping : (tryLockAll (transfer 50)).ReachableWhen (Assumed (transfer 50))
      ⟨6, halfTaken.erase "a", ["later", "first"], .sleeping⟩ := settled.next (a := Timed.mk 0 (.check 6)) trivial rfl
  exact ⟨_, sleeping, rfl, rfl, (failure_is_atomic sleeping).1 (.inr rfl)⟩

/-! How long a success covers its keys. -/

/-- Nobody else touches a live lock of the call's tokens or stores one of these tokens. -/
def Respected (s : State) : Timed → Prop
  | ⟨delay, .others next⟩ => ∀ token ∈ s.minted, ∀ name instant, s.now + delay ≤ instant →
      (holder name next instant = some token ↔ holder name s.db instant = some token)
  | _ => True

/-- The handles of the round under way, or of the success. -/
def Phase.taken : Phase → List Grant
  | .acquiring grants _ | .returned (.ok grants) => grants
  | .panicked | .rollingBack _ _ | .deciding | .sleeping | .returned (.error _) => []

/-- Each key taken is covered by the lease of its own grant, and the first grant is the oldest. -/
structure Covered (call : Call) (s : State) : Prop where
  minted : ∀ grant ∈ s.phase.taken, grant.handle.token ∈ s.minted
  past : ∀ grant ∈ s.phase.taken, grant.instant ≤ s.now
  lasts : ∀ grant ∈ s.phase.taken, ∀ instant, s.now ≤ instant →
    (holder grant.handle.key s.db instant = some grant.handle.token ↔ instant < grant.instant + call.ttlMs)
  ordered : s.phase.taken.Pairwise fun earlier later => earlier.instant ≤ later.instant

theorem Covered.wait (covered : Covered call s) (delay : Nat) : Covered call { s with now := s.now + delay } where
  minted := covered.minted
  past grant mem := Nat.le_add_right_of_le (covered.past grant mem)
  lasts grant mem instant later := covered.lasts grant mem instant (Nat.le_of_add_right_le later)
  ordered := covered.ordered

theorem covered_of_nothing (nothing : s.phase.taken = []) : Covered call s where
  minted := by simp [nothing]
  past := by simp [nothing]
  lasts := by simp [nothing]
  ordered := by simp [nothing]

/-- The next key is none of those taken. -/
theorem Listed.fresh {grants : List Grant} {key : String} {rest : List String}
    (listed : (Phase.acquiring grants (key :: rest)).Listed call.sorted) :
    ∀ grant ∈ grants, grant.handle.key ≠ key := by
  obtain ⟨distinct, named⟩ := listed
  have ascending := pairwise_lt (sorted_ascending call) distinct
  rw [← named, List.pairwise_append] at ascending
  intro grant mem
  exact (ascending.2.2 _ (List.mem_map_of_mem mem) key List.mem_cons_self).ne

theorem Covered.grant {grants : List Grant} {key token : String} {rest : List String} {handle : HandleShared}
    {fate : Fate} {db : Keyspace} (covered : Covered call s) (acquiring : s.phase = .acquiring grants (key :: rest))
    (fresh : ∀ grant ∈ grants, grant.handle.key ≠ key)
    (tried : call.tryLockWith key token s.now s.db fate = (.ok handle, db)) :
    Covered call { s with
      db, minted := token :: s.minted, phase := .acquiring (grants ++ [⟨handle, s.now⟩]) rest } := by
  obtain ⟨minted, past, lasts, ordered⟩ := covered
  rw [acquiring] at minted past lasts ordered
  obtain ⟨named, given, status, fence, ran, granted⟩ := tryLockWith_ok tried
  obtain ⟨runs, kept⟩ := exec_acquire_granted (fenceKeyFor_ne key).symm ran granted
  constructor
  · refine List.forall_mem_append.mpr ⟨?_, List.forall_mem_singleton.mpr ?_⟩
    · exact fun grant mem => List.mem_cons_of_mem token (minted grant mem)
    · exact given ▸ List.mem_cons_self
  · exact List.forall_mem_append.mpr ⟨past, List.forall_mem_singleton.mpr (Nat.le_refl s.now)⟩
  · refine List.forall_mem_append.mpr ⟨?_, List.forall_mem_singleton.mpr ?_⟩
    · intro grant mem instant later
      rw [kept grant.handle.key (fresh grant mem) instant later]
      exact lasts grant mem instant later
    · intro instant later
      rw [named, given, runs instant later]
      simp
  · refine List.pairwise_append.mpr ⟨ordered, List.pairwise_singleton .., ?_⟩
    intro grant mem last here
    rw [List.mem_singleton.mp here]
    exact past grant mem

theorem Covered.act (listed : s.phase.Listed call.sorted) (covered : Covered call s)
    (respected : Respected s ⟨0, move⟩) (acts : Acts call s move t) : Covered call t := by
  cases acts with
  | granted acquiring fresh tried =>
    rw [acquiring] at listed
    exact covered.grant acquiring (Listed.fresh listed) tried
  | refused acquiring fresh tried =>
    apply covered_of_nothing
    cases ‹Error› <;> rfl
  | released | retried | failed | expired | slept | woken => exact covered_of_nothing rfl
  | finished acquiring =>
    obtain ⟨minted, past, lasts, ordered⟩ := covered
    rw [acquiring] at minted past lasts ordered
    exact ⟨minted, past, lasts, ordered⟩
  | others =>
    refine ⟨covered.minted, covered.past, ?_, covered.ordered⟩
    intro grant mem instant later
    rw [respected _ (covered.minted grant mem) grant.handle.key instant later]
    exact covered.lasts grant mem instant later

theorem respected_now (respected : Respected s ⟨delay, move⟩) :
    Respected { s with now := s.now + delay } ⟨0, move⟩ := by
  cases move with
  | others => exact respected
  | acquire | release | settle | finish | check | wake => trivial

theorem covered_reachable (reach : (tryLockAll call).ReachableWhen Respected s) : Covered call s := by
  have both : s.phase.Listed call.sorted ∧ Covered call s := by
    refine reach.invariant (P := fun s => s.phase.Listed call.sorted ∧ Covered call s) ?_ ?_
    · rintro s ⟨-, entered⟩
      refine ⟨entered ▸ enter_listed call, covered_of_nothing ?_⟩
      rw [entered]
      unfold Call.enter
      split
      · rfl
      · split
        · rfl
        · split <;> rfl
    · rintro s ⟨delay, move⟩ t ⟨listed, covered⟩ respected stepped
      have acts := State.acts stepped
      exact ⟨Listed.act (s := { s with now := s.now + delay }) listed acts,
        Covered.act (s := { s with now := s.now + delay }) listed (covered.wait delay) (respected_now respected) acts⟩
  exact both.2

/-- A success covers all its keys exactly as long as the lease of the first. -/
theorem success_covers_keys_iff {grants : List Grant} (reach : (tryLockAll call).ReachableWhen Respected s)
    (returned : s.phase = .returned (.ok grants)) :
    (∀ grant ∈ grants, holder grant.handle.key s.db s.now = some grant.handle.token) ↔
      ∀ first ∈ grants.head?, s.now < first.instant + call.ttlMs := by
  obtain ⟨-, -, lasts, ordered⟩ := covered_reachable reach
  rw [returned] at lasts ordered
  cases grants with
  | nil => simp
  | cons first rest =>
    simp only [List.head?_cons, Option.mem_some_iff, forall_eq']
    constructor
    · intro held
      exact (lasts first List.mem_cons_self s.now (Nat.le_refl _)).mp (held first List.mem_cons_self)
    · intro running grant mem
      have oldest : first.instant ≤ grant.instant := by
        obtain rfl | mem := List.mem_cons.mp mem
        · exact Nat.le_refl _
        · exact List.rel_of_pairwise_cons ordered mem
      exact (lasts grant mem s.now (Nat.le_refl _)).mpr (by omega)

/-- A step of the call itself. -/
def Timed.own : Timed → Bool
  | ⟨_, .others _⟩ => false
  | _ => true

theorem own_respected {timed : Timed} (own : timed.own = true) : Respected s timed := by
  obtain ⟨delay, move⟩ := timed
  cases move with
  | others => cases own
  | acquire | release | settle | finish | check | wake => trivial

/-- The two keys are taken `delay` apart. -/
def spacedGrants (delay : Nat) : List Grant :=
  [firstGrant, ⟨⟨"b", "later", ⟨1⟩, .fromMillis 100, .balanced, false, false, false⟩, delay⟩]

theorem prompt_call_covers_keys : ∃ s, (tryLockAll (transfer 1000)).ReachableWhen Respected s ∧
    s.phase = .returned (.ok (spacedGrants 50)) ∧
    ∀ grant ∈ spacedGrants 50, holder grant.handle.key s.db s.now = some grant.handle.token := by
  obtain ⟨s, reach, returned, soon⟩ := (tryLockAll (transfer 1000)).exists_reachableWhen
    (fun _ timed => timed.own = true) (fun s => s.phase = .returned (.ok (spacedGrants 50)) ∧ s.now = 60)
    (s := ⟨0, fun _ => none, [], (transfer 1000).enter⟩) ⟨rfl, rfl⟩
    [⟨0, .acquire "first" .executes⟩, ⟨50, .acquire "later" .executes⟩, ⟨10, .finish⟩] (by decide)
  have reach : (tryLockAll (transfer 1000)).ReachableWhen Respected s := reach.mono fun _ _ => own_respected
  refine ⟨s, reach, returned, (success_covers_keys_iff reach returned).mpr ?_⟩
  rintro first ⟨⟩
  rw [soon]
  decide

/-- The second key takes longer than the lease, and the first has lapsed by then. -/
theorem slow_call_loses_first_key : ∃ s, (tryLockAll (transfer 1000)).ReachableWhen Respected s ∧
    s.phase = .returned (.ok (spacedGrants 150)) ∧
    ¬ ∀ grant ∈ spacedGrants 150, holder grant.handle.key s.db s.now = some grant.handle.token := by
  obtain ⟨s, reach, returned, lapsed⟩ := (tryLockAll (transfer 1000)).exists_reachableWhen
    (fun _ timed => timed.own = true)
    (fun s => s.phase = .returned (.ok (spacedGrants 150)) ∧ holder "a" s.db s.now = none)
    (s := ⟨0, fun _ => none, [], (transfer 1000).enter⟩) ⟨rfl, rfl⟩
    [⟨0, .acquire "first" .executes⟩, ⟨150, .acquire "later" .executes⟩, ⟨0, .finish⟩] (by decide)
  refine ⟨s, reach.mono fun _ _ => own_respected, returned, ?_⟩
  intro held
  have gone := lapsed.symm.trans (held firstGrant List.mem_cons_self)
  cases gone

end

end Palisade.Multi
