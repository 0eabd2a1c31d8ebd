import Palisade.Server.Quota

/-! `close` and `sweep_once` of the session book with the releases they await, one after the
other. Nobody else uses the store in between, but time passes. The book is iterated in the
order of its representation, which is arbitrary. -/
namespace Palisade.Server
open Redis Single

/-- What passes on the two clocks before a release runs, and what becomes of it. -/
structure Awaited where
  delay : Nat
  elapsed : Nat
  fate : Fate
  deriving DecidableEq

namespace Service

def setBook (s : Service) (book : SessionBook) : Service := { s with sessions := { s.sessions with book } }

/-- The service after one release. -/
def unlocked (s : Service) (key token : String) (fate : Fate) : Service :=
  { s with db := (s.unlockWithToken key token fate).2 }

/-- `release_all`, with its `u32` counter. -/
def releaseAll (s : Service) (awaited : Nat → Awaited) (n : Nat) : List (String × String) → Nat × Service
  | [] => (n, s)
  | (key, token) :: locks =>
    let s := s.wait (awaited 0).delay (awaited 0).elapsed
    let result := (s.unlockWithToken key token (awaited 0).fate).1
    (s.unlocked key token (awaited 0).fate).releaseAll (fun i => awaited (i + 1))
      (if result.isOk then (n + 1) % 2 ^ 32 else n) locks

def close (s : Service) (session : String) (awaited : Nat → Awaited) : Nat × Service :=
  let (locks, book) := s.sessions.book.remove session
  (s.setBook book).releaseAll awaited 0 locks

/-- The loop of a sweep over the sessions it has listed. -/
def sweep (s : Service) (awaited : String → Nat → Awaited) : List String → Service
  | [] => s
  | session :: left =>
    match s.sessions.book.lookup session with
    | none => s.sweep awaited left
    | some _ =>
      let (locks, book) := s.sessions.book.remove session
      ((s.setBook book).releaseAll (awaited session) 0 locks).2.sweep awaited left

def sweepOnce (s : Service) (awaited : String → Nat → Awaited) : Service :=
  s.sweep awaited (s.sessions.book.expired s.sessions.now)

/-- The lock is bound to a session of this kind. -/
def Bound (s : Service) (kind : String → Prop) (key token : String) : Prop :=
  ∃ session, kind session ∧ ∃ entry ∈ s.sessions.book.lookup session, (key, token) ∈ entry.locks

/-- Every lock that was bound to one of the sessions is released or still recorded. -/
def Remembers (before : Service) (sessions : List String) (after : Service) : Prop :=
  ∀ key token, before.Bound (· ∈ sessions) key token →
    holder key after.db after.now ≠ some token ∨ after.Bound (fun _ => True) key token

/-- A release of the lock runs. -/
def Runs (s : Service) (sessions : List String) (awaited : String → Nat → Awaited) (key token : String) : Prop :=
  ∃ session ∈ sessions, ∃ entry ∈ s.sessions.book.lookup session, ∃ i : Nat,
    entry.locks[i]? = some (key, token) ∧ (awaited session i).fate = .executes

/-- Every lock of the sessions that does not run out by `instant` has a release that runs,
or is bound to another session too. -/
def Unfailing (s : Service) (sessions : List String) (awaited : String → Nat → Awaited) (instant : Nat) : Prop :=
  ∀ key token, s.Bound (· ∈ sessions) key token → holder key s.db instant = some token →
    s.Runs sessions awaited key token ∨ s.Bound (· ∉ sessions) key token

variable {s : Service} {key token name other : String} {instant : Nat}

/-- A release that runs takes the lock away for all time, and no other. -/
theorem holder_unlocked (fate : Fate) (later : s.now ≤ instant) :
    holder name (s.unlocked key token fate).db instant = some other ↔
      holder name s.db instant = some other ∧ ¬ ((name, other) = (key, token) ∧ fate = .executes) := by
  cases fate with
  | fails message => simp [unlocked, unlockWithToken]
  | executes =>
    have ran : (s.unlocked key token .executes).db = ((Single.release key token).exec s.now s.db).2 := rfl
    rw [ran, eq_self, and_true]
    by_cases owner : holder key s.db s.now = some token
    · rw [exec_release_owner owner]
      by_cases here : name = key
      · subst here
        have own (held : holder name s.db instant = some other) : other = token :=
          Option.some.inj ((holder_earlier held later).symm.trans owner)
        constructor
        · intro held
          simp [holder] at held
        · rintro ⟨held, distinct⟩
          exact absurd (congrArg (name, ·) (own held)) distinct
      · rw [holder_congr (Keyspace.erase_of_ne here)]
        simp [here]
    · rw [(exec_release_stranger owner).2]
      refine ⟨fun held => ⟨held, ?_⟩, And.left⟩
      rintro ⟨rfl, rfl⟩
      exact owner (holder_earlier held later)

/-- What the releases of one session leave. -/
theorem releaseAll_spec (s : Service) (awaited : Nat → Awaited) (n : Nat) (locks : List (String × String)) :
    s.now ≤ (s.releaseAll awaited n locks).2.now ∧
      (s.releaseAll awaited n locks).2.sessions.book = s.sessions.book ∧
      ∀ name other instant, (s.releaseAll awaited n locks).2.now ≤ instant →
        (holder name (s.releaseAll awaited n locks).2.db instant = some other ↔
          holder name s.db instant = some other ∧
            ¬ ∃ i : Nat, locks[i]? = some (name, other) ∧ (awaited i).fate = .executes) := by
  induction locks generalizing s awaited n with
  | nil => simp [releaseAll]
  | cons lock locks ih =>
    obtain ⟨key, token⟩ := lock
    rw [releaseAll]
    obtain ⟨later, book, left⟩ := ih ((s.wait (awaited 0).delay (awaited 0).elapsed).unlocked key token
      (awaited 0).fate) (fun i => awaited (i + 1)) _
    have waited : s.now ≤ (s.wait (awaited 0).delay (awaited 0).elapsed).now := Nat.le_add_right _ _
    refine ⟨waited.trans later, book, fun name other instant after => ?_⟩
    have passed : (s.wait (awaited 0).delay (awaited 0).elapsed).now ≤ instant := later.trans after
    rw [left name other instant after, holder_unlocked _ passed, and_assoc, ← not_or]
    refine and_congr_right fun _ => not_congr ?_
    constructor
    · rintro (⟨same, ran⟩ | ⟨i, found, ran⟩)
      · exact ⟨0, congrArg some same.symm, ran⟩
      · exact ⟨i + 1, found, ran⟩
    · rintro ⟨i, found, ran⟩
      cases i with
      | zero => exact .inl ⟨(Option.some.inj found).symm, ran⟩
      | succ i => exact .inr ⟨i, found, ran⟩

theorem mem_lookup_remove {book : SessionBook} {session removed : String} {entry : SessionEntry} :
    entry ∈ (book.remove removed).2.lookup session ↔ session ≠ removed ∧ entry ∈ book.lookup session := by
  by_cases same : session = removed
  · subst same
    simp [SessionBook.remove]
  · simp [SessionBook.remove, AList.lookup_erase_ne same, same]

/-- The releases of the first session and those of the rest. -/
theorem runs_cons {session : String} {sessions : List String} {entry : SessionEntry} {after : Service}
    {awaited : String → Nat → Awaited} (found : s.sessions.book.lookup session = some entry)
    (book : after.sessions.book = (s.sessions.book.remove session).2) :
    s.Runs (session :: sessions) awaited key token ↔
      (∃ i : Nat, entry.locks[i]? = some (key, token) ∧ (awaited session i).fate = .executes) ∨
        after.Runs sessions awaited key token := by
  simp only [Runs, book]
  constructor
  · rintro ⟨name, member, stored, here, ran⟩
    by_cases same : name = session
    · subst same
      cases Option.some.inj (found.symm.trans here)
      exact .inl ran
    · obtain rfl | member := List.mem_cons.mp member
      · exact absurd rfl same
      · exact .inr ⟨name, member, stored, mem_lookup_remove.mpr ⟨same, here⟩, ran⟩
  · rintro (ran | ⟨name, member, stored, here, ran⟩)
    · exact ⟨session, List.mem_cons_self, entry, found, ran⟩
    · exact ⟨name, List.mem_cons_of_mem _ member, stored, (mem_lookup_remove.mp here).2, ran⟩

/-- What a sweep over any sessions leaves. -/
theorem sweep_spec (s : Service) (awaited : String → Nat → Awaited) (sessions : List String) :
    s.now ≤ (s.sweep awaited sessions).now ∧
      (∀ session entry, entry ∈ (s.sweep awaited sessions).sessions.book.lookup session ↔
        session ∉ sessions ∧ entry ∈ s.sessions.book.lookup session) ∧
      ∀ name other instant, (s.sweep awaited sessions).now ≤ instant →
        (holder name (s.sweep awaited sessions).db instant = some other ↔
          holder name s.db instant = some other ∧ ¬ s.Runs sessions awaited name other) := by
  induction sessions generalizing s with
  | nil => simp [sweep, Runs]
  | cons session sessions ih =>
    rw [sweep]
    cases found : s.sessions.book.lookup session with
    | none =>
      obtain ⟨later, book, left⟩ := ih s
      refine ⟨later, fun name entry => ?_, fun name other instant after => ?_⟩
      · rw [book, List.mem_cons, not_or, and_assoc]
        refine ⟨fun ⟨outside, stored⟩ => ⟨?_, outside, stored⟩, And.right⟩
        rintro rfl
        simp [found] at stored
      · rw [left name other instant after]
        simp [Runs, found]
    | some entry =>
      have locks : (s.sessions.book.remove session).1 = entry.locks := by simp [SessionBook.remove, found]
      obtain ⟨first, kept, freed⟩ := releaseAll_spec (s.setBook (s.sessions.book.remove session).2)
        (awaited session) 0 (s.sessions.book.remove session).1
      dsimp only
      generalize ((s.setBook (s.sessions.book.remove session).2).releaseAll (awaited session) 0
        (s.sessions.book.remove session).1).2 = released at first kept freed ⊢
      obtain ⟨later, book, left⟩ := ih released
      refine ⟨first.trans later, fun name stored => ?_, fun name other instant after => ?_⟩
      · rw [book, kept, List.mem_cons, not_or]
        simp only [setBook, mem_lookup_remove]
        tauto
      · rw [left name other instant after, freed name other instant (later.trans after), locks,
          runs_cons found kept, not_or, and_assoc]
        rfl

theorem sweep_remembers_iff (s : Service) (awaited : String → Nat → Awaited) (sessions : List String) :
    s.Remembers sessions (s.sweep awaited sessions) ↔
      s.Unfailing sessions awaited (s.sweep awaited sessions).now := by
  obtain ⟨_, book, left⟩ := s.sweep_spec awaited sessions
  have recorded (key token : String) : (s.sweep awaited sessions).Bound (fun _ => True) key token ↔
      s.Bound (· ∉ sessions) key token := by
    simp only [Bound, book, true_and, and_assoc, exists_and_left]
  refine forall_congr' fun key => forall_congr' fun token => imp_congr_right fun _ => ?_
  rw [recorded, ne_eq, left key token _ (Nat.le_refl _)]
  tauto

/-- `close` is the loop of a sweep over one session. -/
theorem close_sweep (s : Service) (session : String) (awaited : Nat → Awaited) :
    (s.close session awaited).2 = s.sweep (fun _ => awaited) [session] := by
  simp only [close, sweep]
  cases found : s.sessions.book.lookup session with
  | none =>
    have absent : session ∉ s.sessions.book := by simp [← AList.lookup_isSome, found]
    have same : s.sessions.book.erase session = s.sessions.book :=
      AList.ext (List.kerase_of_notMem_keys absent)
    simp [SessionBook.remove, found, releaseAll, setBook, same]
  | some entry => rfl

/-- A sweep, or the close of a session, forgets no lock that is still held, exactly if every
such lock whose lease lasts has a release that runs. -/
theorem locks_remembered_iff (s : Service) :
    (∀ awaited, s.Remembers (s.sessions.book.expired s.sessions.now) (s.sweepOnce awaited) ↔
      s.Unfailing (s.sessions.book.expired s.sessions.now) awaited (s.sweepOnce awaited).now) ∧
    ∀ session awaited, s.Remembers [session] (s.close session awaited).2 ↔
      s.Unfailing [session] (fun _ => awaited) (s.close session awaited).2.now := by
  constructor
  · intro awaited
    exact s.sweep_remembers_iff awaited _
  · intro session awaited
    rw [close_sweep]
    exact s.sweep_remembers_iff _ _

end Service

/-- A session with one lock, which it holds. -/
def Service.holding : Service := { Service.fresh with
  db := fun name => if name = "key" then some ⟨.string (.raw "token"), some 30000⟩ else none
  sessions := { Sessions.fresh with
    book := ((SessionBook.register ∅ 0 "s" "client" (.fromMillis 3000)).bind 0 "s" "key" "token").2 } }

/-- The session is closed while Redis does not answer: the lock is held and forgotten. -/
theorem failed_unlock_forgotten : ¬ ∀ (s : Service) session awaited,
    s.Remembers [session] (s.close session awaited).2 := by
  intro remembers
  have lock : Service.holding.Bound (· ∈ ["s"]) "key" "token" :=
    ⟨"s", List.mem_singleton_self _, ⟨"client", .fromMillis 3000, 0, 0, [("key", "token")]⟩, by decide,
      List.mem_singleton_self _⟩
  obtain released | ⟨session, _, entry, recorded, _⟩ :=
    remembers .holding "s" (fun _ => ⟨0, 0, .fails "timed out"⟩) "key" "token" lock
  · exact released (by decide)
  · have emptied : (Service.holding.close "s" fun _ => ⟨0, 0, .fails "timed out"⟩).2.sessions.book = ∅ := by decide
    rw [emptied] at recorded
    cases recorded

/-! What `close` counts. -/

/-- A release of a session that is closed, and the service as it finds it. -/
structure Meeting where
  service : Service
  key : String
  token : String
  fate : Fate

namespace Meeting

/-- The key is held by the token just before the release and free of it just after. -/
def Releases (meeting : Meeting) : Prop :=
  holder meeting.key meeting.service.db meeting.service.now = some meeting.token ∧
    holder meeting.key (meeting.service.unlocked meeting.key meeting.token meeting.fate).db
      meeting.service.now ≠ some meeting.token

/-- The release runs and finds nothing under the key, or the token of another. -/
def Stale (meeting : Meeting) : Prop :=
  meeting.fate = .executes ∧ match meeting.service.db.lookup meeting.service.now meeting.key with
    | none => True
    | some ⟨.string payload, _⟩ => payload ≠ .raw meeting.token
    | some _ => False

instance (meeting : Meeting) : Decidable meeting.Releases :=
  inferInstanceAs (Decidable (_ ∧ _))

instance (meeting : Meeting) : Decidable meeting.Stale :=
  have : Decidable (match meeting.service.db.lookup meeting.service.now meeting.key with
      | none => True
      | some ⟨.string payload, _⟩ => payload ≠ .raw meeting.token
      | some _ => False) :=
    match meeting.service.db.lookup meeting.service.now meeting.key with
    | none => isTrue trivial
    | some ⟨.string payload, _⟩ => inferInstanceAs (Decidable (payload ≠ .raw meeting.token))
    | some ⟨.hash _, _⟩ | some ⟨.zset _, _⟩ | some ⟨.list _, _⟩ => isFalse id
  inferInstanceAs (Decidable (_ ∧ _))

theorem releases_iff {meeting : Meeting} : meeting.Releases ↔ meeting.fate = .executes ∧
    holder meeting.key meeting.service.db meeting.service.now = some meeting.token := by
  simp only [Releases, ne_eq, Service.holder_unlocked _ (Nat.le_refl _)]
  tauto

/-- A release is answered without an error exactly if it releases the lock or finds the
key without it. -/
theorem isOk_iff (meeting : Meeting) :
    (meeting.service.unlockWithToken meeting.key meeting.token meeting.fate).1.isOk = true ↔
      meeting.Releases ∨ meeting.Stale := by
  rw [releases_iff, Stale, ← and_or_left]
  cases fate : meeting.fate with
  | fails message => simp [Service.unlockWithToken, Except.isOk, Except.toBool]
  | executes =>
    have reply : (meeting.service.unlockWithToken meeting.key meeting.token .executes).1 =
        unlockReply ((Single.release meeting.key meeting.token).exec meeting.service.now meeting.service.db).1 := rfl
    rw [reply, exec_release, holder_eq_some]
    cases meeting.service.db.lookup meeting.service.now meeting.key with
    | none => simp [unlockReply, Except.isOk, Except.toBool]
    | some entry =>
      obtain ⟨value, stop⟩ := entry
      cases value with
      | string payload =>
        by_cases own : payload = .raw meeting.token
        · simp [own, unlockReply, Except.isOk, Except.toBool]
        · simp [own, unlockReply, Except.isOk, Except.toBool]
      | hash | zset | list => simp [unlockReply, Except.isOk, Except.toBool]

theorem not_stale_of_releases {meeting : Meeting} (releases : meeting.Releases) : ¬ meeting.Stale := by
  rintro ⟨_, stale⟩
  obtain ⟨stop, found⟩ := holder_eq_some.mp releases.1
  rw [found] at stale
  exact stale rfl

end Meeting

namespace Service

/-- The releases of `release_all` as they find the service. -/
def meetings (s : Service) (awaited : Nat → Awaited) : List (String × String) → List Meeting
  | [] => []
  | (key, token) :: locks =>
    let s := s.wait (awaited 0).delay (awaited 0).elapsed
    ⟨s, key, token, (awaited 0).fate⟩ ::
      (s.unlocked key token (awaited 0).fate).meetings (fun i => awaited (i + 1)) locks

/-- The releases of `close`. -/
def closing (s : Service) (session : String) (awaited : Nat → Awaited) : List Meeting :=
  let (locks, book) := s.sessions.book.remove session
  (s.setBook book).meetings awaited locks

/-- The counter counts the releases that find nothing as well. -/
theorem releaseAll_count (s : Service) (awaited : Nat → Awaited) (n : Nat) (locks : List (String × String))
    (small : n < 2 ^ 32) : (s.releaseAll awaited n locks).1 =
      (n + (s.meetings awaited locks).countP (fun meeting => meeting.Releases) +
        (s.meetings awaited locks).countP (fun meeting => meeting.Stale)) % 2 ^ 32 := by
  induction locks generalizing s awaited n with
  | nil =>
    simp only [releaseAll, meetings, List.countP_nil, Nat.add_zero]
    exact (Nat.mod_eq_of_lt small).symm
  | cons lock locks ih =>
    obtain ⟨key, token⟩ := lock
    simp only [releaseAll, meetings, List.countP_cons, decide_eq_true_eq]
    generalize s.wait (awaited 0).delay (awaited 0).elapsed = s
    have answered := Meeting.isOk_iff ⟨s, key, token, (awaited 0).fate⟩
    by_cases releases : Meeting.Releases ⟨s, key, token, (awaited 0).fate⟩
    · have counted := ih (s.unlocked key token (awaited 0).fate) (fun i => awaited (i + 1))
        ((n + 1) % 2 ^ 32) (Nat.mod_lt _ (by decide))
      rw [if_pos (answered.mpr (.inl releases)), counted, if_pos releases,
        if_neg (Meeting.not_stale_of_releases releases)]
      omega
    · by_cases stale : Meeting.Stale ⟨s, key, token, (awaited 0).fate⟩
      · have counted := ih (s.unlocked key token (awaited 0).fate) (fun i => awaited (i + 1))
          ((n + 1) % 2 ^ 32) (Nat.mod_lt _ (by decide))
        rw [if_pos (answered.mpr (.inr stale)), counted, if_neg releases, if_pos stale]
        omega
      · have silent : ¬ (s.unlockWithToken key token (awaited 0).fate).1.isOk = true :=
          fun ok => (answered.mp ok).elim releases stale
        rw [if_neg silent, if_neg releases, if_neg stale, Nat.add_zero, Nat.add_zero]
        exact ih (s.unlocked key token (awaited 0).fate) (fun i => awaited (i + 1)) n small

/-- `close` answers with the number of locks it released exactly if that is a `u32` and no
release finds its key without the lock (or their number is lost in the counter). -/
theorem close_counts_iff (s : Service) (session : String) (awaited : Nat → Awaited) :
    (s.close session awaited).1 = (s.closing session awaited).countP (fun meeting => meeting.Releases) ↔
      (s.closing session awaited).countP (fun meeting => meeting.Releases) < 2 ^ 32 ∧
        2 ^ 32 ∣ (s.closing session awaited).countP (fun meeting => meeting.Stale) := by
  have counted : (s.close session awaited).1 =
      (0 + (s.closing session awaited).countP (fun meeting => meeting.Releases) +
        (s.closing session awaited).countP (fun meeting => meeting.Stale)) % 2 ^ 32 :=
    releaseAll_count _ awaited 0 _ (by decide)
  rw [counted]
  omega

end Service

/-- The same session once its client has unlocked the lock. -/
def Service.unheld : Service := { Service.holding with db := fun _ => none }

theorem unlocked_lock_counted : ¬ ∀ (s : Service) session awaited,
    (s.close session awaited).1 = (s.closing session awaited).countP (fun meeting => meeting.Releases) := by
  intro counts
  have counted := counts .unheld "s" fun _ => ⟨0, 0, .executes⟩
  have answer : (Service.unheld.close "s" fun _ => ⟨0, 0, .executes⟩).1 = 1 := by decide
  have released : (Service.unheld.closing "s" fun _ => ⟨0, 0, .executes⟩).countP
      (fun meeting => meeting.Releases) = 0 := by decide
  rw [answer, released] at counted
  cases counted

end Palisade.Server
